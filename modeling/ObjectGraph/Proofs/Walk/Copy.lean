import ObjectGraph.Proofs.Walk.Reach

/-!
# What a walk copies

Each copying operation of a walk adds the facts of the objects that it is given and
nothing else, provided that the store says only what is true of the walk. A schema is
copied unless the store has another value for one of its attributes, and data is
copied whenever the keys of dicts are valid.
-/

namespace ObjectGraph

namespace Walk

open Schema

variable {w : Walk} {t : Task} {s r : Store}

theorem foldlM_invariant {α : Type} {I : Store → Prop} {step : Store → α → Except Error Store}
    {xs : List α} (hstep : ∀ s, I s → ∀ x ∈ xs, ∀ r, step s x = .ok r → I r)
    (hs : I s) (h : xs.foldlM step s = .ok r) : I r := by
  induction xs generalizing s with
  | nil => exact Except.ok.inj h ▸ hs
  | cons x xs ih =>
      rw [List.foldlM_cons] at h
      cases hx : step s x with
      | error e => simp [hx, bind, Except.bind] at h
      | ok u =>
          exact ih (fun s hs y hy => hstep s hs y (List.mem_cons_of_mem x hy))
            (hstep s hs x List.mem_cons_self u hx) (by simpa [hx, bind, Except.bind] using h)

theorem foldlM_total {α : Type} {step : Store → α → Except Error Store} {xs : List α}
    (hstep : ∀ s, ∀ x ∈ xs, ∃ r, step s x = .ok r) (s : Store) :
    ∃ r, xs.foldlM step s = .ok r := by
  induction xs generalizing s with
  | nil => exact ⟨s, rfl⟩
  | cons x xs ih =>
      obtain ⟨u, hu⟩ := hstep s x List.mem_cons_self
      obtain ⟨r, hr⟩ := ih (fun s y hy => hstep s y (List.mem_cons_of_mem x hy)) u
      exact ⟨r, by simpa [List.foldlM_cons, hu, bind, Except.bind] using hr⟩

/-! ### Schemas -/

theorem declare_cons_ok {schema : ObjectId} {name : String} {value : Item}
    {attrs : List (String × Item)}
    (hpresent : ∀ name value, s.attr? schema name = some value → value.isPresent = true)
    (h : declare schema s ((name, value) :: attrs) = .ok r) :
    (∀ v, s.attr? schema name = some v → v = value) ∧
      declare schema (s.setAttr schema name value) attrs = .ok r := by
  simp only [declare] at h
  split at h
  · cases h
  · rename_i hok
    refine ⟨fun v hv => ?_, h⟩
    have hp := hpresent name v hv
    simpa [hv, hp] using hok

theorem declare_cons_error {schema : ObjectId} {name : String} {value : Item}
    {attrs : List (String × Item)} {e : Error}
    (h : declare schema s ((name, value) :: attrs) = .error e) :
    (∃ v, s.attr? schema name = some v ∧ v ≠ value ∧ e = .schemaConflict schema name v value) ∨
      declare schema (s.setAttr schema name value) attrs = .error e := by
  simp only [declare] at h
  split at h
  · rename_i hbad
    rw [Bool.and_eq_true] at hbad
    cases hv : s.attr? schema name with
    | none => simp [hv, Item.isPresent, Item.type?] at hbad
    | some v =>
        have hne : v ≠ value := by simpa [hv] using hbad.2
        rw [hv, Option.getD_some] at h
        exact Or.inl ⟨v, rfl, hne, (Except.error.inj h).symm⟩
  · exact Or.inr h

/-- Copying a schema adds the attributes that it declares. -/
theorem adds_declare {schema : ObjectId} {attrs : List (String × Item)}
    (hattrs : ∀ a ∈ attrs, a.2.isPresent = true)
    (hpresent : ∀ name value, s.attr? schema name = some value → value.isPresent = true)
    (h : declare schema s attrs = .ok r) :
    s.Adds r fun f => ∃ a ∈ attrs, f = .attr schema a.1 a.2 := by
  induction attrs generalizing s with
  | nil =>
      obtain rfl : s = r := Except.ok.inj h
      exact Store.Adds.refl (by simp)
  | cons a attrs ih =>
      obtain ⟨name, value⟩ := a
      obtain ⟨hsame, hrest⟩ := declare_cons_ok hpresent h
      have hadds := Store.adds_setAttr hsame
      have hp : ∀ n v, (s.setAttr schema name value).attr? schema n = some v →
          v.isPresent = true := by
        intro n v hv
        rcases (hadds (.attr schema n v)).1 hv with hv | hv
        · exact hpresent n v hv
        · obtain ⟨-, -, rfl⟩ := Fact.attr.inj hv
          exact hattrs _ List.mem_cons_self
      have ih := ih (fun a ha => hattrs a (List.mem_cons_of_mem _ ha)) hp hrest
      exact (hadds.trans ih).congr fun f => by simp

/-- Copying a schema fails only on a value that was there before. -/
theorem exists_of_declare_eq_error {schema : ObjectId} {attrs : List (String × Item)} {e : Error}
    (hfun : ∀ name u v, (name, u) ∈ attrs → (name, v) ∈ attrs → u = v)
    (h : declare schema s attrs = .error e) :
    ∃ name value v, (name, value) ∈ attrs ∧ s.attr? schema name = some v ∧ v ≠ value ∧
      e = .schemaConflict schema name v value := by
  induction attrs generalizing s with
  | nil => cases h
  | cons a attrs ih =>
      obtain ⟨name, value⟩ := a
      rcases declare_cons_error h with ⟨v, hv, hne, he⟩ | h
      · exact ⟨name, value, v, List.mem_cons_self, hv, hne, he⟩
      · obtain ⟨n, u, v, hmem, hv, hne, he⟩ := ih (fun name u v hu hv =>
          hfun name u v (List.mem_cons_of_mem _ hu) (List.mem_cons_of_mem _ hv)) h
        rw [Store.attr?_setAttr] at hv
        split at hv
        · rename_i heq
          obtain rfl := heq.2
          have := hfun name value u List.mem_cons_self (List.mem_cons_of_mem _ hmem)
          exact absurd ((Option.some.inj hv).symm.trans this) hne
        · exact ⟨n, u, v, List.mem_cons_of_mem _ hmem, hv, hne, he⟩

theorem written_declare {schema : ObjectId} {attrs : List (String × Item)} (hs : s.Written)
    (h : declare schema s attrs = .ok r) : r.Written := by
  induction attrs generalizing s with
  | nil => exact Except.ok.inj h ▸ hs
  | cons a attrs ih =>
      simp only [declare] at h
      split at h
      · cases h
      · exact ih (hs.setAttr _ _ _) h

theorem mem_declared {schema : ObjectId} {source : Source} {name : String} {value : Item} :
    (name, value) ∈ w.declared schema source ↔
      (w.schemaView source).attr schema name = value ∧ value.isPresent = true :=
  View.mem_attrEntries

/-- Two values of one attribute in one source are equal. -/
theorem declared_inj {schema : ObjectId} {source : Source} {name : String} {u v : Item}
    (hu : (name, u) ∈ w.declared schema source) (hv : (name, v) ∈ w.declared schema source) :
    u = v :=
  (mem_declared.1 hu).1.symm.trans (mem_declared.1 hv).1

/-- What is declared in a source is declared present. -/
theorem Faithful.isPresent_of_says (hw : w.Faithful t) (hs : ∀ f, s.Says f → w.Holds t f)
    {schema : ObjectId} (hid : schema.isSchema = true) {name : String} {value : Item}
    (h : s.attr? schema name = some value) : value.isPresent = true := by
  obtain ⟨source, -, hmem⟩ := hw.declared_of_holds hid (hs (.attr schema name value) h)
  exact (mem_declared.1 hmem).2

/-! ### Data -/

theorem adds_copyAttr (hw : w.Faithful t) {objects : List ObjectId} {name : String}
    (hs : ∀ f, s.Says f → w.Holds t f) (hmeet : ∀ o ∈ objects, w.Meets t o)
    (hholds : ∀ o ∈ objects, (w.data.attr o name).isPresent = true →
      w.Holds t (.attr (w.target o) name (w.data.attr o name))) :
    s.Adds (w.copyAttr objects s name) fun f => ∃ o ∈ objects,
      (w.data.attr o name).isPresent = true ∧
        f = .attr (w.target o) name (w.data.attr o name) := by
  refine Store.adds_foldl ?_ ?_ hs
  · rintro o ho f ⟨hpresent, rfl⟩
    exact hholds o ho hpresent
  · intro s hs o ho
    by_cases hpresent : (w.data.attr o name).isPresent = true
    · simp only [hpresent, if_true, true_and]
      exact Store.adds_setAttr fun v hv => hw.attr_eq (hmeet o ho) (hs _ hv)
    · simp only [hpresent]
      exact Store.Adds.refl (by simp)

theorem adds_copyAttrs (hw : w.Faithful t) {objects : List ObjectId} {names : List String}
    (hs : ∀ f, s.Says f → w.Holds t f) (hmeet : ∀ o ∈ objects, w.Meets t o)
    (hholds : ∀ name ∈ names, ∀ o ∈ objects, (w.data.attr o name).isPresent = true →
      w.Holds t (.attr (w.target o) name (w.data.attr o name))) :
    s.Adds (names.foldl (w.copyAttr objects) s) fun f => ∃ name ∈ names, ∃ o ∈ objects,
      (w.data.attr o name).isPresent = true ∧
        f = .attr (w.target o) name (w.data.attr o name) := by
  refine Store.adds_foldl ?_ ?_ hs
  · rintro name hname f ⟨o, hmem, hpresent, rfl⟩
    exact hholds name hname o hmem hpresent
  · intro s hs name hname
    exact adds_copyAttr hw hs hmeet (hholds name hname)

theorem adds_copyLists (hw : w.Faithful t) {lists : List ObjectId}
    (hs : ∀ f, s.Says f → w.Holds t f) (hmeet : ∀ l ∈ lists, w.Meets t l)
    (hholds : ∀ l ∈ lists, ∀ items, w.data.list? l = some items →
      w.Holds t (.list (w.target l) items))
    (h : w.copyLists lists s = .ok r) :
    s.Adds r fun f => ∃ l ∈ lists, ∃ items, w.data.list? l = some items ∧
      f = .list (w.target l) items := by
  refine Store.adds_foldlM ?_ ?_ hs h
  · rintro l hl f ⟨items, hitems, rfl⟩
    exact hholds l hl items hitems
  · intro s hs l hl u hu
    cases hitems : w.data.list? l with
    | none =>
        simp only [hitems] at hu
        obtain rfl : s = u := Except.ok.inj hu
        exact Store.Adds.refl (by simp)
    | some items =>
        simp only [hitems] at hu
        obtain ⟨-, rfl⟩ := Store.setList_eq_ok hu
        refine (Store.adds_putList fun l' hl' => ?_).congr fun f => by simp
        have := hw.list_eq (hmeet l hl) (hs _ hl')
        exact (Option.some.inj (hitems.symm.trans this)).symm

/-- Setting the entries of a dict one after another is setting them all, if it
succeeds. -/
theorem foldlM_setInDict {id : ObjectId} {entries : List (Item × Item)}
    (h : entries.foldlM (fun r e => r.setInDict id e.1 e.2) s = .ok r) :
    r = s.putAll id entries := by
  induction entries generalizing s with
  | nil => exact (Except.ok.inj h).symm
  | cons e entries ih =>
      rw [List.foldlM_cons] at h
      cases he : s.setInDict id e.1 e.2 with
      | error e' => simp [he, bind, Except.bind] at h
      | ok u =>
          obtain ⟨-, -, rfl⟩ := Store.setInDict_eq_ok he
          exact ih (by simpa [he, bind, Except.bind] using h)

theorem adds_copyDicts (hw : w.Faithful t) {dicts : List ObjectId}
    (hs : ∀ f, s.Says f → w.Holds t f) (hmeet : ∀ d ∈ dicts, w.Meets t d)
    (hholds : ∀ d ∈ dicts, w.data.dictEntries d ≠ [] →
      w.Holds t (.dict (w.target d) (w.data.dictEntries d)))
    (h : w.copyDicts dicts s = .ok r) :
    s.Adds r fun f => ∃ d ∈ dicts, f = .dict (w.target d) (w.data.dictEntries d) ∧
      w.data.dictEntries d ≠ [] := by
  refine Store.adds_foldlM ?_ ?_ hs h
  · rintro d hd f ⟨rfl, hne⟩
    exact hholds d hd hne
  · intro s hs d hd u hu
    obtain rfl := foldlM_setInDict hu
    exact Store.adds_putAll (w.data.nodup_dictEntries d) fun es hes =>
      hw.dict_eq (hmeet d hd) (hs _ hes)

/-- Copying data adds the facts of the objects. -/
theorem adds_copyData (hw : w.Faithful t) {id : ObjectId} {source : Source} {layout : Layout}
    {objects : List ObjectId} (he : id.isExplicit = true) (hl : w.layout id source = .ok layout)
    (ho : ∀ o ∈ objects, w.Reaches t (.object o (.objectId id) source))
    (hs : ∀ f, s.Says f → w.Holds t f) (h : w.copyData objects s layout = .ok r) :
    s.Adds r fun f => ∃ o ∈ objects, w.Gives (.object o (.objectId id) source) f := by
  have hmeet : ∀ o ∈ objects, w.Meets t o := fun o hmem => ⟨_, _, ho o hmem⟩
  cases layout with
  | entity attrs =>
      obtain rfl := Except.ok.inj h
      have hadds := adds_copyAttrs hw hs hmeet fun name hname o hmem hpresent =>
        ⟨_, ho o hmem, .attr he hl hname hpresent⟩
      refine hadds.congr fun f => ?_
      constructor
      · rintro ⟨name, hname, o, hmem, hpresent, rfl⟩
        exact ⟨o, hmem, .attr he hl hname hpresent⟩
      · rintro ⟨o, hmem, hgives⟩
        cases hgives with
        | @attr _ _ _ attrs' name _ hl' hname hpresent =>
            obtain ⟨rfl⟩ := Layout.entity.inj (Except.ok.inj (hl.symm.trans hl'))
            exact ⟨name, hname, o, hmem, hpresent, rfl⟩
        | list _ hl' => cases hl.symm.trans hl'
        | dict _ hl' => cases hl.symm.trans hl'
  | list schema =>
      have hsub : ∀ l ∈ objects.filter ObjectId.isList, l ∈ objects ∧ l.isList = true :=
        fun l hmem => List.mem_filter.1 hmem
      have hadds := adds_copyLists hw hs (fun l hmem => hmeet l (hsub l hmem).1)
        (fun l hmem items hitems =>
          ⟨_, ho l (hsub l hmem).1, .list he hl (hsub l hmem).2 hitems⟩) h
      refine hadds.congr fun f => ?_
      constructor
      · rintro ⟨l, hmem, items, hitems, rfl⟩
        exact ⟨l, (hsub l hmem).1, .list he hl (hsub l hmem).2 hitems⟩
      · rintro ⟨o, hmem, hgives⟩
        cases hgives with
        | attr _ hl' => cases hl.symm.trans hl'
        | list _ _ hlist hitems => exact ⟨o, List.mem_filter.2 ⟨hmem, hlist⟩, _, hitems, rfl⟩
        | dict _ hl' => cases hl.symm.trans hl'
  | dict keys values =>
      have hsub : ∀ d ∈ objects.filter ObjectId.isDict, d ∈ objects ∧ d.isDict = true :=
        fun d hmem => List.mem_filter.1 hmem
      have hadds := adds_copyDicts hw hs (fun d hmem => hmeet d (hsub d hmem).1)
        (fun d hmem hne => ⟨_, ho d (hsub d hmem).1, .dict he hl (hsub d hmem).2 hne⟩) h
      refine hadds.congr fun f => ?_
      constructor
      · rintro ⟨d, hmem, rfl, hne⟩
        exact ⟨d, (hsub d hmem).1, .dict he hl (hsub d hmem).2 hne⟩
      · rintro ⟨o, hmem, hgives⟩
        cases hgives with
        | attr _ hl' => cases hl.symm.trans hl'
        | list _ hl' => cases hl.symm.trans hl'
        | dict _ _ hdict hne => exact ⟨o, List.mem_filter.2 ⟨hmem, hdict⟩, rfl, hne⟩

theorem copyData_nil (w : Walk) (s : Store) (layout : Layout) :
    w.copyData [] s layout = .ok s := by
  cases layout with
  | entity attrs =>
      have hsame : ∀ names : List String, names.foldl (w.copyAttr []) s = s := by
        intro names
        induction names with
        | nil => rfl
        | cons name names ih => exact ih
      exact congrArg Except.ok (hsame _)
  | list items => rfl
  | dict keys values => rfl

/-- Data is copied whenever the keys of dicts are valid. -/
theorem exists_copyData (hkind : ∀ o, (w.target o).kind = o.kind) (hkeys : w.data.ValidKeys)
    (objects : List ObjectId) (s : Store) (layout : Layout) :
    ∃ r, w.copyData objects s layout = .ok r := by
  cases layout with
  | entity attrs => exact ⟨_, rfl⟩
  | list items =>
      refine foldlM_total (fun s l hl => ?_) s
      have hlist : (w.target l).isList = true := by
        rw [ObjectId.isList, hkind]
        exact (List.mem_filter.1 hl).2
      cases w.data.list? l with
      | none => exact ⟨s, rfl⟩
      | some items => exact ⟨_, if_pos hlist⟩
  | dict keys values =>
      refine foldlM_total (fun s d hd => ?_) s
      have hdict : (w.target d).isDict = true := by
        rw [ObjectId.isDict, hkind]
        exact (List.mem_filter.1 hd).2
      refine foldlM_total (fun s e he => ?_) s
      exact ⟨_, Store.setInDict_of_valid s hdict (hkeys d e he) e.2⟩

theorem written_copyAttr {objects : List ObjectId} (hs : s.Written) (name : String) :
    (w.copyAttr objects s name).Written := by
  unfold copyAttr
  induction objects generalizing s with
  | nil => exact hs
  | cons o objects ih =>
      rw [List.foldl_cons]
      refine ih ?_
      by_cases hpresent : (w.data.attr o name).isPresent = true
      · simp only [hpresent, if_true]
        exact hs.setAttr _ _ _
      · simp only [hpresent]
        exact hs

/-- Data is copied by writes. -/
theorem written_copyData {objects : List ObjectId} {layout : Layout} (hs : s.Written)
    (h : w.copyData objects s layout = .ok r) : r.Written := by
  cases layout with
  | entity attrs =>
      obtain rfl := Except.ok.inj h
      generalize attrs.map Prod.fst = names
      induction names generalizing s with
      | nil => exact hs
      | cons name names ih =>
          rw [List.foldl_cons]
          exact ih (written_copyAttr hs name) rfl
  | list items =>
      refine foldlM_invariant (I := Store.Written) (fun s hs l _ u hu => ?_) hs h
      cases hitems : w.data.list? l with
      | none =>
          simp only [hitems] at hu
          exact Except.ok.inj hu ▸ hs
      | some items =>
          simp only [hitems] at hu
          exact hs.setList hu
  | dict keys values =>
      refine foldlM_invariant (I := Store.Written) (fun s hs d _ u hu => ?_) hs h
      exact foldlM_invariant (fun s hs e _ u hu => hs.setInDict hu) hs hu

end Walk

end ObjectGraph
