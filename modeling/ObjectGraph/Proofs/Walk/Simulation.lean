import ObjectGraph.Proofs.Store.Ids
import ObjectGraph.Proofs.Walk.Extract

/-!
# Walks that read alike

A walk simulates another one along a relation of marks when every step of the second
and every mark that stops it have a counterpart in the first. Two walks that read
schemas alike have such counterparts at objects that they read alike: the steps to
the schema that an object names, to the object under this schema, and to its children.
-/

namespace ObjectGraph

namespace View

/-- An object holds another one. -/
inductive Refers (v : View) (o child : ObjectId) : Prop
  | attr {name : String} : (v.attr o name).child? = some child → Refers v o child
  | item {x : Item} : x ∈ v.list o → x.child? = some child → Refers v o child
  | key {e : Item × Item} : e ∈ v.dictEntries o → e.1.child? = some child → Refers v o child
  | value {e : Item × Item} : e ∈ v.dictEntries o → e.2.child? = some child → Refers v o child

theorem mem_ids_of_refers {v : View} {o child : ObjectId} (h : v.Refers o child) :
    child ∈ v.ids := by
  refine mem_ids_of_mentioned ?_
  cases h with
  | attr hc => exact attr_mem_mentioned (Item.child?_eq_some_iff.1 hc).1
  | item hx hc =>
      rw [(Item.child?_eq_some_iff.1 hc).1] at hx
      exact list_mem_mentioned hx
  | @key e he hc =>
      obtain ⟨key, value⟩ := e
      obtain rfl : key = .objectId child := (Item.child?_eq_some_iff.1 hc).1
      exact key_mem_mentioned he
  | @value e he hc =>
      obtain ⟨key, value⟩ := e
      obtain rfl : value = .objectId child := (Item.child?_eq_some_iff.1 hc).1
      exact value_mem_mentioned he

end View

namespace Walk

open Schema

/-- Every step of `w` has a counterpart in `w'`, and so has every mark that stops it. -/
structure Simulation (w w' : Walk) (R : Mark → Mark → Prop) : Prop where
  leads : ∀ m m' n, R m m' → w.Leads m n → ∃ n', w'.Leads m' n' ∧ R n n'
  fails : ∀ m m', R m m' → w.Fails m → w'.Fails m'

variable {w w' : Walk} {t t' : Task} {R : Mark → Mark → Prop}

theorem Simulation.exists_reaches (h : Simulation w w' R)
    (hstart : ∀ m, t.Has m → ∃ m', t'.Has m' ∧ R m m') {m : Mark} (hm : w.Reaches t m) :
    ∃ m', w'.Reaches t' m' ∧ R m m' := by
  induction hm with
  | start hm =>
      obtain ⟨m', hm', hR⟩ := hstart _ hm
      exact ⟨m', .start hm', hR⟩
  | step _ hlead ih =>
      obtain ⟨m', hm', hR⟩ := ih
      obtain ⟨n', hlead', hR'⟩ := h.leads _ _ _ hR hlead
      exact ⟨n', .step hm' hlead', hR'⟩

theorem Simulation.exists_fails (h : Simulation w w' R)
    (hstart : ∀ m, t.Has m → ∃ m', t'.Has m' ∧ R m m')
    (hbad : ∃ m, w.Reaches t m ∧ w.Fails m) : ∃ m, w'.Reaches t' m ∧ w'.Fails m := by
  obtain ⟨m, hm, hfails⟩ := hbad
  obtain ⟨m', hm', hR⟩ := h.exists_reaches hstart hm
  exact ⟨m', hm', h.fails m m' hR hfails⟩

/-! ### Schemas -/

/-- Two walks read a schema alike, each from a source of its own. -/
structure SameSchema (w w' : Walk) (item : Item) (source source' : Source) : Prop where
  shallow : w'.shallow = w.shallow
  declared : ∀ id, item = .objectId id → id.isExplicit = true →
    w'.declared id source' = w.declared id source

variable {item : Item} {source source' : Source}

theorem SameSchema.symm (h : SameSchema w w' item source source') :
    SameSchema w' w item source' source where
  shallow := h.shallow.symm
  declared := fun id hi he => (h.declared id hi he).symm

theorem SameSchema.layout {id : ObjectId} (h : SameSchema w w' (.objectId id) source source')
    (he : id.isExplicit = true) : w'.layout id source' = w.layout id source := by
  rw [Walk.layout, h.declared id rfl he, Walk.layout]

theorem SameSchema.leads (h : SameSchema w w' item source source') {n : Mark}
    (hlead : w.Leads (.schema item source) n) :
    ∃ i, n = .schema i source ∧ w'.Leads (.schema item source') (.schema i source') := by
  cases hlead with
  | declared he hl hi => exact ⟨_, rfl, .declared he ((h.layout he).trans hl) hi⟩

theorem SameSchema.fails (h : SameSchema w w' item source source')
    (hfails : w.Fails (.schema item source)) : w'.Fails (.schema item source') := by
  cases hfails with
  | any => exact .any
  | unsupported hi => exact .unsupported hi
  | layout he hl => exact .layout he ((h.layout he).trans hl)

theorem SameSchema.gives (h : SameSchema w w' item source source') {f : Fact}
    (hgives : w.Gives (.schema item source) f) : w'.Gives (.schema item source') f := by
  cases hgives with
  | declared he ha =>
      refine .declared he ?_
      rw [h.declared _ rfl he]
      exact ha

/-- Two walks read schemas alike. -/
structure SameSchemas (w w' : Walk) : Prop where
  shallow : w'.shallow = w.shallow
  declared : ∀ id source, id.isSchema = true → w'.declared id source = w.declared id source

theorem SameSchemas.symm (h : SameSchemas w w') : SameSchemas w' w where
  shallow := h.shallow.symm
  declared := fun id source hid => (h.declared id source hid).symm

theorem SameSchemas.same (h : SameSchemas w w') (item : Item) (source : Source) :
    SameSchema w w' item source source where
  shallow := h.shallow
  declared := fun id _ he => h.declared id source (isExplicit_iff.1 he).1

/-! ### Objects -/

/-- Two walks read an object under a schema alike, each under an id of its own. -/
structure Alike (w w' : Walk) (o o' : ObjectId) (item : Item) (source : Source) : Prop where
  kind : o'.kind = o.kind
  embedded : item = .dtype .object → w'.data.attr o' schemaAttr = w.data.attr o schemaAttr
  attrs : ∀ id attrs, item = .objectId id → id.isExplicit = true →
    w.layout id source = .ok (.entity attrs) →
    ∀ name ∈ attrs.map Prod.fst, w'.data.attr o' name = w.data.attr o name
  list : ∀ id items, item = .objectId id → id.isExplicit = true →
    w.layout id source = .ok (.list items) → o.isList = true →
    w'.data.list? o' = w.data.list? o
  dict : ∀ id keys values, item = .objectId id → id.isExplicit = true →
    w.layout id source = .ok (.dict keys values) → o.isDict = true →
    w'.data.dictEntries o' = w.data.dictEntries o

variable {o o' : ObjectId}

theorem Alike.isList (h : Alike w w' o o' item source) : o'.isList = o.isList := by
  rw [ObjectId.isList, h.kind, ObjectId.isList]

theorem Alike.isDict (h : Alike w w' o o' item source) : o'.isDict = o.isDict := by
  rw [ObjectId.isDict, h.kind, ObjectId.isDict]

theorem Alike.symm (hs : SameSchema w w' item source source') (h : Alike w w' o o' item source) :
    Alike w' w o' o item source' where
  kind := h.kind.symm
  embedded := fun hi => (h.embedded hi).symm
  attrs := by
    rintro id attrs rfl he hl name hname
    exact (h.attrs id attrs rfl he ((hs.layout he).symm.trans hl) name hname).symm
  list := by
    rintro id items rfl he hl ho
    exact (h.list id items rfl he ((hs.layout he).symm.trans hl) (h.isList.symm.trans ho)).symm
  dict := by
    rintro id keys values rfl he hl ho
    exact (h.dict id keys values rfl he ((hs.layout he).symm.trans hl)
      (h.isDict.symm.trans ho)).symm

theorem Alike.trans {w'' : Walk} {o'' : ObjectId} (hs : SameSchema w w' item source source')
    (h : Alike w w' o o' item source) (h' : Alike w' w'' o' o'' item source') :
    Alike w w'' o o'' item source where
  kind := h'.kind.trans h.kind
  embedded := fun hi => (h'.embedded hi).trans (h.embedded hi)
  attrs := by
    rintro id attrs rfl he hl name hname
    exact (h'.attrs id attrs rfl he ((hs.layout he).trans hl) name hname).trans
      (h.attrs id attrs rfl he hl name hname)
  list := by
    rintro id items rfl he hl ho
    exact (h'.list id items rfl he ((hs.layout he).trans hl) (h.isList.trans ho)).trans
      (h.list id items rfl he hl ho)
  dict := by
    rintro id keys values rfl he hl ho
    exact (h'.dict id keys values rfl he ((hs.layout he).trans hl) (h.isDict.trans ho)).trans
      (h.dict id keys values rfl he hl ho)

theorem Alike.embedded_eq_ok (h : Alike w w' o o' (.dtype .object) source) {schema : ObjectId}
    (hemb : w.embedded o = .ok schema) : w'.embedded o' = .ok schema := by
  rw [embedded_eq_ok_iff, h.embedded rfl]
  exact embedded_eq_ok_iff.1 hemb

/-- The counterparts of the steps of an object: to the schema that it names, to itself
under this schema, and to the objects that it holds. -/
theorem Alike.leads (hs : SameSchema w w' item source source') (h : Alike w w' o o' item source)
    {n : Mark} (hlead : w.Leads (.object o item source) n) :
    (∃ i, n = .schema i .data ∧ w'.Leads (.object o' item source') n) ∨
      (∃ schema, n = .object o (.objectId schema) .data ∧ item = .dtype .object ∧
        w.embedded o = .ok schema ∧ schema.isNoFollow = false ∧
        w'.Leads (.object o' item source') (.object o' (.objectId schema) .data)) ∨
      ∃ child i, n = .object child i source ∧ w.data.Refers o child ∧ w'.data.Refers o' child ∧
        w'.Leads (.object o' item source') (.object child i source') := by
  cases hlead with
  | embedded hemb hn => exact Or.inl ⟨_, rfl, .embedded (h.embedded_eq_ok hemb) hn⟩
  | embeddedObject hemb hn =>
      exact Or.inr (Or.inl ⟨_, rfl, rfl, hemb, hn, .embeddedObject (h.embedded_eq_ok hemb) hn⟩)
  | attr hdeep he hl ha hn hc =>
      have hc' := hc
      rw [← h.attrs _ _ rfl he hl _ (List.mem_map_of_mem (f := Prod.fst) ha)] at hc'
      exact Or.inr (Or.inr ⟨_, _, rfl, .attr hc, .attr hc',
        .attr (hs.shallow.trans hdeep) he ((hs.layout he).trans hl) ha hn hc'⟩)
  | item hdeep he hl ho hx hc =>
      have hx' := hx
      rw [View.list, ← h.list _ _ rfl he hl ho] at hx'
      exact Or.inr (Or.inr ⟨_, _, rfl, .item hx hc, .item hx' hc,
        .item (hs.shallow.trans hdeep) he ((hs.layout he).trans hl) (h.isList.trans ho) hx' hc⟩)
  | key hdeep he hl ho hx hc =>
      have hx' := hx
      rw [← h.dict _ _ _ rfl he hl ho] at hx'
      exact Or.inr (Or.inr ⟨_, _, rfl, .key hx hc, .key hx' hc,
        .key (hs.shallow.trans hdeep) he ((hs.layout he).trans hl) (h.isDict.trans ho) hx' hc⟩)
  | value hdeep he hl ho hx hc =>
      have hx' := hx
      rw [← h.dict _ _ _ rfl he hl ho] at hx'
      exact Or.inr (Or.inr ⟨_, _, rfl, .value hx hc, .value hx' hc,
        .value (hs.shallow.trans hdeep) he ((hs.layout he).trans hl) (h.isDict.trans ho) hx' hc⟩)

theorem Alike.leads_self (hs : SameSchema w w' item source source)
    (h : Alike w w' o o item source) {n : Mark} (hlead : w.Leads (.object o item source) n) :
    w'.Leads (.object o item source) n := by
  rcases h.leads hs hlead with
    ⟨_, -, hlead'⟩ | ⟨_, rfl, -, -, -, hlead'⟩ | ⟨_, _, rfl, -, -, hlead'⟩
  · exact hlead'
  · exact hlead'
  · exact hlead'

theorem Alike.fails (h : Alike w w' o o' item source) (hfails : w.Fails (.object o item source)) :
    w'.Fails (.object o' item source') := by
  cases hfails with
  | embedded hemb =>
      have hbad := embedded_eq_error_iff.1 ⟨_, hemb⟩
      rw [← h.embedded rfl] at hbad
      obtain ⟨e, hemb'⟩ := embedded_eq_error_iff.2 hbad
      exact .embedded hemb'

theorem Alike.gives (hs : SameSchema w w' item source source') (h : Alike w w' o o' item source)
    (htarget : w'.target o' = w.target o) {f : Fact}
    (hgives : w.Gives (.object o item source) f) : w'.Gives (.object o' item source') f := by
  cases hgives with
  | embedded hemb =>
      rw [← htarget]
      exact .embedded (h.embedded_eq_ok hemb)
  | attr he hl hname hpresent =>
      rw [← h.attrs _ _ rfl he hl _ hname] at hpresent ⊢
      rw [← htarget]
      exact .attr he ((hs.layout he).trans hl) hname hpresent
  | list he hl ho hitems =>
      rw [← h.list _ _ rfl he hl ho] at hitems
      rw [← htarget]
      exact .list he ((hs.layout he).trans hl) (h.isList.trans ho) hitems
  | dict he hl ho hne =>
      rw [← h.dict _ _ _ rfl he hl ho] at hne ⊢
      rw [← htarget]
      exact .dict he ((hs.layout he).trans hl) (h.isDict.trans ho) hne

/-! ### The same walk -/

/-- A walk reads all that another one reaches in the same way. -/
structure ReadsAlike (w w' : Walk) (t : Task) : Prop where
  schema : ∀ item source, w.Reaches t (.schema item source) → SameSchema w w' item source source
  object : ∀ o item source, w.Reaches t (.object o item source) → Alike w w' o o item source

theorem SameSchemas.readsAlike (hs : SameSchemas w w')
    (h : ∀ o item source, w.Reaches t (.object o item source) → Alike w w' o o item source) :
    ReadsAlike w w' t where
  schema := fun item source _ => hs.same item source
  object := h

theorem ReadsAlike.sameSchema (h : ReadsAlike w w' t)
    (hm : w.Reaches t (.object o item source)) : SameSchema w w' item source source :=
  h.schema item source (reaches_schema_of_object hm)

theorem ReadsAlike.leads_iff (h : ReadsAlike w w' t) {m n : Mark} (hm : w.Reaches t m) :
    w'.Leads m n ↔ w.Leads m n := by
  cases m with
  | schema item source =>
      have hs := h.schema item source hm
      constructor
      · intro hlead
        obtain ⟨_, rfl, hlead'⟩ := hs.symm.leads hlead
        exact hlead'
      · intro hlead
        obtain ⟨_, rfl, hlead'⟩ := hs.leads hlead
        exact hlead'
  | object o item source =>
      have hs := h.sameSchema hm
      have halike := h.object o item source hm
      exact ⟨(halike.symm hs).leads_self hs.symm, halike.leads_self hs⟩

/-- It reaches the same. -/
theorem ReadsAlike.reaches_iff (h : ReadsAlike w w' t) {m : Mark} :
    w'.Reaches t m ↔ w.Reaches t m := by
  constructor
  · intro hm
    induction hm with
    | start hm => exact .start hm
    | step _ hlead ih => exact .step ih ((h.leads_iff ih).1 hlead)
  · intro hm
    induction hm with
    | start hm => exact .start hm
    | step hm hlead ih => exact .step ih ((h.leads_iff hm).2 hlead)

theorem ReadsAlike.symm (h : ReadsAlike w w' t) : ReadsAlike w' w t where
  schema := fun item source hm => (h.schema item source (h.reaches_iff.1 hm)).symm
  object := fun o item source hm =>
    (h.object o item source (h.reaches_iff.1 hm)).symm (h.sameSchema (h.reaches_iff.1 hm))

theorem ReadsAlike.gives (h : ReadsAlike w w' t) (htarget : w'.target = w.target) {m : Mark}
    (hm : w.Reaches t m) {f : Fact} (hgives : w.Gives m f) : w'.Gives m f := by
  cases m with
  | schema item source => exact (h.schema item source hm).gives hgives
  | object o item source =>
      exact (h.object o item source hm).gives (h.sameSchema hm) (by rw [htarget]) hgives

theorem ReadsAlike.holds_iff (h : ReadsAlike w w' t) (htarget : w'.target = w.target) {f : Fact} :
    w'.Holds t f ↔ w.Holds t f := by
  constructor
  · intro hholds
    obtain ⟨m, hm, hf⟩ := hholds
    exact ⟨m, h.reaches_iff.1 hm, h.symm.gives htarget.symm hm hf⟩
  · intro hholds
    obtain ⟨m, hm, hf⟩ := hholds
    exact ⟨m, h.reaches_iff.2 hm, h.gives htarget hm hf⟩

theorem ReadsAlike.fails (h : ReadsAlike w w' t) {m : Mark} (hm : w.Reaches t m)
    (hfails : w.Fails m) : w'.Fails m := by
  cases m with
  | schema item source => exact (h.schema item source hm).fails hfails
  | object o item source => exact (h.object o item source hm).fails hfails

theorem ReadsAlike.exists_fails_iff (h : ReadsAlike w w' t) :
    (∃ m, w'.Reaches t m ∧ w'.Fails m) ↔ ∃ m, w.Reaches t m ∧ w.Fails m := by
  constructor
  · intro hbad
    obtain ⟨m, hm, hf⟩ := hbad
    exact ⟨m, h.reaches_iff.1 hm, h.symm.fails hm hf⟩
  · intro hbad
    obtain ⟨m, hm, hf⟩ := hbad
    exact ⟨m, h.reaches_iff.2 hm, h.fails hm hf⟩

/-! ### Sources -/

/-- A walk that starts from the data view stays there. -/
theorem source_of_reaches (ht : t.source = .data) {m : Mark} (h : w.Reaches t m) :
    match m with
    | .schema _ source => source = .data
    | .object _ _ source => source = .data := by
  induction h with
  | @start m hm =>
      cases m with
      | schema item source => exact hm.2.symm.trans ht
      | object o item source => exact hm.2.2.symm.trans ht
  | step _ hlead ih =>
      cases hlead with
      | declared => exact ih
      | embedded => rfl
      | embeddedObject => rfl
      | attr => exact ih
      | item => exact ih
      | key => exact ih
      | value => exact ih

theorem not_conflict (ht : t.source = .data) : ¬ w.Conflict t := by
  rintro ⟨id, name, value, value', -, -, hschema, -⟩
  cases source_of_reaches ht hschema

/-- Apart from the objects that it starts from, a walk meets objects that others hold. -/
theorem exists_refers_of_reaches {o : ObjectId} {item : Item} {source : Source}
    (h : w.Reaches t (.object o item source)) (ho : o ∉ t.objects) :
    ∃ y, w.Meets t y ∧ w.data.Refers y o := by
  generalize hm : Mark.object o item source = m at h
  induction h generalizing o item source with
  | start h =>
      subst hm
      exact absurd h.1 ho
  | step hreach hlead ih =>
      subst hm
      cases hlead with
      | embeddedObject => exact ih ho rfl
      | attr _ _ _ _ _ hc => exact ⟨_, ⟨_, _, hreach⟩, .attr hc⟩
      | item _ _ _ _ hx hc => exact ⟨_, ⟨_, _, hreach⟩, .item hx hc⟩
      | key _ _ _ _ he hc => exact ⟨_, ⟨_, _, hreach⟩, .key he hc⟩
      | value _ _ _ _ he hc => exact ⟨_, ⟨_, _, hreach⟩, .value he hc⟩

/-- With one source a run fails exactly on what is reached. -/
theorem runTask_eq_error_iff_exists_fails (hw : w.Faithful t) (hkeys : w.data.ValidKeys)
    (ht : t.source = .data) :
    (∃ e, w.runTask t = .error e) ↔ ∃ m, w.Reaches t m ∧ w.Fails m := by
  rw [runTask_eq_error_iff hw hkeys]
  exact or_iff_left (not_conflict ht)

/-- With one source it runs to the same store. -/
theorem ReadsAlike.runTask_eq_ok (h : ReadsAlike w w' t) (htarget : w'.target = w.target)
    (hw : w.Faithful t) (hw' : w'.Faithful t) (hkeys : w'.data.ValidKeys) (ht : t.source = .data)
    {r : Store} (hrun : w.runTask t = .ok r) : w'.runTask t = .ok r := by
  cases hrun' : w'.runTask t with
  | error e =>
      have hbad := (runTask_eq_error_iff_exists_fails hw' hkeys ht).1 ⟨e, hrun'⟩
      obtain ⟨m, hm, hfails⟩ := h.exists_fails_iff.1 hbad
      exact absurd hfails (not_fails_of_runTask_eq_ok hw hrun hm)
  | ok r' =>
      have hsays : ∀ f, r'.Says f ↔ r.Says f := by
        intro f
        rw [says_iff_of_runTask_eq_ok hw' hrun', says_iff_of_runTask_eq_ok hw hrun]
        exact h.holds_iff htarget
      exact congrArg Except.ok (Store.eq_of_says (written_of_runTask_eq_ok hw' hrun').valid
        (written_of_runTask_eq_ok hw hrun).valid hsays)

end Walk

end ObjectGraph
