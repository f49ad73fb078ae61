import ObjectGraph.Proofs.Walk.Extract

/-!
# Schemas read from two sources

A schema that is reached from both sources is copied from both, and the copy declares
what either of them declares. Each source is checked for itself, the union is not: it
is malformed exactly when the two sources give the schema layouts of different kinds,
unless one of them declares nothing. Such a copy cannot be extracted again. Without
such schemas the attributes of a copy never stop an extraction from it.
-/

namespace ObjectGraph

open Schema

namespace Layout

/-- The attributes that a schema of the layout declares. -/
def names : Layout → List String
  | entity attrs => attrs.map Prod.fst
  | list _ => [itemsAttr]
  | dict _ _ => [keysAttr, valuesAttr]

/-- Layouts of different kinds, neither of which is that of a schema without
attributes. -/
def Excludes : Layout → Layout → Prop
  | entity _, entity _ => False
  | list _, list _ => False
  | dict _ _, dict _ _ => False
  | entity attrs, _ => attrs ≠ []
  | _, entity attrs => attrs ≠ []
  | _, _ => True

/-- No attribute is one of a container schema. -/
def Plain (names : List String) : Prop :=
  itemsAttr ∉ names ∧ keysAttr ∉ names ∧ valuesAttr ∉ names

variable {schema : ObjectId} {attrs attrs' : List (String × Item)} {layout layout' : Layout}
  {names names' : List String}

theorem mem_names_of_ofAttrs (hnodup : (attrs.map Prod.fst).Nodup)
    (h : ofAttrs schema attrs = .ok layout) (name : String) :
    name ∈ attrs.map Prod.fst ↔ name ∈ layout.names := by
  have hlength : (attrs.map Prod.fst).length = attrs.length := List.length_map _
  unfold ofAttrs at h
  split at h
  · rename_i items hi
    split at h
    · rename_i hlen
      cases h
      have hmem := mem_names_of_lookup hi
      have hall := (length_eq_one_iff hnodup hmem).1 (hlength.trans hlen)
      rw [Layout.names, List.mem_singleton]
      exact ⟨hall name, fun heq => heq ▸ hmem⟩
    · cases h
  · split at h
    · cases h
      rfl
    · rename_i keys values hk hv
      split at h
      · rename_i hlen
        cases h
        have hall := (length_eq_two_iff hnodup (mem_names_of_lookup hk) (mem_names_of_lookup hv)
          (by decide)).1 (hlength.trans hlen) name
        simpa [Layout.names] using hall
      · cases h
    · cases h

theorem plain_of_ofAttrs (h : ofAttrs schema attrs = .ok (entity attrs')) :
    Plain (attrs'.map Prod.fst) := by
  unfold ofAttrs at h
  split at h
  · split at h <;> cases h
  · rename_i hi
    split at h
    · rename_i hk hv
      cases h
      exact ⟨lookup_eq_none_iff.1 hi, lookup_eq_none_iff.1 hk, lookup_eq_none_iff.1 hv⟩
    · split at h <;> cases h
    · cases h

/-! ### Unions -/

theorem malformed_congr (h : ∀ name, name ∈ names ↔ name ∈ names') :
    Malformed names ↔ Malformed names' := by
  simp only [Malformed, h]

theorem exists_mem_of_malformed (h : Malformed names) : ∃ name, name ∈ names := by
  obtain ⟨hitems, -⟩ | ⟨hkeys | hvalues, -⟩ := h
  · exact ⟨itemsAttr, hitems⟩
  · exact ⟨keysAttr, hkeys⟩
  · exact ⟨valuesAttr, hvalues⟩

theorem not_malformed_of_plain (h : Plain names) : ¬ Malformed names := by
  rintro (⟨hi, -⟩ | ⟨hk | hv, -⟩)
  · exact h.1 hi
  · exact h.2.1 hk
  · exact h.2.2 hv

theorem not_malformed_items : ¬ Malformed [itemsAttr] := by
  simp [Malformed, show keysAttr ≠ itemsAttr by decide, show valuesAttr ≠ itemsAttr by decide]

theorem not_malformed_keys : ¬ Malformed [keysAttr, valuesAttr] := by
  simp [Malformed, show itemsAttr ≠ keysAttr by decide, show itemsAttr ≠ valuesAttr by decide]

theorem malformed_append_self : Malformed (names ++ names) ↔ Malformed names :=
  malformed_congr fun name => by rw [List.mem_append, or_self]

theorem malformed_append_comm :
    Malformed (names ++ names') ↔ Malformed (names' ++ names) :=
  malformed_congr fun name => by rw [List.mem_append, List.mem_append, or_comm]

theorem malformed_items_append_iff (h : Plain names) :
    Malformed ([itemsAttr] ++ names) ↔ names ≠ [] := by
  constructor
  · rintro hbad rfl
    exact not_malformed_items hbad
  · intro hne
    obtain ⟨name, hname⟩ := List.exists_mem_of_ne_nil names hne
    have hother : name ≠ itemsAttr := fun heq => h.1 (heq ▸ hname)
    exact Or.inl ⟨List.mem_cons_self, name, List.mem_cons_of_mem _ hname, hother⟩

theorem malformed_keys_append_iff (h : Plain names) :
    Malformed ([keysAttr, valuesAttr] ++ names) ↔ names ≠ [] := by
  constructor
  · rintro hbad rfl
    exact not_malformed_keys hbad
  · intro hne
    obtain ⟨name, hname⟩ := List.exists_mem_of_ne_nil names hne
    refine Or.inr ⟨Or.inl List.mem_cons_self, fun hall => ?_⟩
    rcases (hall name).1 (List.mem_append_right _ hname) with rfl | rfl
    · exact h.2.1 hname
    · exact h.2.2 hname

/-- The attributes of two layouts of one schema go together unless the layouts exclude
each other. -/
theorem malformed_append_iff (h : ∀ attrs, layout = entity attrs → Plain (attrs.map Prod.fst))
    (h' : ∀ attrs, layout' = entity attrs → Plain (attrs.map Prod.fst)) :
    Malformed (layout.names ++ layout'.names) ↔ layout.Excludes layout' := by
  have hnil : ∀ attrs : List (String × Item), attrs.map Prod.fst ≠ [] ↔ attrs ≠ [] :=
    fun attrs => not_congr List.map_eq_nil_iff
  have hlists : Malformed ([itemsAttr] ++ [keysAttr, valuesAttr]) :=
    Or.inl ⟨by simp, keysAttr, by simp, by decide⟩
  cases layout with
  | entity attrs =>
      have hplain := h attrs rfl
      cases layout' with
      | entity attrs' =>
          have hplain' := h' attrs' rfl
          refine iff_of_false (not_malformed_of_plain ?_) id
          simp only [Plain, names, List.mem_append, not_or]
          exact ⟨⟨hplain.1, hplain'.1⟩, ⟨hplain.2.1, hplain'.2.1⟩, hplain.2.2, hplain'.2.2⟩
      | list items =>
          rw [malformed_append_comm]
          exact (malformed_items_append_iff hplain).trans (hnil attrs)
      | dict keys values =>
          rw [malformed_append_comm]
          exact (malformed_keys_append_iff hplain).trans (hnil attrs)
  | list items =>
      cases layout' with
      | entity attrs' => exact (malformed_items_append_iff (h' attrs' rfl)).trans (hnil attrs')
      | list items' =>
          exact iff_of_false (malformed_append_self.not.2 not_malformed_items) id
      | dict keys values => exact iff_of_true hlists trivial
  | dict keys values =>
      cases layout' with
      | entity attrs' => exact (malformed_keys_append_iff (h' attrs' rfl)).trans (hnil attrs')
      | list items => exact iff_of_true (malformed_append_comm.1 hlists) trivial
      | dict keys' values' =>
          exact iff_of_false (malformed_append_self.not.2 not_malformed_keys) id

end Layout

theorem Source.eq_of_ne {a b c : Source} (ha : a ≠ c) (hb : b ≠ c) : a = b := by
  cases a <;> cases b <;> cases c <;> simp_all

/-- A schema declares attributes that do not go together. -/
def Error.BlamesAttrs : Error → Prop
  | .listSchemaAttrs _ _ => True
  | .dictSchemaAttrs _ _ => True
  | _ => False

namespace Walk

variable {w : Walk} {t u : Task} {p : Progress} {r : Store} {id : ObjectId} {source : Source}
  {e : Error}

/-- The copy of a schema declares what the sources declare from which it is reached. -/
theorem mem_attrNames_of_runTask_eq_ok (hw : w.Faithful t) (h : w.runTask t = .ok r)
    (he : id.isExplicit = true) (name : String) :
    name ∈ (View.mk [r]).attrNames id ↔ ∃ source, w.Reaches t (.schema (.objectId id) source) ∧
      name ∈ (w.schemaView source).attrNames id := by
  have hfacts := fun f => says_iff_of_runTask_eq_ok hw h f
  have hattr : (View.mk [r]).attr id name = (r.attr? id name).getD .missing := by
    rw [View.attr, View.attr?, List.findSome?_cons, List.findSome?_nil]
    cases r.attr? id name <;> rfl
  have hnames : ∀ source, name ∈ (w.schemaView source).attrNames id ↔
      ∃ value, (name, value) ∈ w.declared id source := by
    intro source
    rw [← View.map_fst_attrEntries, List.mem_map]
    simp [declared]
  rw [View.mem_attrNames, hattr]
  constructor
  · intro hpresent
    cases hvalue : r.attr? id name with
    | none =>
        rw [hvalue] at hpresent
        cases hpresent
    | some value =>
        obtain ⟨source, hreach, hmem⟩ :=
          hw.declared_of_holds (isExplicit_iff.1 he).1 ((hfacts (.attr id name value)).1 hvalue)
        exact ⟨source, hreach, (hnames source).2 ⟨value, hmem⟩⟩
  · rintro ⟨source, hreach, hname⟩
    obtain ⟨value, hmem⟩ := (hnames source).1 hname
    have hvalue : r.attr? id name = some value :=
      (hfacts (.attr id name value)).2 ⟨_, hreach, .declared he hmem⟩
    rw [hvalue]
    exact (mem_declared.1 hmem).2

theorem exists_layout_of_reaches (hw : w.Faithful t) (h : w.runTask t = .ok r)
    (he : id.isExplicit = true) (hreach : w.Reaches t (.schema (.objectId id) source)) :
    ∃ layout, w.layout id source = .ok layout := by
  cases hl : w.layout id source with
  | ok layout => exact ⟨layout, rfl⟩
  | error e => exact absurd (.layout he hl) (not_fails_of_runTask_eq_ok hw h hreach)

theorem mem_names_of_layout {layout : Layout} (hl : w.layout id source = .ok layout)
    (name : String) : name ∈ (w.schemaView source).attrNames id ↔ name ∈ layout.names := by
  have hnodup := (w.schemaView source).nodup_attrNames id
  rw [← View.map_fst_attrEntries] at hnodup ⊢
  exact Layout.mem_names_of_ofAttrs hnodup hl name

/-- A copy from a single source has the attributes of that source, which was checked. -/
theorem not_malformed_of_single (hw : w.Faithful t) (h : w.runTask t = .ok r)
    (he : id.isExplicit = true) (hreach : w.Reaches t (.schema (.objectId id) source))
    (honly : ∀ source', w.Reaches t (.schema (.objectId id) source') → source' = source) :
    ¬ Layout.Malformed ((View.mk [r]).attrNames id) := by
  intro hbad
  have hsame : ∀ name, name ∈ (View.mk [r]).attrNames id ↔
      name ∈ (w.schemaView source).attrNames id := by
    intro name
    rw [mem_attrNames_of_runTask_eq_ok hw h he name]
    constructor
    · intro hname
      obtain ⟨source', hreach', hname⟩ := hname
      exact honly source' hreach' ▸ hname
    · intro hname
      exact ⟨source, hreach, hname⟩
  obtain ⟨layout, hl⟩ := exists_layout_of_reaches hw h he hreach
  obtain ⟨e, herr⟩ := layout_eq_error_iff.2 ((Layout.malformed_congr hsame).1 hbad)
  cases hl.symm.trans herr

theorem reaches_of_malformed (hw : w.Faithful t) (h : w.runTask t = .ok r)
    (he : id.isExplicit = true) (hbad : Layout.Malformed ((View.mk [r]).attrNames id))
    (source : Source) : w.Reaches t (.schema (.objectId id) source) := by
  by_contra hnot
  obtain ⟨name, hname⟩ := Layout.exists_mem_of_malformed hbad
  obtain ⟨source', hreach, -⟩ := (mem_attrNames_of_runTask_eq_ok hw h he name).1 hname
  have hne : ∀ other, w.Reaches t (.schema (.objectId id) other) → other ≠ source :=
    fun other hother heq => hnot (heq ▸ hother)
  -- Without the source there is only the other one, and that was checked.
  refine not_malformed_of_single hw h he hreach ?_ hbad
  intro other hother
  exact Source.eq_of_ne (hne other hother) (hne source' hreach)

theorem plain_of_layout {layout : Layout} (h : w.layout id source = .ok layout) :
    ∀ attrs, layout = .entity attrs → Layout.Plain (attrs.map Prod.fst) :=
  fun _ hentity => Layout.plain_of_ofAttrs (h.trans (congrArg _ hentity))

/-- Nothing checks the union of the two sources. -/
theorem malformed_iff_excludes (hw : w.Faithful t) (h : w.runTask t = .ok r)
    (he : id.isExplicit = true) (hdata : w.Reaches t (.schema (.objectId id) .data))
    (hschema : w.Reaches t (.schema (.objectId id) .schema)) {layout layout' : Layout}
    (hl : w.layout id .data = .ok layout) (hl' : w.layout id .schema = .ok layout') :
    Layout.Malformed ((View.mk [r]).attrNames id) ↔ layout.Excludes layout' := by
  have hunion : ∀ name, name ∈ (View.mk [r]).attrNames id ↔
      name ∈ layout.names ++ layout'.names := by
    intro name
    rw [mem_attrNames_of_runTask_eq_ok hw h he name, List.mem_append, ← mem_names_of_layout hl,
      ← mem_names_of_layout hl']
    constructor
    · intro hname
      obtain ⟨source, -, hname⟩ := hname
      cases source with
      | data => exact Or.inl hname
      | schema => exact Or.inr hname
    · intro hname
      cases hname with
      | inl hname => exact ⟨.data, hdata, hname⟩
      | inr hname => exact ⟨.schema, hschema, hname⟩
  rw [Layout.malformed_congr hunion]
  exact Layout.malformed_append_iff (plain_of_layout hl) (plain_of_layout hl')

/-- The copy of a schema is malformed exactly if it is made from two sources with
layouts that exclude each other. -/
theorem malformed_iff_of_runTask_eq_ok (hw : w.Faithful t) (h : w.runTask t = .ok r)
    (he : id.isExplicit = true) :
    Layout.Malformed ((View.mk [r]).attrNames id) ↔
      w.Reaches t (.schema (.objectId id) .data) ∧ w.Reaches t (.schema (.objectId id) .schema) ∧
        ∃ l l', w.layout id .data = .ok l ∧ w.layout id .schema = .ok l' ∧ l.Excludes l' := by
  constructor
  · intro hbad
    have hdata := reaches_of_malformed hw h he hbad .data
    have hschema := reaches_of_malformed hw h he hbad .schema
    obtain ⟨l, hl⟩ := exists_layout_of_reaches hw h he hdata
    obtain ⟨l', hl'⟩ := exists_layout_of_reaches hw h he hschema
    exact ⟨hdata, hschema, l, l', hl, hl',
      (malformed_iff_excludes hw h he hdata hschema hl hl').1 hbad⟩
  · intro hboth
    obtain ⟨hdata, hschema, l, l', hl, hl', hexcludes⟩ := hboth
    exact (malformed_iff_excludes hw h he hdata hschema hl hl').2 hexcludes

/-! ### Copying once more -/

/-- Only a schema that is malformed makes a step blame the attributes of a schema. -/
theorem malformed_of_step_eq_error (hkind : ∀ o, (w.target o).kind = o.kind)
    (hkeys : w.data.ValidKeys) (h : w.step p u = .error e) (hblame : e.BlamesAttrs) :
    ∃ id : ObjectId, id.isExplicit = true ∧
      Layout.Malformed ((w.schemaView u.source).attrNames id) := by
  cases stops_of_step hkind hkeys h with
  | any => exact hblame.elim
  | unsupported => exact hblame.elim
  | embedded => exact hblame.elim
  | layout hs he hl => exact ⟨_, he, layout_eq_error_iff.1 ⟨_, hl⟩⟩
  | conflict => exact hblame.elim

end Walk

section Extract

variable {data : View} {schemas : Option View} {objects : Column} {schema : Item} {r : Store}

/-- A schema of a copy is malformed exactly if it is merged from layouts that exclude
each other; without such a schema, extraction from the copy does not fail on the
attributes of a schema. -/
theorem malformed_iff_of_extract_eq_ok (h : extract data schemas objects schema = .ok r) :
    (∀ id : ObjectId, id.isExplicit = true →
      (Layout.Malformed ((View.mk [r]).attrNames id) ↔
        (Walk.deep data schemas).Reaches
          ((Walk.deep data schemas).firstTask objects.roots schema)
          (.schema (.objectId id) .data) ∧
        (Walk.deep data schemas).Reaches
          ((Walk.deep data schemas).firstTask objects.roots schema)
          (.schema (.objectId id) .schema) ∧
        ∃ l l', (Walk.deep data schemas).layout id .data = .ok l ∧
          (Walk.deep data schemas).layout id .schema = .ok l' ∧ l.Excludes l')) ∧
    ((∀ id : ObjectId, id.isExplicit = true →
        ¬ Layout.Malformed ((View.mk [r]).attrNames id)) →
      ∀ e, extract ⟨[r]⟩ none objects schema = .error e → ¬ e.BlamesAttrs) := by
  have hw := Walk.faithful_deep data schemas
    (t := (Walk.deep data schemas).firstTask objects.roots schema)
    fun o ho => Walk.isSchema_of_mem_roots ho
  refine ⟨fun id he => Walk.malformed_iff_of_runTask_eq_ok hw h he, ?_⟩
  intro hfine e he hblame
  obtain ⟨p, done, u, queue, -, hstep⟩ := Walk.exists_trace_of_drain_eq_error he .start
  have hkeys : (View.mk [r]).ValidKeys := by
    refine View.validKeys_of_valid fun s hs => ?_
    rw [List.mem_singleton.1 hs]
    exact (Walk.written_of_runTask_eq_ok hw h).valid
  obtain ⟨id, hid, hbad⟩ := Walk.malformed_of_step_eq_error (fun _ => rfl) hkeys hstep hblame
  have hview : (Walk.deep ⟨[r]⟩ none).schemaView u.source = ⟨[r]⟩ := by
    cases u.source <;> rfl
  rw [hview] at hbad
  exact hfine id hid hbad

end Extract

namespace TwoKinds

/-- A schema that is one of lists in the data and one of entities elsewhere. -/
def shared : ObjectId :=
  ⟨1, 0, .schema⟩

def outer : ObjectId :=
  ⟨2, 0, .entity⟩

/-- An object typed `OBJECT` that names the shared schema. -/
def inner : ObjectId :=
  ⟨2, 1, .entity⟩

def data : Store :=
  ((Store.empty.setAttr shared itemsAttr (.dtype .int32)).setAttr
    outer "x" (.objectId inner)).setAttr inner schemaAttr (.objectId shared)

def schemas : Store :=
  Store.empty.setAttr shared "x" (.dtype .object)

/-- The copy holds both declarations of the shared schema. -/
def copy : Store :=
  (((Store.empty.setAttr shared "x" (.dtype .object)).setAttr
    outer "x" (.objectId inner)).setAttr inner schemaAttr (.objectId shared)).setAttr
      shared itemsAttr (.dtype .int32)

theorem extract_outer :
    extract ⟨[data]⟩ (some ⟨[schemas]⟩) (.ofItems [.objectId outer]) (.objectId shared) =
      .ok copy := by
  have hschema := @Walk.Trace.step _ _ _ _ _ _ [] [⟨[inner], .dtype .object, .schema⟩]
    (.start (w := .deep ⟨[data]⟩ (some ⟨[schemas]⟩))
      (t := ⟨[outer], .objectId shared, .schema⟩)) rfl
  have hobject := @Walk.Trace.step _ _ _ _ _ _ [] [⟨[inner], .objectId shared, .data⟩] hschema rfl
  have hlist := @Walk.Trace.step _ _ _ _ _ _ [] [⟨[], .dtype .int32, .data⟩] hobject rfl
  exact (@Walk.Trace.step _ _ _ _ _ _ [] [] hlist rfl).runTask_eq_ok

theorem attrNames_shared : (View.mk [copy]).attrNames shared = [itemsAttr, "x"] := by
  decide +kernel

theorem malformed_shared : Layout.Malformed ((View.mk [copy]).attrNames shared) := by
  rw [attrNames_shared]
  exact Or.inl ⟨List.mem_cons_self, "x", by decide, by decide⟩

theorem extract_copy :
    extract ⟨[copy]⟩ none (.ofItems [.objectId outer]) (.objectId shared) =
      .error (.listSchemaAttrs shared [itemsAttr, "x"]) :=
  (Walk.Trace.start (w := .deep ⟨[copy]⟩ none)
    (t := ⟨[outer], .objectId shared, .data⟩)).runTask_eq_error rfl

/-- The copy of the shared schema is malformed, so it cannot be extracted again. -/
theorem exists_malformed_copy :
    extract ⟨[data]⟩ (some ⟨[schemas]⟩) (.ofItems [.objectId outer]) (.objectId shared) =
        .ok copy ∧
      Layout.Malformed ((View.mk [copy]).attrNames shared) ∧
      extract ⟨[copy]⟩ none (.ofItems [.objectId outer]) (.objectId shared) =
        .error (.listSchemaAttrs shared [itemsAttr, "x"]) :=
  ⟨extract_outer, malformed_shared, extract_copy⟩

theorem exists_excludes :
    ∃ l l', (Walk.deep ⟨[data]⟩ (some ⟨[schemas]⟩)).layout shared .data = .ok l ∧
      (Walk.deep ⟨[data]⟩ (some ⟨[schemas]⟩)).layout shared .schema = .ok l' ∧ l.Excludes l' :=
  (((malformed_iff_of_extract_eq_ok extract_outer).1 shared rfl).1 malformed_shared).2.2

end TwoKinds

end ObjectGraph
