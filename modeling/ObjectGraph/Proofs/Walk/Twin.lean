import ObjectGraph.Proofs.Store.Layers
import ObjectGraph.Proofs.Walk.Renaming
import ObjectGraph.Proofs.Walk.Simulation

/-!
# Twins

The twin of an object is found under the fresh id of the object and says what the
object says. Twins are put in front of a view, `twinned`, so nothing else changes, and
as nothing refers to a fresh id, a walk from the twins goes the way of a walk from the
objects: after the first objects both meet the same ones.
-/

namespace ObjectGraph

/-- A fact of another object. -/
def Fact.under (id : ObjectId) : Fact → Fact
  | .attr _ name value => .attr id name value
  | .list _ items => .list id items
  | .dict _ entries => .dict id entries

theorem Fact.subject_under (id : ObjectId) (f : Fact) : (f.under id).subject = id := by
  cases f <;> rfl

/-- What a view says of an object. -/
def View.Says (v : View) (id : ObjectId) : Fact → Prop
  | .attr other name value => other = id ∧ v.attr id name = value ∧ value.isPresent = true
  | .list other items => other = id ∧ v.list? id = some items
  | .dict other entries => other = id ∧ v.dictEntries id = entries ∧ entries ≠ []

namespace Renaming

/-- Stores all that a view says of an object under its fresh id. -/
def twin (r : Renaming) (v : View) (s : Store) (x : ObjectId) : Store :=
  let s := (v.attrEntries x).foldl (fun s a => s.setAttr (r.rename x) a.1 a.2) s
  let s := ((v.list? x).map (s.putList (r.rename x))).getD s
  s.putAll (r.rename x) (v.dictEntries x)

/-- The twins of objects. -/
def twins (r : Renaming) (v : View) (objects : List ObjectId) : Store :=
  objects.foldl (r.twin v) ∅

/-- A view with the twins of objects. -/
def twinned (r : Renaming) (v : View) (objects : List ObjectId) : View :=
  v.cons (r.twins v objects)

/-- The fresh ids of objects are told apart, keep kinds, and are not known to a view. -/
structure Fresh (r : Renaming) (v : View) (objects : List ObjectId) : Prop where
  plain : ∀ x ∈ objects, x.isSchema = false
  kind : ∀ x, (r.rename x).kind = x.kind
  inj : ∀ x ∈ objects, ∀ y ∈ objects, r.rename x = r.rename y → x = y
  fresh : ∀ x ∈ objects, r.rename x ∉ v.ids

theorem fresh_ofColumn {c : Column} {a : Allocator} {v : View} (hsize : c.size < UInt32.size)
    (hids : ∀ id ∈ v.ids, a.Earlier id) : (ofColumn c a).1.Fresh v c.roots where
  plain := fun _ hx => (Column.mem_roots.1 hx).2
  kind := kind_rename c a
  inj := fun _ hx _ hy h => rename_inj hsize hx hy h
  fresh := fun _ hx hmem => not_earlier_rename hx (hids _ hmem)

theorem Fresh.isSchema_rename {r : Renaming} {v : View} {objects : List ObjectId}
    (hr : r.Fresh v objects) (x : ObjectId) : (r.rename x).isSchema = x.isSchema := by
  rw [ObjectId.isSchema, hr.kind, ObjectId.isSchema]

theorem Fresh.isSchema_of_mem_map {r : Renaming} {v : View} {objects : List ObjectId}
    (hr : r.Fresh v objects) {y : ObjectId} (hy : y ∈ objects.map r.rename) :
    y.isSchema = false := by
  obtain ⟨x, hx, rfl⟩ := List.mem_map.1 hy
  exact (hr.isSchema_rename x).trans (hr.plain x hx)

/-- What the twins of objects say. -/
def TwinFact (r : Renaming) (v : View) (objects : List ObjectId) (f : Fact) : Prop :=
  ∃ x ∈ objects, ∃ g, v.Says x g ∧ f = g.under (r.rename x)

variable {r : Renaming} {v : View} {objects : List ObjectId} {s : Store} {x y : ObjectId}

theorem Fresh.attr_eq (hr : r.Fresh v objects) (hx : x ∈ objects) {name : String} {value : Item}
    (h : r.TwinFact v objects (.attr (r.rename x) name value)) :
    value = v.attr x name ∧ value.isPresent = true := by
  obtain ⟨y, hy, g, hg, hf⟩ := h
  cases g with
  | attr id n u =>
      obtain ⟨hrename, rfl, rfl⟩ := Fact.attr.inj hf
      obtain rfl := hr.inj x hx y hy hrename
      exact ⟨hg.2.1.symm, hg.2.2⟩
  | _ => cases hf

theorem Fresh.list_eq (hr : r.Fresh v objects) (hx : x ∈ objects) {items : List Item}
    (h : r.TwinFact v objects (.list (r.rename x) items)) : v.list? x = some items := by
  obtain ⟨y, hy, g, hg, hf⟩ := h
  cases g with
  | list id l =>
      obtain ⟨hrename, rfl⟩ := Fact.list.inj hf
      obtain rfl := hr.inj x hx y hy hrename
      exact hg.2
  | _ => cases hf

theorem Fresh.dict_eq (hr : r.Fresh v objects) (hx : x ∈ objects) {entries : List (Item × Item)}
    (h : r.TwinFact v objects (.dict (r.rename x) entries)) : entries = v.dictEntries x := by
  obtain ⟨y, hy, g, hg, hf⟩ := h
  cases g with
  | dict id es =>
      obtain ⟨hrename, rfl⟩ := Fact.dict.inj hf
      obtain rfl := hr.inj x hx y hy hrename
      exact hg.2.1.symm
  | _ => cases hf

theorem says_attr {name : String} {value : Item} (ha : (name, value) ∈ v.attrEntries x) :
    v.Says x (.attr x name value) :=
  ⟨rfl, View.mem_attrEntries.1 ha⟩

theorem Fresh.adds_twin_attrs (hr : r.Fresh v objects) (hx : x ∈ objects)
    (hs : ∀ f, s.Says f → r.TwinFact v objects f) :
    s.Adds ((v.attrEntries x).foldl (fun s a => s.setAttr (r.rename x) a.1 a.2) s) fun f =>
      ∃ a ∈ v.attrEntries x, f = .attr (r.rename x) a.1 a.2 := by
  refine Store.adds_foldl ?_ ?_ hs
  · rintro a ha f rfl
    exact ⟨x, hx, .attr x a.1 a.2, says_attr ha, rfl⟩
  · intro s hs a ha
    refine Store.adds_setAttr fun value hvalue => ?_
    rw [(hr.attr_eq hx (hs _ hvalue)).1]
    exact (View.mem_attrEntries.1 ha).1

theorem Fresh.adds_twin_list (hr : r.Fresh v objects) (hx : x ∈ objects)
    (hs : ∀ f, s.Says f → r.TwinFact v objects f) :
    s.Adds (((v.list? x).map (s.putList (r.rename x))).getD s) fun f =>
      ∃ items, v.list? x = some items ∧ f = .list (r.rename x) items := by
  cases hitems : v.list? x with
  | none => exact Store.Adds.refl (by simp)
  | some items =>
      refine (Store.adds_putList fun l hl => ?_).congr fun f => by simp
      exact (Option.some.inj (hitems.symm.trans (hr.list_eq hx (hs _ hl)))).symm

theorem Fresh.adds_twin_dict (hr : r.Fresh v objects) (hx : x ∈ objects)
    (hs : ∀ f, s.Says f → r.TwinFact v objects f) :
    s.Adds (s.putAll (r.rename x) (v.dictEntries x)) fun f =>
      f = .dict (r.rename x) (v.dictEntries x) ∧ v.dictEntries x ≠ [] :=
  Store.adds_putAll (v.nodup_dictEntries x) fun _ hes => hr.dict_eq hx (hs _ hes)

/-- What an object says is its attributes, its list and its dict. -/
theorem exists_says_under_iff {id : ObjectId} {f : Fact} :
    (∃ g, v.Says x g ∧ f = g.under id) ↔
      (∃ a ∈ v.attrEntries x, f = .attr id a.1 a.2) ∨
      (∃ items, v.list? x = some items ∧ f = .list id items) ∨
      f = .dict id (v.dictEntries x) ∧ v.dictEntries x ≠ [] := by
  constructor
  · rintro ⟨g, hg, rfl⟩
    cases g with
    | attr _ name value => exact Or.inl ⟨(name, value), View.mem_attrEntries.2 hg.2, rfl⟩
    | list _ items => exact Or.inr (Or.inl ⟨items, hg.2, rfl⟩)
    | dict _ entries =>
        obtain ⟨-, rfl, hne⟩ := hg
        exact Or.inr (Or.inr ⟨rfl, hne⟩)
  · rintro (⟨a, ha, rfl⟩ | ⟨items, hitems, rfl⟩ | ⟨rfl, hne⟩)
    · exact ⟨.attr x a.1 a.2, says_attr ha, rfl⟩
    · exact ⟨.list x items, ⟨rfl, hitems⟩, rfl⟩
    · exact ⟨.dict x (v.dictEntries x), ⟨rfl, rfl, hne⟩, rfl⟩

/-- Storing a twin adds what it says. -/
theorem Fresh.adds_twin (hr : r.Fresh v objects) (hx : x ∈ objects)
    (hs : ∀ f, s.Says f → r.TwinFact v objects f) :
    s.Adds (r.twin v s x) fun f => ∃ g, v.Says x g ∧ f = g.under (r.rename x) := by
  -- Each stage adds only what the twin says, so the next one meets facts of twins alone.
  have htrue : ∀ {s t : Store} {F : Fact → Prop}, s.Adds t F →
      (∀ f, s.Says f → r.TwinFact v objects f) →
      (∀ f, F f → ∃ g, v.Says x g ∧ f = g.under (r.rename x)) →
      ∀ f, t.Says f → r.TwinFact v objects f :=
    fun hadds hs hF f hf => ((hadds f).1 hf).elim (hs f) fun hf => ⟨x, hx, hF f hf⟩
  have hattrs := hr.adds_twin_attrs hx hs
  have hs₁ := htrue hattrs hs fun f hf => exists_says_under_iff.2 (Or.inl hf)
  have hlist := hr.adds_twin_list hx hs₁
  have hs₂ := htrue hlist hs₁ fun f hf => exists_says_under_iff.2 (Or.inr (Or.inl hf))
  have hdict := hr.adds_twin_dict hx hs₂
  exact (hattrs.trans (hlist.trans hdict)).congr fun f => exists_says_under_iff.symm

/-- The store of the twins says what they say. -/
theorem Fresh.says_twins_iff (hr : r.Fresh v objects) (f : Fact) :
    (r.twins v objects).Says f ↔ r.TwinFact v objects f := by
  have hadds : (∅ : Store).Adds (r.twins v objects) fun f =>
      ∃ x ∈ objects, ∃ g, v.Says x g ∧ f = g.under (r.rename x) := by
    refine Store.adds_foldl (T := r.TwinFact v objects) ?_ ?_ ?_
    · rintro x hx f ⟨g, hg, rfl⟩
      exact ⟨x, hx, g, hg, rfl⟩
    · exact fun s hs x hx => hr.adds_twin hx hs
    · exact fun f hf => absurd hf (Store.not_says_empty f)
  rw [hadds f]
  exact or_iff_right (Store.not_says_empty f)

/-! ### Reading -/

/-- The objects and their twins. -/
inductive Twin (r : Renaming) (objects : List ObjectId) (x : ObjectId) : ObjectId → Prop
  | fresh : x ∈ objects → Twin r objects x (r.rename x)
  | same : (∀ z ∈ objects, r.rename z ≠ x) → Twin r objects x x

/-- Of an object that is not a twin the store of the twins says nothing. -/
theorem Fresh.not_says_twins (hr : r.Fresh v objects) (hx : ∀ z ∈ objects, r.rename z ≠ x)
    {f : Fact} (hf : f.subject = x) : ¬ (r.twins v objects).Says f := by
  intro hsays
  obtain ⟨z, hz, g, -, rfl⟩ := (hr.says_twins_iff f).1 hsays
  exact hx z hz ((Fact.subject_under (r.rename z) g).symm.trans hf)

/-- The store of the twins says under a fresh id what the view says of the object. -/
theorem Fresh.says_twins (hr : r.Fresh v objects) (hx : x ∈ objects) {g : Fact}
    (hg : v.Says x g) : (r.twins v objects).Says (g.under (r.rename x)) :=
  (hr.says_twins_iff _).2 ⟨x, hx, g, hg, rfl⟩

theorem Fresh.attr_twinned (hr : r.Fresh v objects) (h : r.Twin objects x y) (name : String) :
    (r.twinned v objects).attr y name = v.attr x name := by
  cases h with
  | fresh hx =>
      refine View.attr_cons_eq_of_notMem (hr.fresh x hx) ?_ ?_
      · intro u hu
        exact (hr.attr_eq hx ((hr.says_twins_iff _).1 hu)).1
      · intro hpresent
        exact hr.says_twins (g := .attr x name (v.attr x name)) hx ⟨rfl, rfl, hpresent⟩
  | same hx => exact View.attr_cons_of_not_says fun u => hr.not_says_twins hx rfl

theorem Fresh.list?_twinned (hr : r.Fresh v objects) (h : r.Twin objects x y) :
    (r.twinned v objects).list? y = v.list? x := by
  cases h with
  | fresh hx =>
      refine View.list?_cons_eq_of_notMem (hr.fresh x hx) fun items => ?_
      constructor
      · intro hitems
        exact hr.list_eq hx ((hr.says_twins_iff _).1 hitems)
      · intro hitems
        exact hr.says_twins (g := .list x items) hx ⟨rfl, hitems⟩
  | same hx => exact View.list?_cons_of_not_says fun items => hr.not_says_twins hx rfl

theorem Fresh.dictEntries_twinned (hr : r.Fresh v objects) (h : r.Twin objects x y) :
    (r.twinned v objects).dictEntries y = v.dictEntries x := by
  cases h with
  | fresh hx =>
      refine View.dictEntries_cons_eq_of_notMem (hr.fresh x hx) ?_ ?_
      · intro es hes
        exact hr.dict_eq hx ((hr.says_twins_iff _).1 hes)
      · intro hne
        exact hr.says_twins (g := .dict x (v.dictEntries x)) hx ⟨rfl, rfl, hne⟩
  | same hx => exact View.dictEntries_cons_of_not_says fun es => hr.not_says_twins hx rfl

theorem Twin.of_mem_ids (hr : r.Fresh v objects) (h : x ∈ v.ids) : r.Twin objects x x :=
  .same fun z hz heq => hr.fresh z hz (heq ▸ h)

theorem Twin.of_isSchema (hr : r.Fresh v objects) (h : x.isSchema = true) :
    r.Twin objects x x := by
  refine .same fun z hz heq => ?_
  rw [← heq, hr.isSchema_rename, hr.plain z hz] at h
  cases h

theorem Twin.kind_eq (hr : r.Fresh v objects) (h : r.Twin objects x y) : y.kind = x.kind := by
  cases h with
  | fresh => exact hr.kind x
  | same => rfl

theorem exists_twin (r : Renaming) (objects : List ObjectId) (y : ObjectId) :
    ∃ x, r.Twin objects x y := by
  by_cases hy : ∃ x ∈ objects, r.rename x = y
  · obtain ⟨x, hx, rfl⟩ := hy
    exact ⟨x, .fresh hx⟩
  · exact ⟨y, .same fun z hz heq => hy ⟨z, hz, heq⟩⟩

theorem Fresh.validKeys_twinned (hr : r.Fresh v objects) (hv : v.ValidKeys) :
    (r.twinned v objects).ValidKeys := by
  intro y e he
  obtain ⟨x, htwin⟩ := exists_twin r objects y
  rw [hr.dictEntries_twinned htwin] at he
  exact hv x e he

/-- What a twin refers to is what its object refers to. -/
theorem Fresh.refers_of_twin (hr : r.Fresh v objects) (h : r.Twin objects x y)
    {child : ObjectId} (hrefers : (r.twinned v objects).Refers y child) : v.Refers x child := by
  cases hrefers with
  | attr hc =>
      rw [hr.attr_twinned h] at hc
      exact .attr hc
  | item hi hc =>
      rw [View.list, hr.list?_twinned h] at hi
      exact .item hi hc
  | key he hc =>
      rw [hr.dictEntries_twinned h] at he
      exact .key he hc
  | value he hc =>
      rw [hr.dictEntries_twinned h] at he
      exact .value he hc

/-- Nothing refers to a fresh id. -/
theorem Fresh.mem_ids_of_refers (hr : r.Fresh v objects) {child : ObjectId}
    (h : (r.twinned v objects).Refers y child) : child ∈ v.ids := by
  obtain ⟨x, htwin⟩ := exists_twin r objects y
  exact View.mem_ids_of_refers (hr.refers_of_twin htwin h)

/-! ### Walks from the twins -/

/-- Marks of a walk from the objects and of a walk from their twins. -/
inductive TwinMark (r : Renaming) (objects : List ObjectId) : Mark → Mark → Prop
  | schema {item : Item} {source : Source} :
      TwinMark r objects (.schema item source) (.schema item source)
  | object {x y : ObjectId} {item : Item} {source : Source} : r.Twin objects x y →
      TwinMark r objects (.object x item source) (.object y item source)

open Walk

theorem Fresh.sameSchemas (hr : r.Fresh v objects) :
    SameSchemas (deep v none) (deep (r.twinned v objects) none) where
  shallow := rfl
  declared := by
    intro id source hid
    have hattrs := fun name => hr.attr_twinned (.of_isSchema hr hid) name
    cases source with
    | data => exact View.attrEntries_congr hattrs
    | schema => exact View.attrEntries_congr hattrs

theorem Fresh.alike (hr : r.Fresh v objects) (h : r.Twin objects x y) (item : Item)
    (source : Source) : Alike (deep v none) (deep (r.twinned v objects) none) x y item source where
  kind := h.kind_eq hr
  embedded := fun _ => hr.attr_twinned h _
  attrs := fun _ _ _ _ _ name _ => hr.attr_twinned h name
  list := fun _ _ _ _ _ _ => hr.list?_twinned h
  dict := fun _ _ _ _ _ _ _ => hr.dictEntries_twinned h

theorem Fresh.simulation (hr : r.Fresh v objects) :
    Simulation (deep v none) (deep (r.twinned v objects) none) (r.TwinMark objects) where
  leads := by
    intro m m' n hm hlead
    cases hm with
    | schema =>
        obtain ⟨i, rfl, hlead'⟩ := (hr.sameSchemas.same _ _).leads hlead
        exact ⟨_, hlead', .schema⟩
    | object htwin =>
        rcases (hr.alike htwin _ _).leads (hr.sameSchemas.same _ _) hlead with
          ⟨i, rfl, hlead'⟩ | ⟨schema, rfl, -, -, -, hlead'⟩ | ⟨child, i, rfl, hrefers, -, hlead'⟩
        · exact ⟨_, hlead', .schema⟩
        · exact ⟨_, hlead', .object htwin⟩
        · exact ⟨_, hlead', .object (.of_mem_ids hr (View.mem_ids_of_refers hrefers))⟩
  fails := by
    intro m m' hm hfails
    cases hm with
    | schema => exact (hr.sameSchemas.same _ _).fails hfails
    | object htwin => exact (hr.alike htwin _ _).fails hfails

theorem Fresh.simulation_symm (hr : r.Fresh v objects) :
    Simulation (deep (r.twinned v objects) none) (deep v none)
      fun m m' => r.TwinMark objects m' m where
  leads := by
    intro m m' n hm hlead
    have hs := fun item source => hr.sameSchemas.same item source
    cases hm with
    | schema =>
        obtain ⟨i, rfl, hlead'⟩ := (hs _ _).symm.leads hlead
        exact ⟨_, hlead', .schema⟩
    | object htwin =>
        rcases ((hr.alike htwin _ _).symm (hs _ _)).leads (hs _ _).symm hlead with
          ⟨i, rfl, hlead'⟩ | ⟨schema, rfl, -, -, -, hlead'⟩ | ⟨child, i, rfl, -, hrefers, hlead'⟩
        · exact ⟨_, hlead', .schema⟩
        · exact ⟨_, hlead', .object htwin⟩
        · exact ⟨_, hlead', .object (.of_mem_ids hr (View.mem_ids_of_refers hrefers))⟩
  fails := by
    intro m m' hm hfails
    cases hm with
    | schema => exact (hr.sameSchemas.symm.same _ _).fails hfails
    | object htwin => exact ((hr.alike htwin _ _).symm (hr.sameSchemas.same _ _)).fails hfails

/-- A walk from the twins meets something that stops it if and only if a walk from the
objects does. -/
theorem Fresh.exists_fails_iff (hr : r.Fresh v objects) (schema : Item) :
    (∃ m, (deep (r.twinned v objects) none).Reaches
        ⟨objects.map r.rename, schema, .data⟩ m ∧
        (deep (r.twinned v objects) none).Fails m) ↔
      ∃ m, (deep v none).Reaches ⟨objects, schema, .data⟩ m ∧ (deep v none).Fails m := by
  constructor
  · refine hr.simulation_symm.exists_fails ?_
    intro m hm
    cases m with
    | schema item source => exact ⟨.schema item source, ⟨hm.1, hm.2⟩, .schema⟩
    | object o item source =>
        obtain ⟨ho, hm⟩ := hm
        obtain ⟨x, hx, rfl⟩ := List.mem_map.1 ho
        exact ⟨.object x item source, ⟨hx, hm⟩, .object (.fresh hx)⟩
  · refine hr.simulation.exists_fails ?_
    intro m hm
    cases m with
    | schema item source => exact ⟨.schema item source, ⟨hm.1, hm.2⟩, .schema⟩
    | object x item source =>
        obtain ⟨hx, hm⟩ := hm
        exact ⟨.object (r.rename x) item source, ⟨List.mem_map_of_mem hx, hm⟩, .object (.fresh hx)⟩

end Renaming

end ObjectGraph
