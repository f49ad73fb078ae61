import ObjectGraph.Schema

/-!
# Layouts of schema objects

The attributes a schema object declares decide what its objects hold: the items
of a list, the entries of a dict, or attributes. A schema that declares a
container attribute may not declare anything that does not belong to it.
-/

namespace ObjectGraph

/-- What the objects of a schema hold, with the schemas of what they hold. -/
inductive Layout where
  | entity (attrs : List (String × Item))
  | list (items : Item)
  | dict (keys values : Item)
deriving DecidableEq

namespace Layout

open Schema

/-- The layout of a schema object with the given attributes. -/
def ofAttrs (schema : ObjectId) (attrs : List (String × Item)) : Except Error Layout :=
  match attrs.lookup itemsAttr with
  | some items =>
    if attrs.length = 1 then .ok (.list items)
    else .error (.listSchemaAttrs schema (attrs.map Prod.fst))
  | none =>
    match attrs.lookup keysAttr, attrs.lookup valuesAttr with
    | none, none => .ok (.entity attrs)
    | some keys, some values =>
      if attrs.length = 2 then .ok (.dict keys values)
      else .error (.dictSchemaAttrs schema (attrs.map Prod.fst))
    | _, _ => .error (.dictSchemaAttrs schema (attrs.map Prod.fst))

/-- The schemas that a layout refers to. -/
def schemas : Layout → List Item
  | entity attrs => attrs.map Prod.snd
  | list items => [items]
  | dict keys values => [keys, values]

theorem mem_of_lookup {attrs : List (String × Item)} {name : String} {item : Item}
    (h : attrs.lookup name = some item) : (name, item) ∈ attrs := by
  induction attrs with
  | nil => simp at h
  | cons a attrs ih =>
    obtain ⟨n, i⟩ := a
    rw [List.lookup_cons] at h
    split at h
    · rename_i hn
      simp only [beq_iff_eq] at hn
      simp_all
    · exact List.mem_cons_of_mem _ (ih h)

/-- A layout refers to declared schemas only. -/
theorem mem_attrs_of_mem_schemas {schema : ObjectId} {attrs : List (String × Item)}
    {layout : Layout} (h : ofAttrs schema attrs = .ok layout) {item : Item}
    (hi : item ∈ layout.schemas) : item ∈ attrs.map Prod.snd := by
  have found : ∀ {name : String} {i : Item}, attrs.lookup name = some i →
      i ∈ attrs.map Prod.snd := fun hl => List.mem_map.2 ⟨_, mem_of_lookup hl, rfl⟩
  unfold ofAttrs at h
  split at h
  · rename_i items hl
    split at h
    · cases h
      simp only [schemas, List.mem_singleton] at hi
      exact hi ▸ found hl
    · cases h
  · split at h
    · cases h
      exact hi
    · rename_i keys values hk hv
      split at h
      · cases h
        simp only [schemas, List.mem_cons, List.not_mem_nil, or_false] at hi
        rcases hi with rfl | rfl
        · exact found hk
        · exact found hv
      · cases h
    · cases h

end Layout

end ObjectGraph
