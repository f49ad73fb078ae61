import ObjectGraph.Store.Mention

/-!
# The ids of a store

The ids of a store are those that it has entries for and those that it mentions. A
look-up at any other id finds nothing.
-/

namespace ObjectGraph

namespace Store

/-- The ids with entries, and the ids mentioned in them. -/
def ids (s : Store) : List ObjectId :=
  s.attrs.keys ++ s.lists.keys ++ s.dicts.keys ++ s.contents.filterMap Item.objectId?

variable {s : Store} {id : ObjectId}

theorem attr?_eq_none_of_notMem (h : id ∉ s.ids) (name : String) : s.attr? id name = none := by
  have hkey : id ∉ s.attrs := by
    intro hmem
    exact h (by simp [ids, Std.ExtTreeMap.mem_keys.2 hmem])
  simp [attr?, localAttrs, Std.ExtTreeMap.getElem?_eq_none hkey]

theorem list?_eq_none_of_notMem (h : id ∉ s.ids) : s.list? id = none := by
  have hkey : id ∉ s.lists := by
    intro hmem
    exact h (by simp [ids, Std.ExtTreeMap.mem_keys.2 hmem])
  exact Std.ExtTreeMap.getElem?_eq_none hkey

theorem dict_eq_empty_of_notMem (h : id ∉ s.ids) : s.dict id = .empty := by
  have hkey : id ∉ s.dicts := by
    intro hmem
    exact h (by simp [ids, Std.ExtTreeMap.mem_keys.2 hmem])
  simp [dict, Std.ExtTreeMap.getElem?_eq_none hkey]

end Store

namespace View

/-- The ids of all layers. -/
def ids (v : View) : List ObjectId :=
  v.layers.flatMap Store.ids

variable {v : View} {id : ObjectId}

theorem notMem_ids_iff : id ∉ v.ids ↔ ∀ s ∈ v.layers, id ∉ s.ids := by
  simp [ids]

theorem mem_ids_of_mentioned (h : id ∈ v.mentioned) : id ∈ v.ids := by
  obtain ⟨item, hitem, hid⟩ := List.mem_filterMap.1 h
  obtain ⟨s, hs, hitem⟩ := List.mem_flatMap.1 hitem
  refine List.mem_flatMap.2 ⟨s, hs, ?_⟩
  exact List.mem_append_right _ (List.mem_filterMap.2 ⟨item, hitem, hid⟩)

theorem attr_eq_missing_of_notMem (h : id ∉ v.ids) (name : String) :
    v.attr id name = .missing := by
  have hnone : v.attr? id name = none := List.findSome?_eq_none_iff.2 fun s hs =>
    Store.attr?_eq_none_of_notMem (notMem_ids_iff.1 h s hs) name
  rw [attr, hnone]
  rfl

theorem list?_eq_none_of_notMem (h : id ∉ v.ids) : v.list? id = none :=
  List.findSome?_eq_none_iff.2 fun s hs =>
    Store.list?_eq_none_of_notMem (notMem_ids_iff.1 h s hs)

theorem keys_eq_nil_of_notMem (h : id ∉ v.ids) :
    (v.layers.flatMap fun s => (s.dict id).keys) = [] := by
  rw [List.flatMap_eq_nil_iff]
  intro s hs
  rw [Store.dict_eq_empty_of_notMem (notMem_ids_iff.1 h s hs)]
  rfl

end View

end ObjectGraph
