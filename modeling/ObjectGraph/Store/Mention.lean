import ObjectGraph.Store.View

/-!
# The ids a store mentions

A store mentions the ids that stand in it as values of attributes, as items of
lists and as keys and values of dicts. Whatever is read through a view is
mentioned by one of its layers, so a walk that follows ids stays among finitely
many of them.
-/

namespace ObjectGraph

namespace Store

/-- Every item that stands in a store. -/
def contents (s : Store) : List Item :=
  (s.attrs.toList.flatMap fun o => o.2.toList.map Prod.snd) ++
    (s.lists.toList.flatMap Prod.snd) ++
    (s.dicts.toList.flatMap fun d => d.2.entries.flatMap fun e => [e.1, e.2])

theorem attr_mem_contents {s : Store} {id : ObjectId} {name : String} {item : Item}
    (h : s.attr? id name = some item) : item ∈ s.contents := by
  unfold attr? localAttrs at h
  cases ho : s.attrs[id]? with
  | none => simp [ho] at h
  | some table =>
    simp only [ho, Option.getD_some] at h
    refine List.mem_append_left _ (List.mem_append_left _ ?_)
    refine List.mem_flatMap.2 ⟨(id, table), ?_, ?_⟩
    · exact Std.ExtTreeMap.mem_toList_iff_getElem?_eq_some.2 ho
    · exact List.mem_map.2 ⟨(name, item), Std.ExtTreeMap.mem_toList_iff_getElem?_eq_some.2 h, rfl⟩

theorem list_mem_contents {s : Store} {id : ObjectId} {items : List Item} {item : Item}
    (h : s.list? id = some items) (hi : item ∈ items) : item ∈ s.contents := by
  refine List.mem_append_left _ (List.mem_append_right _ (List.mem_flatMap.2 ⟨(id, items), ?_, hi⟩))
  exact Std.ExtTreeMap.mem_toList_iff_getElem?_eq_some.2 h

theorem entry_mem_contents {s : Store} {id : ObjectId} {entry : Item × Item}
    (h : entry ∈ (s.dict id).entries) : entry.1 ∈ s.contents ∧ entry.2 ∈ s.contents := by
  unfold dict at h
  cases hd : s.dicts[id]? with
  | none => simp [hd, Dict.empty] at h
  | some d =>
    simp only [hd, Option.getD_some] at h
    have hmem : (id, d) ∈ s.dicts.toList := Std.ExtTreeMap.mem_toList_iff_getElem?_eq_some.2 hd
    constructor <;>
    exact List.mem_append_right _ (List.mem_flatMap.2 ⟨(id, d), hmem,
      List.mem_flatMap.2 ⟨entry, h, by simp⟩⟩)

theorem key_mem_contents {s : Store} {id : ObjectId} {key : Item}
    (h : key ∈ (s.dict id).keys) : key ∈ s.contents := by
  obtain ⟨entry, hentry, rfl⟩ := List.mem_map.1 h
  exact (entry_mem_contents hentry).1

theorem value_mem_contents {s : Store} {id : ObjectId} {key value : Item}
    (h : s.dictEntry? id key = some value) : value ∈ s.contents := by
  unfold dictEntry? Dict.get? at h
  obtain ⟨entry, hfind, rfl⟩ := Option.map_eq_some_iff.1 h
  exact (entry_mem_contents (List.mem_of_find?_eq_some hfind)).2

end Store

namespace View

/-- Every item that stands in a layer. -/
def contents (v : View) : List Item :=
  v.layers.flatMap Store.contents

/-- The ids that the layers mention. -/
def mentioned (v : View) : List ObjectId :=
  v.contents.filterMap Item.objectId?

theorem mem_mentioned {v : View} {id : ObjectId} (h : .objectId id ∈ v.contents) :
    id ∈ v.mentioned :=
  List.mem_filterMap.2 ⟨_, h, rfl⟩

theorem mem_contents_of_findSome? {v : View} {f : Store → Option Item} {item : Item}
    (hf : ∀ s item, f s = some item → item ∈ s.contents)
    (h : v.layers.findSome? f = some item) : item ∈ v.contents := by
  obtain ⟨s, hs, hfs⟩ := List.exists_of_findSome?_eq_some h
  exact List.mem_flatMap.2 ⟨s, hs, hf s item hfs⟩

theorem attr_mem_mentioned {v : View} {id x : ObjectId} {name : String}
    (h : v.attr id name = .objectId x) : x ∈ v.mentioned := by
  refine mem_mentioned (mem_contents_of_findSome? (f := fun s => s.attr? id name)
    (fun s item hs => Store.attr_mem_contents hs) ?_)
  unfold attr attr? at h
  cases hv : v.layers.findSome? fun s => s.attr? id name with
  | none => simp [hv] at h
  | some item => simpa [hv] using h

theorem list_mem_mentioned {v : View} {id x : ObjectId}
    (h : .objectId x ∈ v.list id) : x ∈ v.mentioned := by
  unfold list list? at h
  cases hv : v.layers.findSome? fun s => s.list? id with
  | none => simp [hv] at h
  | some items =>
    simp only [hv, Option.getD_some] at h
    obtain ⟨s, hs, hl⟩ := List.exists_of_findSome?_eq_some hv
    exact mem_mentioned (List.mem_flatMap.2 ⟨s, hs, Store.list_mem_contents hl h⟩)

theorem key_mem_mentioned {v : View} {id x : ObjectId} {value : Item}
    (h : (.objectId x, value) ∈ v.dictEntries id) : x ∈ v.mentioned := by
  obtain ⟨key, hkey, heq⟩ := List.mem_map.1 h
  obtain rfl : key = .objectId x := congrArg Prod.fst heq
  have hkey := List.mem_eraseDups.1 (List.mem_filter.1 hkey).1
  obtain ⟨s, hs, hk⟩ := List.mem_flatMap.1 hkey
  exact mem_mentioned (List.mem_flatMap.2 ⟨s, hs, Store.key_mem_contents hk⟩)

theorem value_mem_mentioned {v : View} {id x : ObjectId} {key : Item}
    (h : (key, .objectId x) ∈ v.dictEntries id) : x ∈ v.mentioned := by
  obtain ⟨k, hkey, heq⟩ := List.mem_map.1 h
  have hvalue : v.dictValue id k = .objectId x := congrArg Prod.snd heq
  refine mem_mentioned (mem_contents_of_findSome? (f := fun s => s.dictEntry? id k)
    (fun s item hs => Store.value_mem_contents hs) ?_)
  unfold dictValue dictEntry? at hvalue
  cases hv : v.layers.findSome? fun s => s.dictEntry? id k with
  | none => simp [hv] at hvalue
  | some item => simpa [hv] using hvalue

end View

end ObjectGraph
