import ObjectGraph.Proofs.Store.HashedDict
import ObjectGraph.Proofs.Store.Writes
import ObjectGraph.Proofs.Walk.Copy

/-!
# Well-kinded stores

What the tables of a store hold is of the kind that they are for: items belong to lists,
entries to dicts, and no table is kept for nothing. So a store is empty exactly when it
counts nothing, and what it holds can be copied under any id of the same kind.
-/

namespace ObjectGraph

namespace Dict

/-- The changes that set entries one after another. -/
def sets (entries : List (Item × Item)) : List Change :=
  entries.map fun e => .set e.1 e.2

theorem ofChanges_sets (entries : List (Item × Item)) :
    ofChanges (sets entries) = empty.setAll entries := by
  rw [ofChanges, sets, List.foldl_map]
  rfl

theorem keys_ne_nil_iff {d : Dict} : d.keys ≠ [] ↔ d.entries ≠ [] :=
  List.map_eq_nil_iff.not

end Dict

namespace Store

variable {s : Store}

/-- Tables hold what belongs to them, and what they hold can be copied. -/
structure WellKinded (s : Store) : Prop where
  list_kind : ∀ (id : ObjectId) (items : List Item), s.lists[id]? = some items → id.isList = true
  dict_kind : ∀ (id : ObjectId) (d : Dict), s.dicts[id]? = some d →
    id.isDict = true ∧ d.keys ≠ []
  key_valid : ∀ (id : ObjectId) (d : Dict), s.dicts[id]? = some d →
    ∀ key ∈ d.keys, Schema.validateKey key = .ok ()
  /-- The vector of the keys of a dict and its hash table, as its changes have made them. -/
  tables : ∀ (id : ObjectId) (d : Dict), s.dicts[id]? = some d → ∃ changes,
    d = Dict.ofChanges changes ∧ (HashedDict.ofChanges changes).Represents d ∧
      (HashedDict.ofChanges changes).keys.Nodup ∧
        ∀ key, key ∈ (HashedDict.ofChanges changes).keys ↔
          key ∈ (HashedDict.ofChanges changes).values
  attrs_nonempty : ∀ (id : ObjectId) (table : AttrTable), s.attrs[id]? = some table →
    table.isEmpty = false
  isEmpty_iff : s.isEmpty = true ↔ s.tripleCount = 0 ∧ s.listCount = 0 ∧ s.dictCount = 0
  copy_list : ∀ (id : ObjectId) (items : List Item), s.lists[id]? = some items →
    ∀ (target : ObjectId) (t : Store), target.kind = id.kind →
      ∃ r, t.setList target items = .ok r
  copy_dict : ∀ (id : ObjectId) (d : Dict), s.dicts[id]? = some d →
    ∀ (target : ObjectId) (t : Store), target.kind = id.kind →
      ∃ r, d.entries.foldlM (fun r e => r.setInDict target e.1 e.2) t = .ok r

theorem dict_of_getElem? {id : ObjectId} {d : Dict} (h : s.dicts[id]? = some d) :
    s.dict id = d := by
  rw [Store.dict, h, Option.getD_some]

theorem foldr_add_eq_zero_iff {α : Type} (f : α → Nat) (l : List α) :
    l.foldr (fun a n => f a + n) 0 = 0 ↔ ∀ a ∈ l, f a = 0 := by
  induction l with
  | nil => simp
  | cons a l ih => rw [List.foldr_cons, Nat.add_eq_zero_iff, ih, List.forall_mem_cons]

/-- A store without triples has no table of attributes, for no table is empty. -/
theorem Valid.tripleCount_eq_zero_iff (hs : s.Valid) : s.tripleCount = 0 ↔ s.attrs = ∅ := by
  rw [tripleCount, foldr_add_eq_zero_iff]
  constructor
  · intro hsizes
    rw [← Std.ExtTreeMap.toList_eq_nil_iff, List.eq_nil_iff_forall_not_mem]
    rintro ⟨id, table⟩ hmem
    have htable := hs.attrs id table (Std.ExtTreeMap.mem_toList_iff_getElem?_eq_some.1 hmem)
    exact htable (Std.ExtTreeMap.eq_empty_iff_size_eq_zero.2 (hsizes _ hmem))
  · intro hempty
    rw [hempty]
    simp

theorem Valid.isEmpty_iff (hs : s.Valid) :
    s.isEmpty = true ↔ s.tripleCount = 0 ∧ s.listCount = 0 ∧ s.dictCount = 0 := by
  rw [isEmpty, Bool.and_eq_true, Bool.and_eq_true, and_assoc, hs.tripleCount_eq_zero_iff,
    listCount, dictCount]
  simp only [Std.ExtTreeMap.isEmpty_iff, Std.ExtTreeMap.eq_empty_iff_size_eq_zero]

/-- Every entry of a valid dict can be set in any dict. -/
theorem exists_foldlM_setInDict {entries : List (Item × Item)} {target : ObjectId}
    (htarget : target.isDict = true)
    (hkeys : ∀ e ∈ entries, Schema.validateKey e.1 = .ok ()) (t : Store) :
    ∃ r, entries.foldlM (fun r e => r.setInDict target e.1 e.2) t = .ok r :=
  Walk.foldlM_total (fun r e he => ⟨_, setInDict_of_valid r htarget (hkeys e he) e.2⟩) t

/-- The changes of a dict are the writes that enter its keys. -/
theorem Written.exists_changes (hs : s.Written) (id : ObjectId) :
    ∃ changes, s.dict id = Dict.ofChanges changes := by
  obtain ⟨writes, rfl⟩ := written_iff.1 hs
  exact ⟨_, (dict_ofWrites writes id).trans (Dict.ofChanges_sets _).symm⟩

/-- Whatever is built by writes is well-kinded. -/
theorem Written.wellKinded (hs : s.Written) : s.WellKinded := by
  have hvalid := hs.valid
  have hkeys : ∀ (id : ObjectId) (d : Dict), s.dicts[id]? = some d →
      ∀ key ∈ d.keys, Schema.validateKey key = .ok () := fun id d hd key hkey =>
    hvalid.keys id key (dict_of_getElem? hd ▸ hkey)
  constructor
  case list_kind => exact hvalid.lists
  case dict_kind =>
    intro id d hd
    obtain ⟨hkind, hentries, -⟩ := hvalid.dicts id d hd
    exact ⟨hkind, Dict.keys_ne_nil_iff.2 hentries⟩
  case key_valid => exact hkeys
  case tables =>
    intro id d hd
    obtain ⟨changes, hchanges⟩ := hs.exists_changes id
    rw [dict_of_getElem? hd] at hchanges
    obtain ⟨hrep, hnodup⟩ := HashedDict.represents_ofChanges changes
    obtain ⟨hvector, -⟩ := hrep.coherent hnodup
    refine ⟨changes, hchanges, hchanges ▸ hrep, hvector, fun key => ?_⟩
    rw [hrep.mem_values_iff, hrep.keys]
  case attrs_nonempty =>
    intro id table htable
    exact Std.ExtTreeMap.isEmpty_eq_false_iff.2 (hvalid.attrs id table htable)
  case isEmpty_iff => exact hvalid.isEmpty_iff
  case copy_list =>
    intro id items hitems target t hkind
    refine ⟨_, if_pos ?_⟩
    rw [ObjectId.isList, hkind]
    exact hvalid.lists id items hitems
  case copy_dict =>
    intro id d hd target t hkind
    refine exists_foldlM_setInDict ?_ (fun e he => ?_) t
    · rw [ObjectId.isDict, hkind]
      exact (hvalid.dicts id d hd).1
    · exact hkeys id d hd e.1 (List.mem_map_of_mem he)

end Store

end ObjectGraph
