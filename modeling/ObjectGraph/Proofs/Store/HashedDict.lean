import Mathlib.Data.List.Induction
import Std.Data.ExtHashMap
import ObjectGraph.Proofs.Store.Valid

/-!
# Dicts with a hash table

A dict can be kept in two tables: a hash table of the values, and the vector of the
keys in the order in which they were first set. No operation touches only one of
them by mistake: under any changes the vector holds exactly the keys of the hash
table, each once, and both together say what the list of entries says.
-/

namespace ObjectGraph

instance (f : Binary.Format) : Hashable (Binary.Pattern f) :=
  ⟨fun v => hash v.bits.toNat⟩

deriving instance Hashable for DType, Tag, ObjectId, Expr, Item

namespace Dict

/-- A change of the contents of one dict. -/
inductive Change where
  | set (key value : Item)
  | clear

/-- The dict after a change. -/
def change (d : Dict) : Change → Dict
  | .set key value => d.set key value
  | .clear => d.clear

/-- The dict that changes make from the empty one. -/
def ofChanges (changes : List Change) : Dict :=
  changes.foldl change empty

theorem mem_keys_iff {d : Dict} {key : Item} : key ∈ d.keys ↔ (d.get? key).isSome = true := by
  simp [keys, get?]

theorem get?_clear (d : Dict) (key : Item) :
    d.clear.get? key = (d.get? key).map fun _ => .missing := by
  obtain ⟨entries⟩ := d
  simp only [clear, get?, List.find?_map, Option.map_map]
  rfl

theorem valid_change {d : Dict} (hd : d.Valid) (c : Change) : (d.change c).Valid := by
  cases c with
  | set key value => exact valid_set hd key value
  | clear => rwa [change, Valid, keys_clear]

end Dict

/-- The values of a dict by key, and its keys in the order in which they were set. -/
structure HashedDict where
  values : Std.ExtHashMap Item Item
  keys : List Item

namespace HashedDict

def empty : HashedDict :=
  ⟨∅, []⟩

def get? (d : HashedDict) (key : Item) : Option Item :=
  d.values[key]?

/-- A key that has a value keeps its place. -/
def set (d : HashedDict) (key value : Item) : HashedDict :=
  ⟨d.values.insert key value, if key ∈ d.values then d.keys else d.keys ++ [key]⟩

/-- Sets every value to missing. -/
def clear (d : HashedDict) : HashedDict :=
  { d with values := d.values.map fun _ _ => .missing }

def change (d : HashedDict) : Dict.Change → HashedDict
  | .set key value => d.set key value
  | .clear => d.clear

/-- The tables that changes make from empty ones. -/
def ofChanges (changes : List Dict.Change) : HashedDict :=
  changes.foldl change empty

/-- The tables say what the list of entries says. -/
structure Represents (h : HashedDict) (d : Dict) : Prop where
  keys : h.keys = d.keys
  get? : ∀ key, h.get? key = d.get? key

variable {h : HashedDict} {d : Dict}

theorem Represents.mem_values_iff (hd : h.Represents d) {key : Item} :
    key ∈ h.values ↔ key ∈ d.keys := by
  rw [Dict.mem_keys_iff, ← hd.get? key, HashedDict.get?, Std.ExtHashMap.mem_iff_isSome_getElem?]

theorem Represents.change (hd : h.Represents d) (c : Dict.Change) :
    (h.change c).Represents (d.change c) := by
  cases c with
  | set key value =>
      constructor
      · simp only [HashedDict.change, HashedDict.set, Dict.change, Dict.keys_set,
          hd.mem_values_iff, hd.keys]
      · intro other
        have hother := hd.get? other
        simp only [HashedDict.get?] at hother
        simp only [HashedDict.change, HashedDict.set, HashedDict.get?, Dict.change, Dict.get?_set,
          Std.ExtHashMap.getElem?_insert, beq_iff_eq, hother]
  | clear =>
      constructor
      · simp only [HashedDict.change, HashedDict.clear, Dict.change, Dict.keys_clear, hd.keys]
      · intro other
        have hother := hd.get? other
        simp only [HashedDict.get?] at hother
        simp only [HashedDict.change, HashedDict.clear, HashedDict.get?, Dict.change,
          Dict.get?_clear, Std.ExtHashMap.getElem?_map, hother]

theorem represents_ofChanges (changes : List Dict.Change) :
    (ofChanges changes).Represents (Dict.ofChanges changes) ∧ (Dict.ofChanges changes).Valid := by
  induction changes using List.reverseRecOn with
  | nil => exact ⟨⟨rfl, fun key => Std.ExtHashMap.getElem?_empty⟩, List.nodup_nil⟩
  | append_singleton changes c ih =>
      rw [ofChanges, Dict.ofChanges, List.foldl_concat, List.foldl_concat]
      exact ⟨ih.1.change c, Dict.valid_change ih.2 c⟩

/-- The vector of the keys holds each key of the table once. -/
theorem Represents.coherent (hd : h.Represents d) (hvalid : d.Valid) :
    h.keys.Nodup ∧ ∀ key, key ∈ h.keys ↔ (h.get? key).isSome = true := by
  refine ⟨hd.keys ▸ hvalid, fun key => ?_⟩
  rw [hd.keys, hd.get? key, Dict.mem_keys_iff]

end HashedDict

end ObjectGraph
