import ObjectGraph.Value.Item

/-!
# Dict contents

A dict is the list of its entries in the order in which their keys were first
set. Setting a known key changes its entry in place, and clearing a dict leaves
every key behind with a missing value, a *tombstone*: it is an entry, so it hides
what other stores know about the key.
-/

namespace ObjectGraph

/-- Keys and values in the order in which the keys were first set. -/
structure Dict where
  entries : List (Item × Item)
deriving DecidableEq

namespace Dict

def empty : Dict :=
  ⟨[]⟩

/-- The keys, tombstones included. -/
def keys (d : Dict) : List Item :=
  d.entries.map Prod.fst

/-- The value of a key, missing under a tombstone. -/
def get? (d : Dict) (key : Item) : Option Item :=
  (d.entries.find? fun e => e.1 == key).map Prod.snd

/-- Changes the entry of a key in place, or adds it at the end. -/
def setEntry (key value : Item) : List (Item × Item) → List (Item × Item)
  | [] => [(key, value)]
  | e :: entries => if e.1 = key then (key, value) :: entries else e :: setEntry key value entries

def set (d : Dict) (key value : Item) : Dict :=
  ⟨setEntry key value d.entries⟩

/-- Leaves a tombstone under every key. -/
def clear (d : Dict) : Dict :=
  ⟨d.entries.map fun e => (e.1, .missing)⟩

/-- No key has two entries. -/
def Valid (d : Dict) : Prop :=
  d.keys.Nodup

@[simp] theorem keys_empty : empty.keys = [] := rfl

@[simp] theorem get?_empty (key : Item) : empty.get? key = none := rfl

@[simp] theorem keys_clear (d : Dict) : d.clear.keys = d.keys := by
  simp [clear, keys]

/-- A key keeps its place; a new key comes last. -/
theorem keys_set (d : Dict) (key value : Item) :
    (d.set key value).keys = if key ∈ d.keys then d.keys else d.keys ++ [key] := by
  obtain ⟨entries⟩ := d
  simp only [set, keys]
  induction entries with
  | nil => simp [setEntry]
  | cons e entries ih =>
    by_cases h : e.1 = key
    · simp [setEntry, h]
    · simp only [setEntry, h, if_false, List.map_cons, ih, List.mem_cons]
      by_cases hk : key ∈ entries.map Prod.fst <;> simp [hk, Ne.symm h]

theorem get?_set (d : Dict) (key value other : Item) :
    (d.set key value).get? other = if key = other then some value else d.get? other := by
  obtain ⟨entries⟩ := d
  simp only [set, get?]
  induction entries with
  | nil => by_cases h : key = other <;> simp [setEntry, h]
  | cons e entries ih =>
    by_cases h : e.1 = key
    · subst h
      by_cases ho : e.1 = other <;> simp [setEntry, ho]
    · by_cases ho : e.1 = other
      · have hne : key ≠ other := fun hk => h (ho.trans hk.symm)
        simp [setEntry, ho, hne, Ne.symm hne]
      · simp only [setEntry, h, if_false, List.find?_cons]
        rw [show (e.1 == other) = false from by simpa using ho]
        exact ih

end Dict

end ObjectGraph
