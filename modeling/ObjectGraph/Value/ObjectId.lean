import Std.Data.ExtTreeMap

/-!
# Object ids and allocations

Objects are made in allocations: one allocation holds objects of one kind, told
apart by their offset. An id is the allocation number, the offset and a tag. The
tag is the kind of the object, except that a schema id has a second form, the
*NoFollow* form, which marks an edge that a walk over the graph stops at.

Ids are ordered by allocation, then offset, then the flag word of the tag; the
order decides equality, so ids can be the keys of ordered tables. `Allocator`
carries the next allocation number explicitly, and the bits that every number of a
process has in front.
-/

namespace ObjectGraph

/-- What an object is. -/
inductive Kind where
  | entity
  | list
  | dict
  | schema
deriving DecidableEq

/-- What an id says about its object: its kind, or that it is the NoFollow form
of a schema id. -/
inductive Tag where
  | entity
  | list
  | dict
  | schema
  | nofollow
deriving DecidableEq

/-- The tag of a newly allocated object. -/
def Kind.tag : Kind → Tag
  | .entity => .entity
  | .list => .list
  | .dict => .dict
  | .schema => .schema

namespace Tag

/-- The kind of the object, a NoFollow id standing for a schema. -/
def kind : Tag → Kind
  | entity => .entity
  | list => .list
  | dict => .dict
  | schema => .schema
  | nofollow => .schema

/-- One bit each for list, dict, schema and NoFollow. -/
def flags : Tag → UInt32
  | entity => 0
  | list => 1
  | dict => 2
  | schema => 4
  | nofollow => 12

theorem flags_inj {a b : Tag} : a.flags = b.flags ↔ a = b := by
  cases a <;> cases b <;> decide

end Tag

theorem Kind.kind_tag (k : Kind) : k.tag.kind = k := by
  cases k <;> rfl

theorem Kind.tag_inj {a b : Kind} : a.tag = b.tag ↔ a = b := by
  cases a <;> cases b <;> decide

/-- A range of objects of one kind. -/
structure AllocationId where
  number : UInt64
  kind : Kind
deriving DecidableEq

/-- The identity of an object. -/
structure ObjectId where
  allocation : UInt64
  offset : UInt32
  tag : Tag
deriving DecidableEq

/-- The object at `offset` of an allocation. -/
def AllocationId.objectId (a : AllocationId) (offset : UInt32) : ObjectId :=
  ⟨a.number, offset, a.kind.tag⟩

instance : Ord AllocationId where
  compare := compareLex (compareOn AllocationId.number)
    (compareOn fun a => a.kind.tag.flags)

instance : Ord ObjectId where
  compare := compareLex (compareOn ObjectId.allocation)
    (compareLex (compareOn ObjectId.offset) (compareOn fun a => a.tag.flags))

instance : Std.TransOrd AllocationId :=
  inferInstanceAs (Std.TransCmp (compareLex (compareOn AllocationId.number)
    (compareOn fun a : AllocationId => a.kind.tag.flags)))

instance : Std.TransOrd ObjectId :=
  inferInstanceAs (Std.TransCmp (compareLex (compareOn ObjectId.allocation)
    (compareLex (compareOn ObjectId.offset)
      (compareOn fun a : ObjectId => a.tag.flags))))

instance : Std.LawfulEqOrd AllocationId where
  eq_of_compare {a b} h := by
    obtain ⟨hn, hk⟩ := Ordering.then_eq_eq.1 h
    have hn : a.number = b.number := Std.LawfulEqOrd.eq_of_compare hn
    have hk : a.kind.tag.flags = b.kind.tag.flags := Std.LawfulEqOrd.eq_of_compare hk
    cases a
    cases b
    simp_all [Tag.flags_inj, Kind.tag_inj]

instance : Std.LawfulEqOrd ObjectId where
  eq_of_compare {a b} h := by
    obtain ⟨ha, h⟩ := Ordering.then_eq_eq.1 h
    obtain ⟨ho, ht⟩ := Ordering.then_eq_eq.1 h
    have ha : a.allocation = b.allocation := Std.LawfulEqOrd.eq_of_compare ha
    have ho : a.offset = b.offset := Std.LawfulEqOrd.eq_of_compare ho
    have ht : a.tag.flags = b.tag.flags := Std.LawfulEqOrd.eq_of_compare ht
    cases a
    cases b
    simp_all [Tag.flags_inj]

namespace ObjectId

/-- The allocation an object belongs to. The NoFollow form of a schema id
belongs to the allocation of the schema. -/
def allocationId (id : ObjectId) : AllocationId :=
  ⟨id.allocation, id.tag.kind⟩

def kind (id : ObjectId) : Kind :=
  id.tag.kind

def isList (id : ObjectId) : Bool :=
  id.kind = .list

def isDict (id : ObjectId) : Bool :=
  id.kind = .dict

def isSchema (id : ObjectId) : Bool :=
  id.kind = .schema

def isEntity (id : ObjectId) : Bool :=
  id.kind = .entity

def isNoFollow (id : ObjectId) : Bool :=
  id.tag = .nofollow

/-- The NoFollow form of the tag `OBJECT`, which has no allocation of its own. -/
def noFollowObject : ObjectId :=
  ⟨0, 0, .nofollow⟩

/-- The NoFollow form of a schema id. -/
def withNoFollow (id : ObjectId) : ObjectId :=
  { id with tag := .nofollow }

/-- The schema id of which `id` is the NoFollow form. -/
def withoutNoFollow (id : ObjectId) : ObjectId :=
  { id with tag := .schema }

theorem isSchema_iff (id : ObjectId) :
    id.isSchema = true ↔ id.tag = .schema ∨ id.tag = .nofollow := by
  rcases id with ⟨a, o, t⟩
  cases t <;> simp [isSchema, kind, Tag.kind]

theorem isSchema_of_isNoFollow {id : ObjectId} (h : id.isNoFollow = true) :
    id.isSchema = true := by
  rw [isSchema_iff]
  exact Or.inr (by simpa [isNoFollow] using h)

end ObjectId

namespace AllocationId

/-- Whether the objects of the allocation are schemas. -/
def isSchemas (a : AllocationId) : Bool :=
  a.kind = .schema

end AllocationId

/-- The source of allocation numbers. Numbers are used up and never given back. -/
structure Allocator where
  next : UInt64 := 1
  /-- The bits above those of a number tell processes apart. -/
  process : UInt64 := 0
deriving DecidableEq

namespace Allocator

/-- Allocation numbers have 48 bits. -/
def numberMask : UInt64 :=
  0xFFFFFFFFFFFF

/-- The number of the next allocation, below the bits of the process. -/
def number (a : Allocator) : UInt64 :=
  (a.process &&& ~~~numberMask) ||| (a.next &&& numberMask)

/-- The numbers that remain after some allocations. -/
def skip (a : Allocator) (count : Nat) : Allocator :=
  { a with next := a.next + .ofNat count }

/-- A fresh allocation of the given kind, and the numbers that remain. -/
def allocate (a : Allocator) (kind : Kind) : AllocationId × Allocator :=
  (⟨a.number, kind⟩, a.skip 1)

end Allocator

end ObjectGraph
