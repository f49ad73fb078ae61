import ObjectGraph.Binary.Format
import ObjectGraph.Value.DType
import ObjectGraph.Value.ObjectId

/-!
# Items

An `Item` is one value of the graph: plain data, the id of an object, a schema
tag, a quoted expression, or nothing. `missing` is an item of its own, so that a
stored absence can be told from no entry at all.

Equality is equality of data. Floating-point items are equal when their bit
patterns are, so items can be the keys of dicts and groups.
-/

namespace ObjectGraph

/-- A string of bytes. -/
abbrev Bytes := List UInt8

/-- A quoted expression, kept as its source text. -/
structure Expr where
  source : String
deriving DecidableEq

/-- A value of the object graph. -/
inductive Item where
  | missing
  | bool (value : Bool)
  | int32 (value : Int32)
  | int64 (value : Int64)
  | float32 (value : Binary.Pattern .single)
  | float64 (value : Binary.Pattern .double)
  | text (value : String)
  | bytes (value : Bytes)
  | objectId (id : ObjectId)
  | dtype (d : DType)
  | expr (e : Expr)
deriving DecidableEq

instance : Inhabited Item := ⟨.missing⟩

namespace Item

/-- The type of a present item. -/
def type? : Item → Option ElementType
  | missing => none
  | bool _ => some .bool
  | int32 _ => some .int32
  | int64 _ => some .int64
  | float32 _ => some .float32
  | float64 _ => some .float64
  | text _ => some .text
  | bytes _ => some .bytes
  | objectId _ => some .itemId
  | dtype _ => some .schema
  | expr _ => some .expr

/-- The schema tag of a present item's type. -/
def dtype? (i : Item) : Option DType :=
  i.type?.map ElementType.dtype

def isMissing (i : Item) : Bool :=
  i.type?.isNone

def isPresent (i : Item) : Bool :=
  i.type?.isSome

def objectId? : Item → Option ObjectId
  | objectId id => some id
  | _ => none

/-- The schema tag that an item is, not the tag of its type. -/
def asDType? : Item → Option DType
  | dtype d => some d
  | _ => none

def bool? : Item → Option Bool
  | bool b => some b
  | _ => none

/-- Either kind of integer as a 64-bit one. -/
def integer? : Item → Option Int64
  | int32 v => some v.toInt64
  | int64 v => some v
  | _ => none

def text? : Item → Option String
  | text s => some s
  | _ => none

/-- Whether the item can be used as a schema: a tag, or the id of a schema
object in either form. -/
def isSchema : Item → Bool
  | dtype _ => true
  | objectId id => id.isSchema
  | _ => false

def isDType (i : Item) (d : DType) : Bool :=
  i.asDType? == some d

/-- The object an item leads to: an object id that is not a schema. -/
def child? : Item → Option ObjectId
  | objectId id => if id.isSchema then none else some id
  | _ => none

theorem isPresent_iff (i : Item) : i.isPresent = true ↔ i ≠ missing := by
  cases i <;> simp [isPresent, type?]

theorem objectId?_eq_some_iff {i : Item} {id : ObjectId} :
    i.objectId? = some id ↔ i = objectId id := by
  cases i <;> simp [objectId?]

theorem isSchema_iff {i : Item} :
    i.isSchema = true ↔ (∃ d, i = dtype d) ∨ ∃ id, i = objectId id ∧ id.isSchema = true := by
  cases i <;> simp [isSchema]

theorem child?_eq_some_iff {i : Item} {id : ObjectId} :
    i.child? = some id ↔ i = objectId id ∧ id.isSchema = false := by
  cases i with
  | objectId x =>
    by_cases h : x.isSchema = true
    · simp only [child?, h, if_true, objectId.injEq, reduceCtorEq, false_iff, not_and]
      rintro rfl
      simp [h]
    · simp only [Bool.not_eq_true] at h
      simp only [child?, h, Bool.false_eq_true, if_false, Option.some.injEq, objectId.injEq]
      constructor
      · rintro rfl
        exact ⟨rfl, h⟩
      · exact And.left
  | _ => simp [child?]

end Item

end ObjectGraph
