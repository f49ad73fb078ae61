import ObjectGraph.Column.Basic

/-!
# Arrow arrays

Columns of plain data correspond to Arrow arrays. An array of one of the eight
types below is the list of its slots, an empty slot being a null; a null array
has a length only. Ids, tags, expressions and mixed columns have no array, and
arrays of other types have no column.

How an array holds its slots is left to a library, `ArrowLibrary`; an `ArrowArray` is
what an array shows.
-/

namespace ObjectGraph

/-- An array that columns convert to and from. -/
inductive ArrowArray where
  | null (length : Nat)
  | boolean (slots : List (Option Bool))
  | int32 (slots : List (Option Int32))
  | int64 (slots : List (Option Int64))
  | float32 (slots : List (Option (Binary.Pattern .single)))
  | float64 (slots : List (Option (Binary.Pattern .double)))
  | utf8 (slots : List (Option String))
  | binary (slots : List (Option Bytes))
  /-- An array of a type that no column has. -/
  | other (typeName : String)

/-- Why a column or an array has no counterpart. -/
inductive ArrowError where
  | mixedColumn
  | columnType (d : DType)
  | arrayType (typeName : String)
deriving DecidableEq

namespace ArrowError

def message : ArrowError → String
  | mixedColumn => "Unsupported type: mixed dtype slices have no arrow representation"
  | columnType d => "Unsupported type: " ++ d.name
  | arrayType typeName => "Unsupported type: Cannot convert array type: " ++ typeName

end ArrowError

namespace ArrowArray

def typeName : ArrowArray → String
  | null _ => "Null"
  | boolean _ => "Boolean"
  | int32 _ => "Int32"
  | int64 _ => "Int64"
  | float32 _ => "Float32"
  | float64 _ => "Float64"
  | utf8 _ => "Utf8"
  | binary _ => "Binary"
  | other typeName => typeName

/-- The positions of the empty slots. -/
def emptySlots {α : Type} (slots : List (Option α)) : List Nat :=
  (List.range slots.length).filter fun i => (slots[i]?.join).isNone

def length : ArrowArray → Nat
  | null n => n
  | boolean slots => slots.length
  | int32 slots => slots.length
  | int64 slots => slots.length
  | float32 slots => slots.length
  | float64 slots => slots.length
  | utf8 slots => slots.length
  | binary slots => slots.length
  | other _ => 0

/-- The positions that the validity of an array marks as null. A null array has
no validity. -/
def nulls : ArrowArray → List Nat
  | null _ => []
  | boolean slots => emptySlots slots
  | int32 slots => emptySlots slots
  | int64 slots => emptySlots slots
  | float32 slots => emptySlots slots
  | float64 slots => emptySlots slots
  | utf8 slots => emptySlots slots
  | binary slots => emptySlots slots
  | other _ => []

end ArrowArray

namespace Column

/-- The column with the slots of an array. -/
def ofArrow : ArrowArray → Except ArrowError Column
  | .null n => .ok (empty n)
  | .boolean slots => .ok (typed .bool slots)
  | .int32 slots => .ok (typed .int32 slots)
  | .int64 slots => .ok (typed .int64 slots)
  | .float32 slots => .ok (typed .float32 slots)
  | .float64 slots => .ok (typed .float64 slots)
  | .utf8 slots => .ok (typed .text slots)
  | .binary slots => .ok (typed .bytes slots)
  | .other typeName => .error (.arrayType typeName)

/-- The array with the cells of a column. -/
def toArrow : Column → Except ArrowError ArrowArray
  | empty n => .ok (.null n)
  | typed .bool cells => .ok (.boolean cells)
  | typed .int32 cells => .ok (.int32 cells)
  | typed .int64 cells => .ok (.int64 cells)
  | typed .float32 cells => .ok (.float32 cells)
  | typed .float64 cells => .ok (.float64 cells)
  | typed .text cells => .ok (.utf8 cells)
  | typed .bytes cells => .ok (.binary cells)
  | typed t _ => .error (.columnType t.dtype)
  | mixed _ => .error .mixedColumn

end Column

/-- A library of arrays. -/
structure ArrowLibrary where
  Carrier : Type
  /-- The array that is made of slots. -/
  collect : ArrowArray → Carrier
  /-- The slots that an array shows. -/
  slots : Carrier → ArrowArray

namespace ArrowLibrary

/-- The array with the cells of a column. -/
def ofColumn (A : ArrowLibrary) (c : Column) : Except ArrowError A.Carrier :=
  c.toArrow.map A.collect

/-- The column with the slots of an array. -/
def toColumn (A : ArrowLibrary) (array : A.Carrier) : Except ArrowError Column :=
  Column.ofArrow (A.slots array)

/-- Arrays that are their slots. -/
def slotwise : ArrowLibrary where
  Carrier := ArrowArray
  collect := id
  slots := id

end ArrowLibrary

end ObjectGraph
