import ObjectGraph.Value.Item

/-!
# Cells of a column

A column of one type holds plain values instead of items. `ElementType.Value`
is the type of these values, and `Cell` is what an algorithm over columns needs
to know of them: the grouping key of a value, the order of two values where
there is one, and the item a value stands for. Items are cells too, so one
algorithm serves columns of one type and columns of mixed types.
-/

namespace ObjectGraph

/-- The values of a column type. -/
abbrev ElementType.Value : ElementType → Type
  | .bool => Bool
  | .int32 => Int32
  | .int64 => Int64
  | .float32 => Binary.Pattern .single
  | .float64 => Binary.Pattern .double
  | .text => String
  | .bytes => Bytes
  | .itemId => ObjectId
  | .schema => DType
  | .expr => Expr

/-- Values that can stand in a column. Two values belong to one group when their
keys are equal; `sortCmp` is the ascending order, for types that have one. -/
class Cell (α : Type) where
  key : α → α
  sortCmp : α → α → Option Ordering
  item : α → Item

instance : Cell Bool where
  key b := b
  sortCmp a b := some (compare a b)
  item := .bool

instance : Cell Int32 where
  key v := v
  sortCmp a b := some (compare a b)
  item := .int32

instance : Cell Int64 where
  key v := v
  sortCmp a b := some (compare a b)
  item := .int64

instance : Cell (Binary.Pattern .single) where
  key := Binary.Pattern.plusZero
  sortCmp a b := some (a.totalOrder b)
  item := .float32

instance : Cell (Binary.Pattern .double) where
  key := Binary.Pattern.plusZero
  sortCmp a b := some (a.totalOrder b)
  item := .float64

instance : Cell String where
  key s := s
  sortCmp a b := some (compare a b)
  item := .text

instance : Cell Bytes where
  key b := b
  sortCmp a b := some (compare a b)
  item := .bytes

instance : Cell ObjectId where
  key id := id
  sortCmp _ _ := none
  item := .objectId

instance : Cell DType where
  key d := d
  sortCmp _ _ := none
  item := .dtype

instance : Cell Expr where
  key e := e
  sortCmp _ _ := none
  item := .expr

namespace Item

/-- The grouping key of an item: both zeros of a float type are one key. -/
def key : Item → Item
  | float32 v => float32 v.plusZero
  | float64 v => float64 v.plusZero
  | i => i

/-- The order of two items of one sortable type. Texts and byte strings are
ordered as byte strings, floating-point values by the total order of their
format. Items of different types, missing items and items of the other types
have no order. -/
def sortCmp : Item → Item → Option Ordering
  | bool a, bool b => some (compare a b)
  | int32 a, int32 b => some (compare a b)
  | int64 a, int64 b => some (compare a b)
  | float32 a, float32 b => some (a.totalOrder b)
  | float64 a, float64 b => some (a.totalOrder b)
  | text a, text b => some (compare a b)
  | bytes a, bytes b => some (compare a b)
  | _, _ => none

end Item

instance : Cell Item where
  key := Item.key
  sortCmp := Item.sortCmp
  item i := i

namespace ElementType

instance (t : ElementType) : DecidableEq t.Value :=
  match t with
  | .bool => inferInstanceAs (DecidableEq Bool)
  | .int32 => inferInstanceAs (DecidableEq Int32)
  | .int64 => inferInstanceAs (DecidableEq Int64)
  | .float32 => inferInstanceAs (DecidableEq (Binary.Pattern .single))
  | .float64 => inferInstanceAs (DecidableEq (Binary.Pattern .double))
  | .text => inferInstanceAs (DecidableEq String)
  | .bytes => inferInstanceAs (DecidableEq Bytes)
  | .itemId => inferInstanceAs (DecidableEq ObjectId)
  | .schema => inferInstanceAs (DecidableEq DType)
  | .expr => inferInstanceAs (DecidableEq Expr)

instance (t : ElementType) : Cell t.Value :=
  match t with
  | .bool => inferInstanceAs (Cell Bool)
  | .int32 => inferInstanceAs (Cell Int32)
  | .int64 => inferInstanceAs (Cell Int64)
  | .float32 => inferInstanceAs (Cell (Binary.Pattern .single))
  | .float64 => inferInstanceAs (Cell (Binary.Pattern .double))
  | .text => inferInstanceAs (Cell String)
  | .bytes => inferInstanceAs (Cell Bytes)
  | .itemId => inferInstanceAs (Cell ObjectId)
  | .schema => inferInstanceAs (Cell DType)
  | .expr => inferInstanceAs (Cell Expr)

/-- The value of an item of type `t`; an item of another type has none. -/
def value? : (t : ElementType) → Item → Option t.Value
  | .bool, .bool v => some v
  | .int32, .int32 v => some v
  | .int64, .int64 v => some v
  | .float32, .float32 v => some v
  | .float64, .float64 v => some v
  | .text, .text v => some v
  | .bytes, .bytes v => some v
  | .itemId, .objectId v => some v
  | .schema, .dtype v => some v
  | .expr, .expr v => some v
  | _, _ => none

theorem type?_item (t : ElementType) (v : t.Value) : (Cell.item v).type? = some t := by
  cases t <;> rfl

theorem value?_item (t : ElementType) (v : t.Value) : t.value? (Cell.item v) = some v := by
  cases t <;> rfl

/-- The key of a value is the key of its item. -/
theorem item_key (t : ElementType) (v : t.Value) :
    Cell.item (Cell.key v) = Cell.key (Cell.item v) := by
  cases t <;> rfl

/-- Values of one type are ordered as their items are. -/
theorem sortCmp_item (t : ElementType) (a b : t.Value) :
    Item.sortCmp (Cell.item a) (Cell.item b) = Cell.sortCmp a b := by
  cases t <;> rfl

end ElementType

end ObjectGraph
