/-!
# Data types

`DType` lists the tags a schema can carry. Ten of them are also the types a
value can have, and these form `ElementType`, so a column of values never has to
say what it does for `NONE`, `OBJECT` or `ANY`. The embedding of element types
into tags is `ElementType.dtype`.
-/

namespace ObjectGraph

/-- A schema tag. `object` stands for values that carry their own schema, `any`
for values without a declared schema. -/
inductive DType where
  | none
  | itemId
  | schema
  | int32
  | int64
  | float32
  | float64
  | bool
  | bytes
  | text
  | expr
  | object
  | any
deriving DecidableEq

namespace DType

/-- Every tag once, in the order of `typeId`. -/
def all : List DType :=
  [none, itemId, schema, int32, int64, float32, float64, bool, bytes, text, expr,
    object, any]

/-- The printed name of a tag. -/
def name : DType → String
  | none => "NONE"
  | itemId => "ITEMID"
  | schema => "SCHEMA"
  | int32 => "INT32"
  | int64 => "INT64"
  | float32 => "FLOAT32"
  | float64 => "FLOAT64"
  | bool => "BOOLEAN"
  | bytes => "BYTES"
  | text => "TEXT"
  | expr => "EXPR"
  | object => "OBJECT"
  | any => "ANY"

/-- The number that stands for a tag in fingerprints. -/
def typeId : DType → UInt8
  | none => 0
  | itemId => 1
  | schema => 2
  | int32 => 3
  | int64 => 4
  | float32 => 5
  | float64 => 6
  | bool => 7
  | bytes => 8
  | text => 9
  | expr => 10
  | object => 11
  | any => 12

/-- Two names agree when they differ at most in the case of ASCII letters. -/
def sameName (a b : String) : Bool :=
  a.toList.map Char.toLower == b.toList.map Char.toLower

/-- The tag with the given name, in any mix of upper and lower case. -/
def ofName? (s : String) : Option DType :=
  all.find? fun d => sameName d.name s

/-- Whether values of the type are plain data rather than ids or schemas. -/
def isPrimitive : DType → Bool
  | itemId | schema | object | any | none => false
  | _ => true

/-- Whether values of the type can be put in ascending order. -/
def isSortable : DType → Bool
  | int32 | int64 | float32 | float64 | bool | bytes | text => true
  | _ => false

theorem ofName?_name (d : DType) : ofName? d.name = some d := by
  cases d <;> decide

theorem typeId_inj {a b : DType} : a.typeId = b.typeId ↔ a = b := by
  cases a <;> cases b <;> decide

end DType

/-- The type of a present value. -/
inductive ElementType where
  | bool
  | int32
  | int64
  | float32
  | float64
  | text
  | bytes
  | itemId
  | schema
  | expr
deriving DecidableEq

namespace ElementType

/-- The schema tag of a value type: object ids have tag `ITEMID`, tags
themselves have tag `SCHEMA`. -/
def dtype : ElementType → DType
  | bool => .bool
  | int32 => .int32
  | int64 => .int64
  | float32 => .float32
  | float64 => .float64
  | text => .text
  | bytes => .bytes
  | itemId => .itemId
  | schema => .schema
  | expr => .expr

/-- The value type with the given schema tag, if values can have it. -/
def ofDType? : DType → Option ElementType
  | .bool => some bool
  | .int32 => some int32
  | .int64 => some int64
  | .float32 => some float32
  | .float64 => some float64
  | .text => some text
  | .bytes => some bytes
  | .itemId => some itemId
  | .schema => some schema
  | .expr => some expr
  | .none | .object | .any => none

theorem ofDType?_dtype (t : ElementType) : ofDType? t.dtype = some t := by
  cases t <;> rfl

theorem dtype_inj {a b : ElementType} : a.dtype = b.dtype ↔ a = b := by
  cases a <;> cases b <;> decide

end ElementType

end ObjectGraph
