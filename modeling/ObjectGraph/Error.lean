import ObjectGraph.Value.Text

/-!
# Errors

`Error` lists the reasons for which an operation on the graph can fail, each
with the data its message shows. What a caller may do about an error is its
`kind`; the wording is in `message` alone.
-/

namespace ObjectGraph

/-- What an error asks of the caller: other arguments, another state, or a
report of a value that should never have got this far. -/
inductive ErrorKind where
  | invalidArgument
  | failedPrecondition
  | internal
deriving DecidableEq

/-- The operators that need a bag. -/
inductive BagUse where
  | extract
  | clone
deriving DecidableEq

/-- The reason of a failure. -/
inductive Error where
  /-- The tag has no NoFollow form. -/
  | noFollowOfDType (d : DType)
  /-- An object that is not a schema has no NoFollow form. -/
  | noFollowOfObject
  /-- A NoFollow schema has no NoFollow form of its own. -/
  | noFollowOfNoFollow
  /-- An item that is neither a tag nor an id has no NoFollow form. -/
  | noFollowOfData
  /-- There is no NoFollow form to undo. -/
  | noFollowRequired
  /-- The item cannot be used as a schema. -/
  | notASchema (item : Item)
  /-- Values of the type cannot be dict keys. -/
  | dictKeyType (d : DType)
  /-- A missing item cannot be a dict key. -/
  | dictKeyMissing
  /-- Objects and values do not match one to one. -/
  | sizeMismatch (objects values : Nat)
  /-- Only a schema object declares attributes. -/
  | schemaAttrOfObject (attr : String) (id : ObjectId)
  /-- Only a list has items. -/
  | notAList (id : ObjectId)
  /-- Only a dict has keys and values. -/
  | notADict (id : ObjectId)
  /-- The edge does not lead from the lists to the values. -/
  | extendMismatch (parents children lists values : Nat)
  | splitPointsEmpty
  | splitPointsStart (first : Int)
  | splitPointsUnsorted
  /-- The next dimension does not start where the shape ends. -/
  | incompatibleEdge (parents size : Nat)
  /-- The column does not fill the shape. -/
  | shapeMismatch (shape column : Nat)
  /-- The bag does not take writes. -/
  | immutableBag
  /-- A walk met the tag `ANY`. -/
  | anySchema
  /-- A walk met an item that is not a schema. -/
  | unsupportedSchema
  /-- An object typed `OBJECT` does not name its schema. -/
  | noEmbeddedSchema (id : ObjectId)
  /-- Two sources declare one attribute differently. -/
  | schemaConflict (schema : ObjectId) (attr : String) (existing value : Item)
  /-- A list schema declares more than its items. -/
  | listSchemaAttrs (schema : ObjectId) (attrs : List String)
  /-- A dict schema declares other than its keys and values. -/
  | dictSchemaAttrs (schema : ObjectId) (attrs : List String)
  /-- The slice has no bag to work on. -/
  | noBag (use : BagUse)
  /-- The schema is given as a slice of more than one item. -/
  | schemaNotItem
  /-- There are no group keys. -/
  | noGroupKeys
  /-- A scalar has no dimension to group. -/
  | groupByScalar
  /-- The group keys differ in shape. -/
  | groupKeyShapes
  | sortMixed
  | sortType (d : DType)
  /-- The sort flag is not a truth value. -/
  | sortFlag
  | unknownOperator (name : String)
  /-- The operator does not take so many arguments. -/
  | arity (operator : String) (least : Nat) (most : Option Nat) (given : Nat)
  /-- The schema to follow is given as a slice of more than one item. -/
  | followNotItem
deriving DecidableEq

namespace Error

def kind : Error → ErrorKind
  | immutableBag => .failedPrecondition
  | noFollowOfObject | noFollowOfData | anySchema | unsupportedSchema => .internal
  | _ => .invalidArgument

/-- The accepted numbers of arguments in words. -/
def arityText (least : Nat) : Option Nat → String
  | none => "at least " ++ toString least
  | some most =>
    if most = least then toString least else toString least ++ " to " ++ toString most

def message : Error → String
  | noFollowOfDType d => "calling nofollow on " ++ d.name ++ " slice is not allowed"
  | noFollowOfObject => "calling nofollow on a non-schema is not allowed"
  | noFollowOfNoFollow => "calling nofollow on a nofollow slice is not allowed"
  | noFollowOfData => "schema can be either a DType or ObjectId schema"
  | noFollowRequired => "a nofollow schema is required in get_nofollowed_schema"
  | notASchema item => "schema must be a DType or a schema ObjectId, got: " ++ item.render
  | dictKeyType d => "dict keys cannot be " ++ d.name
  | dictKeyMissing => "dict keys cannot be missing"
  | sizeMismatch objects values =>
    "size mismatch: " ++ toString objects ++ " objects, " ++ toString values ++ " values"
  | schemaAttrOfObject attr id =>
    "cannot set schema attribute '" ++ attr ++ "' on non-schema object " ++ id.text
  | notAList id => id.text ++ " is not a list"
  | notADict id => id.text ++ " is not a dict"
  | extendMismatch parents children lists values =>
    "extend_lists: edge " ++ toString parents ++ "->" ++ toString children ++
      " does not match " ++ toString lists ++ " lists and " ++ toString values ++ " values"
  | splitPointsEmpty => "split points must be non-empty"
  | splitPointsStart first => "split points must start with 0, got " ++ toString first
  | splitPointsUnsorted => "split points must be sorted"
  | incompatibleEdge parents size =>
    "incompatible dimensions: edge parent size " ++ toString parents ++ " != shape size " ++
      toString size
  | shapeMismatch shape column =>
    "shape size " ++ toString shape ++ " does not match slice size " ++ toString column
  | immutableBag => "cannot modify an immutable DataBag"
  | anySchema => "clone/extract not supported for kAny schema"
  | unsupportedSchema => "unsupported schema type"
  | noEmbeddedSchema id =>
    "object " ++ id.text ++ " is expected to have a schema ObjectId in __schema__ attribute"
  | schemaConflict schema attr existing value =>
    "conflicting values for schema " ++ schema.text ++ ": " ++ attr ++ ": " ++
      existing.render ++ " != " ++ value.render
  | listSchemaAttrs schema attrs =>
    "list schema " ++ schema.text ++ " has unexpected attributes: " ++ ", ".intercalate attrs
  | dictSchemaAttrs schema attrs =>
    "dict schema " ++ schema.text ++ " has unexpected attributes: " ++ ", ".intercalate attrs
  | noBag .extract => "cannot extract without a DataBag"
  | noBag .clone => "cannot clone without a DataBag"
  | schemaNotItem => "schema must be a DataItem"
  | noGroupKeys => "requires at least 1 argument"
  | groupByScalar => "group_by is not supported for scalar data"
  | groupKeyShapes => "all arguments must have the same shape"
  | sortMixed => "sort is not supported for mixed dtype"
  | sortType d => "sort is not supported for " ++ d.name
  | sortFlag => "sort must be a boolean scalar"
  | unknownOperator name => "unknown operator: " ++ name
  | arity operator least most given =>
    operator ++ ": expected " ++ arityText least most ++ " arguments, got " ++ toString given
  | followNotItem => "get_nofollowed_schema expects a schema item"

end Error

end ObjectGraph
