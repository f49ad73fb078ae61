import ObjectGraph.Error

/-!
# Schemas

A schema is an item: a tag, or the id of a schema object, whose attributes are
the attributes it declares. Schemas of lists and dicts declare reserved
attributes, and an object typed `OBJECT` names its own schema in a reserved
attribute. The NoFollow form of a schema marks an edge at which a walk stops;
`noFollow` and `followed` make and undo it.
-/

namespace ObjectGraph.Schema

/-- The attribute in which an object names its own schema. -/
def schemaAttr : String := "__schema__"

/-- The attribute that makes a schema a list schema. -/
def itemsAttr : String := "__items__"

/-- The first of the two attributes that make a schema a dict schema. -/
def keysAttr : String := "__keys__"

/-- The second of the two attributes that make a schema a dict schema. -/
def valuesAttr : String := "__values__"

/-- Whether the attribute is one that a container schema declares. -/
def isContainerAttr (name : String) : Bool :=
  name == itemsAttr || name == keysAttr || name == valuesAttr

/-- The NoFollow form of a schema. Only `OBJECT` and explicit schemas have one. -/
def noFollow : Item → Except Error Item
  | .dtype .object => .ok (.objectId .noFollowObject)
  | .dtype d => .error (.noFollowOfDType d)
  | .objectId id =>
    if !id.isSchema then .error .noFollowOfObject
    else if id.isNoFollow then .error .noFollowOfNoFollow
    else .ok (.objectId id.withNoFollow)
  | _ => .error .noFollowOfData

/-- The schema of which an item is the NoFollow form. -/
def followed : Item → Except Error Item
  | .objectId id =>
    if id = .noFollowObject then .ok (.dtype .object)
    else if id.isNoFollow then .ok (.objectId id.withoutNoFollow)
    else .error .noFollowRequired
  | _ => .error .noFollowRequired

def isNoFollow (schema : Item) : Bool :=
  schema.objectId?.any ObjectId.isNoFollow

/-- Accepts the items that can be used as a schema. -/
def verify (item : Item) : Except Error Unit :=
  if item.isSchema then .ok () else .error (.notASchema item)

/-- Rejects the tags of types that cannot be dict keys. -/
def verifyKeySchema : Item → Except Error Unit
  | .dtype .none => .error (.dictKeyType .none)
  | .dtype .float32 => .error (.dictKeyType .float32)
  | .dtype .float64 => .error (.dictKeyType .float64)
  | .dtype .expr => .error (.dictKeyType .expr)
  | _ => .ok ()

/-- Rejects the items that cannot be dict keys: missing items, floating-point
values, expressions and schemas. -/
def validateKey : Item → Except Error Unit
  | .missing => .error .dictKeyMissing
  | .float32 _ => .error (.dictKeyType .float32)
  | .float64 _ => .error (.dictKeyType .float64)
  | .expr _ => .error (.dictKeyType .expr)
  | .dtype _ => .error (.dictKeyType .schema)
  | .objectId id => if id.isSchema then .error (.dictKeyType .schema) else .ok ()
  | _ => .ok ()

end ObjectGraph.Schema
