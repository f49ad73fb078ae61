import ObjectGraph.Store.View

/-!
# Writing to a store

Writes check the kind of the object and the values first, and a rejected write
leaves the store as it was. Writes to lists start from what the list reads as
through the fallbacks, so the first write copies an inherited list. The one write
that can fail half way is `extendLists`: it keeps what it has written before the
object it rejects, so it returns the store also with an error.
-/

namespace ObjectGraph.Store

/-- Enters one attribute for every object of a column, from the values at the
same positions. -/
def setAttrColumn (s : Store) (objects : Column) (name : String) (values : Column) :
    Except Error Store :=
  if objects.size ≠ values.size then .error (.sizeMismatch objects.size values.size)
  else
    .ok <| (objects.items.zip values.items).foldl (fun s p =>
      match p.1.objectId? with
      | some id => s.setAttr id name p.2
      | none => s) s

/-- Declares an attribute of a schema. -/
def setSchemaAttr (s : Store) (schema : ObjectId) (name : String) (value : Item) :
    Except Error Store := do
  if !schema.isSchema then throw (.schemaAttrOfObject name schema)
  if value.isPresent then Schema.verify value
  return s.setAttr schema name value

/-- Sets the items of a list. -/
def setList (s : Store) (id : ObjectId) (items : List Item) : Except Error Store :=
  if id.isList then .ok (s.putList id items) else .error (.notAList id)

/-- Adds items to what a list reads as through the fallbacks. -/
def extendList (s : Store) (fallbacks : List Store) (id : ObjectId) (items : List Item) :
    Except Error Store :=
  s.setList id ((View.ofStore s fallbacks).list id ++ items)

/-- Adds one item to a list. -/
def append (s : Store) (fallbacks : List Store) (id : ObjectId) (item : Item) :
    Except Error Store :=
  s.extendList fallbacks id [item]

/-- Adds a group of items to every list among `targets`, in order, up to the first
object that is not a list. -/
def extendGroups (fallbacks : List Store) (s : Store) :
    List (Item × List Item) → Except Error Unit × Store
  | [] => (.ok (), s)
  | (target, group) :: targets =>
    match target.objectId? with
    | none => extendGroups fallbacks s targets
    | some id =>
      match s.extendList fallbacks id group with
      | .ok s => extendGroups fallbacks s targets
      | .error e => (.error e, s)

/-- The values at the positions that an edge gives to its group `i`. -/
def groupValues (edge : Edge) (values : Column) (i : Nat) : List Item :=
  match edge.range? i with
  | some (first, last) => (List.range' first (last - first)).map values.get
  | none => []

/-- Adds to every list of a column the values that the edge gives to its
position. -/
def extendLists (s : Store) (fallbacks : List Store) (lists values : Column) (edge : Edge) :
    Except Error Unit × Store :=
  if edge.parents ≠ lists.size ∨ edge.children ≠ values.size then
    (.error (.extendMismatch edge.parents edge.children lists.size values.size), s)
  else extendGroups fallbacks s (lists.items.mapIdx fun i item => (item, groupValues edge values i))

/-- Sets the value of a key; a missing value leaves a tombstone. -/
def setInDict (s : Store) (id : ObjectId) (key value : Item) : Except Error Store := do
  if !id.isDict then throw (.notADict id)
  Schema.validateKey key
  return s.putInDict id key value

end ObjectGraph.Store
