import ObjectGraph.Store.Write
import ObjectGraph.Walk.Layout

/-!
# Steps of a walk

A walk follows a schema through the objects of a data view and copies what it
meets into a new store. It works on tasks: objects, the schema they are typed
with, and the source this schema is read from, which is the data view or a
schema view of its own. The schemas that a schema declares are read from the
source of that schema; a schema that an object names itself is always read from
the data view, and so is all data.

`Walk` holds what stays the same during a walk and `Progress` what it has done:
the store it has built, the visits it has made and the schemas it has copied.
`step` does one task and returns the tasks that follow from it. An object is
visited once under each schema and source, and a schema is copied once from each
source, which is why a walk over a cyclic graph ends.

A shallow walk copies the data of the objects it starts from and only the schemas
below them: the tasks that follow carry no objects. Objects may be copied under
another id, which is `target`.
-/

namespace ObjectGraph

/-- Where a schema is read from. -/
inductive Source where
  | data
  | schema
deriving DecidableEq

/-- Objects to be copied, and the schema they are typed with. -/
structure Task where
  objects : List ObjectId
  schema : Item
  source : Source
deriving DecidableEq

/-- An object under an explicit schema, or under `OBJECT` if there is none. -/
structure Visit where
  object : ObjectId
  schema : Option ObjectId
  source : Source
deriving DecidableEq

/-- What stays the same during a walk. -/
structure Walk where
  data : View
  schemas : Option View
  target : ObjectId → ObjectId
  shallow : Bool

/-- What a walk has done so far. -/
structure Progress where
  result : Store
  visits : List Visit
  loaded : List (ObjectId × Source)

namespace Progress

/-- Nothing done. -/
def start : Progress :=
  ⟨∅, [], []⟩

/-- The objects not visited under a schema, each once. -/
def fresh (p : Progress) (schema : Option ObjectId) (source : Source)
    (objects : List ObjectId) : List ObjectId :=
  (objects.filter fun o => ⟨o, schema, source⟩ ∉ p.visits).eraseDups

/-- The visits after visiting the objects under a schema. -/
def visitsWith (p : Progress) (schema : Option ObjectId) (source : Source)
    (objects : List ObjectId) : List Visit :=
  objects.map (⟨·, schema, source⟩) ++ p.visits

theorem mem_fresh {p : Progress} {schema : Option ObjectId} {source : Source}
    {objects : List ObjectId} {o : ObjectId} :
    o ∈ p.fresh schema source objects ↔ o ∈ objects ∧ ⟨o, schema, source⟩ ∉ p.visits := by
  simp [fresh]

theorem visits_subset_visitsWith (p : Progress) (schema : Option ObjectId) (source : Source)
    (objects : List ObjectId) : p.visits ⊆ p.visitsWith schema source objects :=
  List.subset_append_right _ _

theorem mem_visitsWith {p : Progress} {schema : Option ObjectId} {source : Source}
    {objects : List ObjectId} {o : ObjectId} (h : o ∈ objects) :
    ⟨o, schema, source⟩ ∈ p.visitsWith schema source objects :=
  List.mem_append_left _ (List.mem_map.2 ⟨o, h, rfl⟩)

end Progress

namespace Walk

open Schema

/-- The view that schemas of a source are read from. -/
def schemaView (w : Walk) : Source → View
  | .data => w.data
  | .schema => w.schemas.getD w.data

/-- The attributes a schema declares. -/
def declared (w : Walk) (schema : ObjectId) (source : Source) : List (String × Item) :=
  (w.schemaView source).attrEntries schema

def layout (w : Walk) (schema : ObjectId) (source : Source) : Except Error Layout :=
  Layout.ofAttrs schema (w.declared schema source)

/-- The schema that an object names itself. -/
def embedded (w : Walk) (object : ObjectId) : Except Error ObjectId :=
  match (w.data.attr object schemaAttr).objectId? with
  | some schema =>
    if schema.isSchema then .ok schema else .error (.noEmbeddedSchema object)
  | none => .error (.noEmbeddedSchema object)

/-- Pairs objects with the schemas that they name. -/
def withEmbedded (w : Walk) : List ObjectId → Except Error (List (ObjectId × ObjectId))
  | [] => .ok []
  | object :: objects => do
    let schema ← w.embedded object
    let rest ← w.withEmbedded objects
    return (object, schema) :: rest

/-- One task for each schema, in the order in which the schemas are first met.
Objects under a NoFollow schema are left out. -/
def bySchema (typed : List (ObjectId × ObjectId)) : List Task :=
  let followed := typed.filter fun t => !t.2.isNoFollow
  (followed.map Prod.snd).eraseDups.map fun schema =>
    ⟨(followed.filter fun t => t.2 = schema).map Prod.fst, .objectId schema, .data⟩

/-- Objects typed `OBJECT`: each is copied with the schema it names, and goes on
to be copied under that schema. -/
def stepObjects (w : Walk) (p : Progress) (objects : List ObjectId) (source : Source) :
    Except Error (Progress × List Task) := do
  let fresh := p.fresh none source (objects.filter fun o => !o.isSchema)
  let typed ← w.withEmbedded fresh
  let result := typed.foldl
    (fun r t => r.setAttr (w.target t.1) schemaAttr (.objectId t.2)) p.result
  return ({ p with result, visits := p.visitsWith none source fresh }, bySchema typed)

/-- Copies the attributes of a schema, which must not differ from those copied
before. -/
def declare (schema : ObjectId) (result : Store) : List (String × Item) → Except Error Store
  | [] => .ok result
  | (name, value) :: attrs =>
    let existing := (result.attr? schema name).getD .missing
    if existing.isPresent && existing != value then
      .error (.schemaConflict schema name existing value)
    else declare schema (result.setAttr schema name value) attrs

/-- Copies one attribute of every object that has it. -/
def copyAttr (w : Walk) (objects : List ObjectId) (result : Store) (name : String) : Store :=
  objects.foldl (fun r o =>
    let value := w.data.attr o name
    if value.isPresent then r.setAttr (w.target o) name value else r) result

/-- Copies every list that has items. -/
def copyLists (w : Walk) (lists : List ObjectId) (result : Store) : Except Error Store :=
  lists.foldlM (fun r l =>
    match w.data.list? l with
    | some items => r.setList (w.target l) items
    | none => .ok r) result

/-- Copies the present entries of every dict. -/
def copyDicts (w : Walk) (dicts : List ObjectId) (result : Store) : Except Error Store :=
  dicts.foldlM (fun r d =>
    (w.data.dictEntries d).foldlM (fun r e => r.setInDict (w.target d) e.1 e.2) r) result

/-- Copies what the objects of a layout hold. -/
def copyData (w : Walk) (objects : List ObjectId) (result : Store) :
    Layout → Except Error Store
  | .entity attrs => .ok ((attrs.map Prod.fst).foldl (w.copyAttr objects) result)
  | .list _ => w.copyLists (objects.filter ObjectId.isList) result
  | .dict _ _ => w.copyDicts (objects.filter ObjectId.isDict) result

/-- The task for objects that were found under others. -/
def childTask (w : Walk) (objects : List ObjectId) (schema : Item) (source : Source) : Task :=
  ⟨if w.shallow then [] else objects, schema, source⟩

/-- The tasks for what the objects of a layout hold. An attribute with a NoFollow
schema leads nowhere. -/
def childTasks (w : Walk) (source : Source) (objects : List ObjectId) : Layout → List Task
  | .entity attrs =>
    (attrs.filter fun a => !isNoFollow a.2).map fun a =>
      w.childTask (objects.filterMap fun o => (w.data.attr o a.1).child?) a.2 source
  | .list items =>
    let found := (objects.filter ObjectId.isList).flatMap w.data.list
    [w.childTask (found.filterMap Item.child?) items source]
  | .dict keys values =>
    let found := (objects.filter ObjectId.isDict).flatMap w.data.dictEntries
    [w.childTask (found.filterMap fun e => e.1.child?) keys source,
      w.childTask (found.filterMap fun e => e.2.child?) values source]

/-- Objects under an explicit schema: the schema is copied when it is met first,
and the objects not visited before are copied with what they hold. -/
def stepExplicit (w : Walk) (p : Progress) (schema : ObjectId) (objects : List ObjectId)
    (source : Source) : Except Error (Progress × List Task) := do
  let layout ← w.layout schema source
  let fresh := p.fresh (some schema) source objects
  if (schema, source) ∈ p.loaded then
    if fresh.isEmpty then return (p, [])
    let result ← w.copyData fresh p.result layout
    return (⟨result, p.visitsWith (some schema) source fresh, p.loaded⟩,
      w.childTasks source fresh layout)
  else
    let result ← declare schema p.result (w.declared schema source)
    let result ← w.copyData fresh result layout
    return (⟨result, p.visitsWith (some schema) source fresh, (schema, source) :: p.loaded⟩,
      w.childTasks source fresh layout)

/-- Does one task. -/
def step (w : Walk) (p : Progress) (t : Task) : Except Error (Progress × List Task) :=
  match t.schema with
  | .dtype .any => .error .anySchema
  | .dtype .object => w.stepObjects p t.objects t.source
  | .dtype _ => .ok (p, [])
  | .objectId id =>
    if id.isNoFollow then .ok (p, [])
    else if id.isSchema then w.stepExplicit p id t.objects t.source
    else .error .unsupportedSchema
  | _ => .error .unsupportedSchema

end Walk

end ObjectGraph
