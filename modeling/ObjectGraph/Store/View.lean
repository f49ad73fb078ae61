import ObjectGraph.Column.Basic
import ObjectGraph.Shape.Edge
import ObjectGraph.Store.Basic

/-!
# Reading through layers

A view is a list of stores, the one of highest priority first: a main store and
the stores it falls back on. The first store with an entry answers a look-up, so
an entry that holds a missing item hides the entries below it. A dict is merged
key by key, and its keys come in the order in which the layers mention them.
-/

namespace ObjectGraph

/-- Stores by descending priority. -/
structure View where
  layers : List Store

namespace View

/-- A store together with the stores it falls back on. -/
def ofStore (main : Store) (fallbacks : List Store) : View :=
  ⟨main :: fallbacks⟩

/-- The first entry for an attribute. -/
def attr? (v : View) (id : ObjectId) (name : String) : Option Item :=
  v.layers.findSome? fun s => s.attr? id name

/-- The value of an attribute, missing if there is no entry. -/
def attr (v : View) (id : ObjectId) (name : String) : Item :=
  (v.attr? id name).getD .missing

/-- The names that any layer has an entry for, in ascending order. -/
def mentionedNames (v : View) (id : ObjectId) : List String :=
  (v.layers.foldl (fun names s => names.insertMany (s.localAttrs id).keys)
    (∅ : Std.ExtTreeSet String)).toList

/-- The names of the attributes that are present, in ascending order. -/
def attrNames (v : View) (id : ObjectId) : List String :=
  (v.mentionedNames id).filter fun name => (v.attr id name).isPresent

/-- The attributes that are present, in ascending order of their names. -/
def attrEntries (v : View) (id : ObjectId) : List (String × Item) :=
  (v.attrNames id).map fun name => (name, v.attr id name)

/-- The items of a list in the first layer that has it. -/
def list? (v : View) (id : ObjectId) : Option (List Item) :=
  v.layers.findSome? fun s => s.list? id

/-- The items of a list, none if no layer has it. -/
def list (v : View) (id : ObjectId) : List Item :=
  (v.list? id).getD []

/-- The first entry for a key of a dict. -/
def dictEntry? (v : View) (id : ObjectId) (key : Item) : Option Item :=
  v.layers.findSome? fun s => s.dictEntry? id key

/-- The value of a key, missing if there is no entry. -/
def dictValue (v : View) (id : ObjectId) (key : Item) : Item :=
  (v.dictEntry? id key).getD .missing

/-- The keys that any layer has an entry for, each once, as first met. -/
def mentionedKeys (v : View) (id : ObjectId) : List Item :=
  (v.layers.flatMap fun s => (s.dict id).keys).eraseDups

/-- The keys whose value is present. -/
def dictKeys (v : View) (id : ObjectId) : List Item :=
  (v.mentionedKeys id).filter fun key => (v.dictValue id key).isPresent

def dictSize (v : View) (id : ObjectId) : Nat :=
  (v.dictKeys id).length

/-- The keys whose value is present, with their values. -/
def dictEntries (v : View) (id : ObjectId) : List (Item × Item) :=
  (v.dictKeys id).map fun key => (key, v.dictValue id key)

/-- Looks up every object of a column; positions without an object are missing. -/
def mapObjects (objects : Column) (f : ObjectId → Item) : Column :=
  .ofItems (objects.items.map fun item => (item.objectId?.map f).getD .missing)

/-- The value of one attribute for every object of a column. -/
def attrColumn (v : View) (objects : Column) (name : String) : Column :=
  mapObjects objects fun id => v.attr id name

/-- The number of items of every list of a column. -/
def listSizes (v : View) (lists : Column) : Column :=
  mapObjects lists fun id => .int64 (.ofNat (v.list id).length)

/-- The items of every list of a column. -/
def listGroups (v : View) (lists : Column) : List (List Item) :=
  lists.items.map fun item => (item.objectId?.map v.list).getD []

/-- The items of all lists of a column one after another, and the edge from the
column to them. -/
def explode (v : View) (lists : Column) : Column × Edge :=
  let groups := v.listGroups lists
  (.ofItems groups.flatten, ⟨groups.map List.length⟩)

end View

end ObjectGraph
