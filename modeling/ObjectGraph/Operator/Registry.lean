import ObjectGraph.Config.Basic
import ObjectGraph.Grouping.GroupBy
import ObjectGraph.Operator.Copy

/-!
# Named operators

The operators that can be called by name. A call checks that the name is known
and that the number of arguments is one the operator takes; after that it is the
function of the same name.
-/

namespace ObjectGraph

/-- An operator that can be called by name. -/
inductive Operator where
  | extract
  | extractWithSchema
  | shallowClone
  | shallowCloneWithSchema
  | clone
  | groupByIndices
  | groupByIndicesSorted
  | unique
  | follow
  | getNofollowedSchema
  | nofollowSchema
deriving DecidableEq

namespace Operator

/-- Every operator once, in the order in which they are listed. -/
def all : List Operator :=
  [extract, extractWithSchema, shallowClone, shallowCloneWithSchema, clone, groupByIndices,
    groupByIndicesSorted, unique, follow, getNofollowedSchema, nofollowSchema]

def name : Operator → String
  | extract => "core.extract"
  | extractWithSchema => "core.extract_with_schema"
  | shallowClone => "core.shallow_clone"
  | shallowCloneWithSchema => "core.shallow_clone_with_schema"
  | clone => "core.clone"
  | groupByIndices => "core.group_by_indices"
  | groupByIndicesSorted => "core.group_by_indices_sorted"
  | unique => "core.unique"
  | follow => "core.follow"
  | getNofollowedSchema => "core.get_nofollowed_schema"
  | nofollowSchema => "core.nofollow_schema"

/-- The operator of a name, which has to be exact. -/
def ofName? (s : String) : Option Operator :=
  all.find? fun op => op.name == s

/-- The least and the most arguments an operator takes; without a most, it takes
any number. -/
def arity : Operator → Nat × Option Nat
  | extractWithSchema | shallowCloneWithSchema => (2, some 2)
  | groupByIndices | groupByIndicesSorted => (1, none)
  | unique => (1, some 2)
  | _ => (1, some 1)

/-- Whether an operator takes so many arguments. -/
def takes (op : Operator) (count : Nat) : Bool :=
  op.arity.1 ≤ count && op.arity.2.all fun most => count ≤ most

theorem ofName?_name (op : Operator) : ofName? op.name = some op := by
  cases op <;> decide

/-- The schema that the item of a slice is the NoFollow form of, as a slice. -/
def nofollowedSchema (x : Slice) : Except Error Slice := do
  let some item := x.item? | throw .followNotItem
  return (Slice.ofItem (← Schema.followed item) (.dtype .schema)).withBag x.bag

/-- Applies an operator to arguments of the right number. -/
def apply (config : Config) (op : Operator) (args : List Slice) : Session Slice :=
  match op, args with
  | extract, [x] => x.extract x.schemaSlice
  | extractWithSchema, [x, schema] => x.extract schema
  | shallowClone, [x] => x.shallowClone x.schemaSlice
  | shallowCloneWithSchema, [x, schema] => x.shallowClone schema
  | clone, [x] => x.clone x.schemaSlice
  | groupByIndices, keys => groupBy false keys
  | groupByIndicesSorted, keys => groupBy true keys
  | unique, [x] => ObjectGraph.unique x (.ofItem (.bool config.defaultSort) (.dtype .bool))
  | unique, [x, flag] => ObjectGraph.unique x flag
  | follow, [x] => x.followed
  | nofollowSchema, [x] => x.noFollow
  | getNofollowedSchema, [x] => nofollowedSchema x
  | op, args => throw (.arity op.name op.arity.1 op.arity.2 args.length)

/-- Calls an operator by its name. -/
def call (config : Config) (name : String) (args : List Slice) : Session Slice := do
  let some op := ofName? name | throw (.unknownOperator name)
  if !op.takes args.length then
    throw (.arity op.name op.arity.1 op.arity.2 args.length)
  op.apply config args

end Operator

end ObjectGraph
