import ObjectGraph.Bag.Fallbacks
import ObjectGraph.Slice

/-!
# Workspaces

Operators make bags and use up allocation numbers. `Workspace` holds both, and a
`Session` is a computation on it that may fail. What a failed session has made or
used up stays made and used up.
-/

namespace ObjectGraph

/-- The bags made so far and the numbers left for allocations. -/
structure Workspace where
  bags : Bags
  allocator : Allocator

/-- A computation that makes bags and ids and may fail. -/
abbrev Session := ExceptT Error (StateM Workspace)

namespace Workspace

/-- No bags and no allocations. -/
def fresh : Workspace :=
  ⟨.none, {}⟩

/-- Makes an allocation. -/
def allocate (kind : Kind) : StateM Workspace AllocationId :=
  modifyGet fun w =>
    let (allocation, allocator) := w.allocator.allocate kind
    (allocation, { w with allocator })

/-- Makes a bag by an operation on the bags. -/
def withBags {α : Type} (f : Bags → α × Bags) : StateM Workspace α :=
  modifyGet fun w =>
    let (a, bags) := f w.bags
    (a, { w with bags })

/-- Makes a mutable bag of a store. -/
def newBag (store : Store) : StateM Workspace Handle :=
  withBags fun bags => bags.ofStore store

/-- Makes an immutable bag that falls back on the given ones. -/
def combine (fallbacks : List (Option Handle)) : StateM Workspace Handle :=
  withBags fun bags => bags.combine fallbacks

end Workspace

end ObjectGraph
