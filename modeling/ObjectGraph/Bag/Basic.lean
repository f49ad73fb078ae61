import ObjectGraph.Store.View

/-!
# Bags

A bag is a shared store with a list of bags it falls back on. Bags live in an
arena and are referred to by handles, so two handles are the same bag exactly
when they are equal. A bag is made with fallbacks that exist already, which is
the predicate `Valid`: the graph of fallbacks has no cycles.

Immutable bags do not take writes. They are made empty, to combine other bags.
-/

namespace ObjectGraph

/-- The identity of a bag: its place in the arena. -/
structure Handle where
  index : Nat
deriving DecidableEq

/-- A store, the bags it falls back on and whether it takes writes. -/
structure Bag where
  store : Store
  fallbacks : List Handle
  isMutable : Bool

/-- The bags made so far, in the order in which they were made. -/
structure Bags where
  made : List Bag

namespace Bags

def none : Bags :=
  ⟨[]⟩

/-- The bag of a handle. -/
def get? (bags : Bags) (h : Handle) : Option Bag :=
  bags.made[h.index]?

/-- Every bag falls back on bags made before it. -/
def Valid (bags : Bags) : Prop :=
  ∀ h bag, bags.get? h = some bag → ∀ fallback ∈ bag.fallbacks, fallback.index < h.index

/-- Makes a bag. -/
def add (bags : Bags) (bag : Bag) : Handle × Bags :=
  (⟨bags.made.length⟩, ⟨bags.made ++ [bag]⟩)

/-- Makes a mutable bag of a store. -/
def ofStore (bags : Bags) (store : Store) : Handle × Bags :=
  bags.add ⟨store, [], true⟩

/-- Makes an immutable empty bag that falls back on the given ones. -/
def combine (bags : Bags) (fallbacks : List (Option Handle)) : Handle × Bags :=
  bags.add ⟨∅, fallbacks.reduceOption, false⟩

/-- One bag through which all the given ones are read. A single argument is
returned as it is; otherwise repeated bags count once, nothing is made for fewer
than two bags, and more are combined in order. -/
def commonOrCombined (bags : Bags) (given : List (Option Handle)) : Option Handle × Bags :=
  match given with
  | [only] => (only, bags)
  | _ =>
    match given.reduceOption.eraseDups with
    | [] => (Option.none, bags)
    | [h] => (some h, bags)
    | handles =>
      let (h, bags) := bags.combine (handles.map some)
      (some h, bags)

/-- The own store of a bag. -/
def store (bags : Bags) (h : Handle) : Store :=
  ((bags.get? h).map Bag.store).getD ∅

/-- The fallbacks a bag was made with. -/
def fallbacks (bags : Bags) (h : Handle) : List Handle :=
  ((bags.get? h).map Bag.fallbacks).getD []

def isMutable (bags : Bags) (h : Handle) : Bool :=
  ((bags.get? h).map Bag.isMutable).getD false

/-- The own store of a bag that takes writes. -/
def writable (bags : Bags) (h : Handle) : Except Error Store :=
  if bags.isMutable h then .ok (bags.store h) else .error .immutableBag

/-- Replaces the own store of a bag. -/
def setStore (bags : Bags) (h : Handle) (store : Store) : Bags :=
  ⟨bags.made.modify h.index fun bag => { bag with store }⟩

end Bags

end ObjectGraph
