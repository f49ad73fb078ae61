import ObjectGraph.Bag.Basic
import ObjectGraph.Measure

/-!
# Flattened fallbacks

A bag is read through its fallbacks, their fallbacks and so on. `preorder` lists
them depth first, every bag once: the bags still to be visited are carried as a
list, and the fallbacks of a bag go in front of it. Each step either takes up a
bag that was not seen before or shortens that list, so it ends whatever the graph
looks like.
-/

namespace ObjectGraph.Bags

/-- The handles of the bags made so far. -/
def handles (bags : Bags) : List Handle :=
  (List.range bags.made.length).map Handle.mk

theorem mem_handles {bags : Bags} {h : Handle} {bag : Bag} (hget : bags.get? h = some bag) :
    h ∈ bags.handles := by
  obtain ⟨hlt, -⟩ := List.getElem?_eq_some_iff.1 hget
  exact List.mem_map.2 ⟨h.index, List.mem_range.2 hlt, rfl⟩

/-- The bags reached from a list of bags, depth first, without those seen. -/
def preorder (bags : Bags) (seen : List Handle) : List Handle → List Handle
  | [] => []
  | h :: rest =>
    if _ : h ∈ seen then preorder bags seen rest
    else
      match _ : bags.get? h with
      | Option.none => preorder bags seen rest
      | some bag => h :: preorder bags (h :: seen) (bag.fallbacks ++ rest)
termination_by rest => (leftOver bags.handles seen, rest.length)
decreasing_by
  · exact Prod.Lex.right _ (Nat.lt_succ_self _)
  · exact Prod.Lex.right _ (Nat.lt_succ_self _)
  · exact Prod.Lex.left _ _ (leftOver_lt (List.subset_cons_self h seen)
      (mem_handles (by assumption)) (by assumption) List.mem_cons_self)

/-- Everything a bag falls back on, by descending priority. -/
def flatFallbacks (bags : Bags) (h : Handle) : List Handle :=
  bags.preorder [h] (bags.fallbacks h)

/-- The view of a bag: its own store over those of its flattened fallbacks. -/
def view (bags : Bags) (h : Handle) : View :=
  .ofStore (bags.store h) ((bags.flatFallbacks h).map bags.store)

end ObjectGraph.Bags
