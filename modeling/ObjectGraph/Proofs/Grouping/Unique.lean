import Mathlib.Tactic
import ObjectGraph.Proofs.Grouping.Run

/-!
# Distinct values and groups

The distinct values of a segment are found without labels. They are the classes that one
key makes of a whole segment, so there is one for each group, in the order of the groups,
and it is the item at the first position of the group.
-/

namespace ObjectGraph

namespace Grouping

/-! ### First members -/

section First

variable {α β : Type} {same : α → α → Bool} {l : List α} {d : α}

theorem distinctBy_map (f : β → α) (l : List β) :
    distinctBy same (l.map f) = (distinctBy (fun a b => same (f a) (f b)) l).map f := by
  induction l with
  | nil => rfl
  | cons b l ih =>
      rw [List.map_cons, distinctBy, ih, List.filter_map, distinctBy, List.map_cons]
      rfl

/-- A distinct member is the first one of its class. -/
theorem find?_of_mem_distinctBy (hsame : Equivalence fun a b => same a b = true)
    (hd : d ∈ distinctBy same l) : l.find? (same · d) = some d := by
  induction l with
  | nil => cases hd
  | cons a l ih =>
      rcases List.mem_cons.1 hd with rfl | hd
      · exact List.find?_cons_of_pos (hsame.refl d)
      · obtain ⟨hd, hnot⟩ := List.mem_filter.1 hd
        rw [List.find?_cons_of_neg (by simpa using hnot)]
        exact ih hd

theorem find?_reduceOption {ms : List (Option α)} {f : α → Bool} {p : Nat} {m : α}
    (hp : ms[p]? = some (some m)) (hm : f m = true)
    (hbefore : ∀ q < p, ∀ n, ms[q]? = some (some n) → f n = false) :
    ms.reduceOption.find? f = some m := by
  induction ms generalizing p with
  | nil => cases hp
  | cons o ms ih =>
      cases p with
      | zero =>
          obtain rfl := Option.some.inj hp
          rw [List.reduceOption_cons_of_some]
          exact List.find?_cons_of_pos hm
      | succ p =>
          have hrest := ih hp fun q hq n hn => hbefore (q + 1) (Nat.succ_lt_succ hq) n hn
          cases o with
          | none => exact hrest
          | some n =>
              have hn := hbefore 0 (Nat.succ_pos p) n rfl
              rw [List.reduceOption_cons_of_some, List.find?_cons_of_neg (by simp [hn])]
              exact hrest

end First

/-! ### Distinct values of a segment -/

variable {labels : List (Option Nat)} {p g k : Nat}

/-- Where the labels are those below a bound, each of these has a group. -/
theorem groupsOf_eq_map (hk : k ≤ labels.length)
    (hlabels : ∀ g : Nat, (∃ p : Nat, labels[p]? = some (some g)) ↔ g < k) :
    groupsOf labels = (List.range k).map (positionsIn labels) := by
  obtain ⟨n, hn⟩ := Nat.exists_eq_add_of_le hk
  have hfirst : ((List.range k).map (positionsIn labels)).filter (fun group => !group.isEmpty) =
      (List.range k).map (positionsIn labels) := by
    rw [List.filter_eq_self]
    intro group hgroup
    obtain ⟨g, hg, rfl⟩ := List.mem_map.1 hgroup
    obtain ⟨p, hp⟩ := (hlabels g).2 (List.mem_range.1 hg)
    simpa using List.ne_nil_of_mem (mem_positionsIn.2 hp)
  have hrest : (((List.range n).map (k + ·)).map (positionsIn labels)).filter
      (fun group => !group.isEmpty) = [] := by
    rw [List.filter_eq_nil_iff]
    intro group hgroup hne
    obtain ⟨g, hg, rfl⟩ := List.mem_map.1 hgroup
    obtain ⟨j, -, rfl⟩ := List.mem_map.1 hg
    obtain ⟨p, hp⟩ := List.exists_mem_of_ne_nil _ (by simpa using hne)
    have hlt := (hlabels (k + j)).1 ⟨p, mem_positionsIn.1 hp⟩
    omega
  rw [groupsOf, hn, List.range_add, List.map_append, List.filter_append, hfirst, hrest,
    List.append_nil]

theorem members_replicate {α : Type} (cells : List (Option α)) :
    members (List.replicate cells.length (some 0)) cells =
      cells.map (Option.map fun v => (0, v)) := by
  induction cells with
  | nil => rfl
  | cons cell cells ih =>
      rw [List.length_cons, List.replicate_succ, List.map_cons, ← ih]
      rfl

section Cells

variable {α : Type} [DecidableEq α] [Cell α] {sorted : Bool} {cells : List (Option α)}
  {d : Nat × α}

/-- The classes that a key makes of a whole segment are its distinct values. -/
theorem classes_replicate (sorted : Bool) (cells : List (Option α)) :
    classes sorted (members (List.replicate cells.length (some 0)) cells).reduceOption =
      (distinctValues sorted cells).map fun v => (0, v) := by
  have hsame : (fun a b : α => sameClass (0, a) (0, b)) = sameKey := by
    funext a b
    rw [sameClass, beq_self_eq_true, Bool.true_and]
  rw [members_replicate, List.reduceOption_map, classes, distinctBy_map, hsame, distinctValues]
  cases sorted with
  | false => rfl
  | true =>
      have horder : ∀ a b : α, ascending a b = classOrder (0, a) (0, b) := fun a b => rfl
      exact (List.map_mergeSort fun a _ b _ => horder a b).symm

/-- The first position of a group holds the member that stands for the group. -/
theorem getElem?_members_of_head?
    (hd : (classes sorted (members labels cells).reduceOption)[g]? = some d)
    (hp : p ∈ (positionsIn (refine sorted labels cells) g).head?) :
    (members labels cells)[p]? = some (some d) := by
  have hmem := List.mem_of_mem_head? hp
  obtain ⟨m, hm, e, he, hme⟩ := getElem?_refine.1 (mem_positionsIn.1 hmem)
  obtain rfl := Option.some.inj (hd.symm.trans he)
  have hdistinct := (perm_classes sorted _).subset (List.mem_of_getElem? hd)
  have hfirst := find?_of_mem_distinctBy equivalence_sameClass hdistinct
  rw [find?_reduceOption hm hme] at hfirst
  · rw [hm, hfirst]
  · intro q hq n hn
    -- An earlier member of the class would be in the group.
    by_contra hnd
    rw [Bool.not_eq_false] at hnd
    have hqmem := mem_positionsIn.2 (getElem?_refine.2 ⟨n, hn, d, hd, hnd⟩)
    exact absurd hq (Nat.not_lt.2 (le_of_mem_head? (pairwise_positionsIn _ g) hp hqmem))

theorem exists_getElem?_refine_iff :
    (∃ p : Nat, (refine sorted labels cells)[p]? = some (some g)) ↔
      g < (classes sorted (members labels cells).reduceOption).length := by
  constructor
  · rintro ⟨p, hp⟩
    obtain ⟨_, _, _, hd, _⟩ := getElem?_refine.1 hp
    exact (List.getElem?_eq_some_iff.1 hd).1
  · intro hg
    have hd := List.getElem?_eq_getElem hg
    have hmem := List.reduceOption_mem_iff.1 (mem_of_mem_classes (List.mem_of_getElem? hd))
    obtain ⟨p, hp⟩ := List.mem_iff_getElem?.1 hmem
    exact ⟨p, getElem?_refine.2 ⟨_, hp, _, hd, equivalence_sameClass.refl _⟩⟩

/-- There is one distinct value for each group, at the first position of the group. -/
theorem forall₂_distinctValues (sorted : Bool) (cells : List (Option α)) :
    List.Forall₂ (fun group v => ∃ p ∈ group.head?, cells[p]? = some (some v))
      (groupsOf (refine sorted (List.replicate cells.length (some 0)) cells))
      (distinctValues sorted cells) := by
  have hle : (classes sorted (members (List.replicate cells.length (some 0))
      cells).reduceOption).length ≤
        (refine sorted (List.replicate cells.length (some 0)) cells).length := by
    rw [refine, List.length_map]
    exact length_classes_le sorted _
  rw [groupsOf_eq_map hle fun g => exists_getElem?_refine_iff]
  refine forall₂_of_getElem? ?_ fun i group v hgroup hv => ?_
  · rw [List.length_map, List.length_range, classes_replicate, List.length_map]
  · have hclass : (classes sorted (members (List.replicate cells.length (some 0))
        cells).reduceOption)[i]? = some (0, v) := by
      rw [classes_replicate, List.getElem?_map, hv]
      rfl
    have hi := (List.getElem?_eq_some_iff.1 hclass).1
    obtain ⟨q, hq⟩ := exists_getElem?_refine_iff.2 hi
    rw [List.getElem?_map, List.getElem?_range hi] at hgroup
    obtain rfl := Option.some.inj hgroup
    obtain ⟨p, hp⟩ := exists_mem_head? (List.ne_nil_of_mem (mem_positionsIn.2 hq))
    exact ⟨p, hp, (getElem?_members.1 (getElem?_members_of_head? hclass hp)).2⟩

/-- A distinct value of a segment is the item at the first position of its group. -/
theorem forall₂_segment {item : Nat → Item} {start size : Nat}
    (hitem : ∀ p v, cells[p]? = some (some v) → item p = Cell.item v)
    (hle : start + size ≤ cells.length) :
    List.Forall₂ (fun group i => ∃ p ∈ group.head?, item (start + p) = i)
      (groupsOf (refine sorted (List.replicate size (some 0)) ((cells.drop start).take size)))
      ((distinctValues sorted ((cells.drop start).take size)).map Cell.item) := by
  have hlength := Edge.length_take_drop hle
  have hdistinct := forall₂_distinctValues sorted ((cells.drop start).take size)
  rw [hlength] at hdistinct
  refine List.forall₂_map_right_iff.2 (hdistinct.imp ?_)
  rintro group v ⟨p, hp, hv⟩
  have hpsize := (List.getElem?_eq_some_iff.1 hv).1
  rw [hlength] at hpsize
  rw [Edge.getElem?_take_drop hpsize] at hv
  exact ⟨p, hp, hitem _ v hv⟩

end Cells

/-! ### Distinct items of a slice -/

variable {sorted : Bool} {edge : Edge} {c : Column} {i size : Nat}

theorem groupsOf_map_none (labels : List (Option Nat)) :
    groupsOf (labels.map fun _ => none) = [] := by
  rw [List.eq_nil_iff_forall_not_mem]
  intro group hgroup
  obtain ⟨g, -, rfl, hne⟩ := mem_groupsOf.1 hgroup
  obtain ⟨p, hp⟩ := List.exists_mem_of_ne_nil _ hne
  exact getElem?_map_none_ne labels p g (mem_positionsIn.1 hp)

theorem exists_distinctItems (sorted : Bool) (hsize : edge.sizes[i]? = some size)
    (hle : Edge.total (edge.sizes.take i) + size ≤ c.size) :
    ∃ items, (distinctItems sorted edge c)[i]? = some items ∧
      List.Forall₂
        (fun group item => ∃ p ∈ group.head?, c.get (Edge.total (edge.sizes.take i) + p) = item)
        (groupsOf (refineFrom sorted (Edge.total (edge.sizes.take i)) size
          (List.replicate size (some 0)) c)) items := by
  cases c with
  | empty n =>
      refine ⟨[], ?_, ?_⟩
      · rw [distinctItems, List.getElem?_map, hsize]
        rfl
      · rw [refineFrom, groupsOf_map_none]
        exact .nil
  | typed t cells =>
      refine ⟨_, ?_, forall₂_segment (fun _ _ => Column.get_typed) hle⟩
      rw [distinctItems, List.getElem?_map, Edge.segments, Edge.getElem?_cut, hsize]
      rfl
  | mixed items =>
      have hle' : Edge.total (edge.sizes.take i) + size ≤ (items.map presentCell).length := by
        rw [List.length_map]
        exact hle
      refine ⟨_, ?_, forall₂_segment (fun _ _ => get_of_presentCells) hle'⟩
      rw [distinctItems, List.getElem?_map, Edge.segments, Edge.getElem?_cut, hsize]
      exact congrArg some (List.map_id _).symm

theorem length_distinctItems : (distinctItems sorted edge c).length = edge.parents := by
  cases c with
  | empty n => exact List.length_map _
  | typed t cells => rw [distinctItems, List.length_map, Edge.length_segments]
  | mixed items => rw [distinctItems, List.length_map, Edge.length_segments]

/-- The slice of distinct items, with a dimension of those of each segment. -/
def ofDistinct (x : Slice) (outer : List Edge) (items : List (List Item)) : Slice :=
  ⟨.column (.ofItems items.flatten), ⟨outer ++ [⟨items.map List.length⟩]⟩, x.schema, x.bag⟩

/-- The items of each segment are those of a column at the first positions of groups. -/
structure FirstItems (c : Column) (edge : Edge) (groups : List (List (List Nat)))
    (firsts : List (List Item)) : Prop where
  length : groups.length = edge.parents
  first : ∀ i segment, groups[i]? = some segment → ∃ b e items, edge.range? i = some (b, e) ∧
    firsts[i]? = some items ∧
    List.Forall₂ (fun group item => ∃ p ∈ group.head?, c.get (b + p) = item) segment items

theorem RefinedBy.firstItems {x : Slice} {refined : List (List (Option Nat))}
    (h : RefinedBy sorted edge (wholeSegments edge) [x] refined)
    (hsize : x.column.size = Edge.total edge.sizes) (hfits : edge.Fits) :
    FirstItems x.column edge (refined.map groupsOf) (distinctItems sorted edge x.column) := by
  constructor
  case length => exact (List.length_map _).trans h.length
  case first =>
    intro i segment hsegment
    obtain ⟨size, hi, rfl⟩ := h.exists_eq_groupsOf hsegment
    obtain ⟨items, hitems, hfirst⟩ :=
      exists_distinctItems sorted hi (hsize ▸ Edge.total_take_add_le hi)
    exact ⟨_, _, items, Edge.range?_of_fits hfits hi, hitems, hfirst⟩

theorem FirstItems.counts {groups : List (List (List Nat))} {firsts : List (List Item)}
    (h : FirstItems c edge groups firsts) (hlength : firsts.length = edge.parents) :
    groups.map List.length = firsts.map List.length := by
  refine map_length_eq_of_forall₂ (R := fun segment items => segment.length = items.length)
    (forall₂_of_getElem? (h.length.trans hlength.symm) ?_) fun _ _ => id
  intro i segment items hsegment hitems
  obtain ⟨b, e, items', -, hitems', hfirst⟩ := h.first i segment hsegment
  obtain rfl := Option.some.inj (hitems.symm.trans hitems')
  exact hfirst.length_eq

end Grouping

open Grouping

variable {x flag : Slice} {outer : List Edge} {edge : Edge} {sorted : Bool}

namespace Grouping

variable {items : List (List Item)}

theorem items_ofDistinct : (ofDistinct x outer items).column.items = items.flatten :=
  Column.items_ofItems _

theorem size_ofDistinct (h : (ofDistinct x outer items).shape.Valid) :
    (ofDistinct x outer items).shape.size = items.flatten.length := by
  have hfits : Edge.Fits ⟨items.map List.length⟩ := (Shape.chained_append.1 h).2.2.1
  rw [ofDistinct, Shape.size_concat, Edge.children_of_fits hfits, Edge.total_map_length]

theorem valid_ofDistinct (h : (ofDistinct x outer items).shape.Valid) :
    (ofDistinct x outer items).Valid := by
  refine ⟨h, ?_, (Column.size_ofItems _).trans (size_ofDistinct h).symm⟩
  rw [ofDistinct]
  exact List.append_ne_nil_of_right_ne_nil outer (List.cons_ne_nil _ _)

theorem valid_shape_ofDistinct {groups : List (List (List Nat))}
    (hcounts : groups.map List.length = items.map List.length)
    (h : (ofGroups outer groups).shape.Valid) : (ofDistinct x outer items).shape.Valid := by
  obtain ⟨houter, hparents, hfits, -⟩ := Shape.chained_append.1 h
  rw [hcounts] at hparents hfits
  exact Shape.chained_append.2 ⟨houter, hparents, hfits, trivial⟩

theorem eq_ofDistinct (h : (ofDistinct x outer items).shape.Valid) :
    (do
      let shape ← (⟨outer⟩ : Shape).addDims [⟨items.map List.length⟩]
      return (← Slice.ofColumn (.ofItems items.flatten) shape x.schema).withBag x.bag) =
        Except.ok (ofDistinct x outer items) := by
  have hsize := size_ofDistinct h
  rw [Shape.addDims_of_chained h]
  simp only [bind, Except.bind, pure, Except.pure]
  rw [Slice.ofColumn, if_neg, if_neg]
  · rfl
  · simp [Shape.rank]
  · rw [not_not, Column.size_ofItems]
    exact hsize

/-- From the check of its argument on, `unique` does nothing but to collect the items. -/
theorem unique_eq (hshape : x.shape = ⟨outer ++ [edge]⟩)
    (hflag : flag.item? = some (.bool sorted))
    (hvalid : checkKey sorted x.column = .ok () →
      (ofDistinct x outer (distinctItems sorted edge x.column)).shape.Valid) :
    unique x flag = (checkKey sorted x.column).map fun _ =>
      ofDistinct x outer (distinctItems sorted edge x.column) := by
  simp only [unique, getLast?_edges_of_shape hshape, removeDims_of_shape hshape, hflag,
    Option.bind_some, Item.bool?]
  cases sorted with
  | false => exact eq_ofDistinct (hvalid rfl)
  | true =>
      rw [checkKey, if_pos rfl] at hvalid ⊢
      rw [if_pos rfl]
      cases hcheck : checkSortable x.column with
      | error e => rfl
      | ok => exact eq_ofDistinct (hvalid hcheck)

theorem unique_of_checkKey_error {e : Error} (hshape : x.shape = ⟨outer ++ [edge]⟩)
    (hflag : flag.item? = some (.bool sorted)) (h : checkKey sorted x.column = .error e) :
    unique x flag = .error e ∧ groupBy sorted [x] = .error e := by
  constructor
  · rw [unique_eq hshape hflag (fun hok => nomatch h.symm.trans hok), h]
    rfl
  · refine groupBy_error_of_refineKeys hshape ?_
    rw [refineKeys_singleton hshape, h]
    rfl

section Checked

variable (hx : x.Valid) (hshape : x.shape = ⟨outer ++ [edge]⟩)
  (h : checkKey sorted x.column = .ok ())

include hshape h in
theorem refineKeys_of_checkKey_ok :
    refineKeys sorted ⟨outer ++ [edge]⟩ edge (wholeSegments edge) [x] =
      .ok (refineColumn sorted edge (wholeSegments edge) x.column) := by
  rw [refineKeys_singleton hshape, h]
  rfl

include hx hshape h

theorem firstItems_distinctItems :
    FirstItems x.column edge ((refineColumn sorted edge (wholeSegments edge) x.column).map groupsOf)
      (distinctItems sorted edge x.column) := by
  have hshapes : ∀ key ∈ [x], key.shape = ⟨outer ++ [edge]⟩ := List.forall_mem_singleton.2 hshape
  have hby := refinedBy_of_refineKeys hshapes length_wholeSegments
    (refineKeys_of_checkKey_ok hshape h)
  exact hby.firstItems (Slice.size_column_of_shape hx hshape)
    (Slice.fits_of_keys (List.cons_ne_nil x []) (List.forall_mem_singleton.2 hx) hshapes)

theorem valid_shape_distinctItems :
    (ofDistinct x outer (distinctItems sorted edge x.column)).shape.Valid := by
  obtain ⟨-, -, hnew, -⟩ := groupBy_of_refineKeys_eq_ok (List.cons_ne_nil x [])
    (List.forall_mem_singleton.2 hx) (List.forall_mem_singleton.2 hshape)
    (refineKeys_of_checkKey_ok hshape h)
  exact valid_shape_ofDistinct ((firstItems_distinctItems hx hshape h).counts length_distinctItems)
    hnew

theorem unique_of_checkKey (hflag : flag.item? = some (.bool sorted)) :
    unique x flag = .ok (ofDistinct x outer (distinctItems sorted edge x.column)) := by
  rw [unique_eq hshape hflag fun _ => valid_shape_distinctItems hx hshape h, h]
  rfl

end Checked

/-- Where the argument passes its check, the distinct items are the first ones of groups. -/
theorem unique_of_checkKey_ok (hx : x.Valid) (hshape : x.shape = ⟨outer ++ [edge]⟩)
    (hflag : flag.item? = some (.bool sorted)) (h : checkKey sorted x.column = .ok ()) :
    ∃ groups items, unique x flag = .ok (ofDistinct x outer items) ∧
      groupBy sorted [x] = .ok (ofGroups outer groups) ∧
      (∀ p ∈ groups.flatten.flatten, (Int64.ofNat p).toInt = p) ∧
      (ofDistinct x outer items).Valid ∧ groups.map List.length = items.map List.length ∧
      FirstItems x.column edge groups items := by
  have hfirst := firstItems_distinctItems hx hshape h
  obtain ⟨groups, hgroupBy, -, -, hgrouped, hperm⟩ :=
    groupBy_of_refineKeys_eq_ok (List.cons_ne_nil x []) (List.forall_mem_singleton.2 hx)
      (List.forall_mem_singleton.2 hshape) (refineKeys_of_checkKey_ok hshape h)
  refine ⟨_, _, unique_of_checkKey hx hshape h hflag, hgroupBy, fun p hp => ?_,
    valid_ofDistinct (valid_shape_distinctItems hx hshape h), hfirst.counts length_distinctItems,
    hfirst⟩
  exact hgrouped.fits p ((List.Perm.flatten_congr hperm).flatten.mem_iff.1 hp)

end Grouping

/-- `unique` agrees with grouping by its argument as the only key: it fails where that
fails, and else its items are those at the first positions of the groups. -/
theorem unique_groupBy (hx : x.Valid) (hshape : x.shape = ⟨outer ++ [edge]⟩)
    (hflag : flag.item? = some (.bool sorted)) :
    (∀ e, unique x flag = .error e ↔ groupBy sorted [x] = .error e) ∧
      ∀ u g, unique x flag = .ok u → groupBy sorted [x] = .ok g → ∃ groups,
        g = ofGroups outer groups ∧ (∀ p ∈ groups.flatten.flatten, (Int64.ofNat p).toInt = p) ∧
        u.Valid ∧ u.shape = ⟨outer ++ [⟨groups.map List.length⟩]⟩ ∧ u.schema = x.schema ∧
        u.bag = x.bag ∧ FirstItems x.column edge groups
          ((⟨groups.map List.length⟩ : Edge).segments u.column.items) := by
  cases hcheck : checkKey sorted x.column with
  | error e =>
      obtain ⟨hunique, hgroupBy⟩ := unique_of_checkKey_error hshape hflag hcheck
      rw [hunique, hgroupBy]
      exact ⟨fun _ => Iff.rfl, fun u g hu => nomatch hu⟩
  | ok =>
      obtain ⟨groups, items, hunique, hgroupBy, hfits, hvalid, hcounts, hfirst⟩ :=
        unique_of_checkKey_ok hx hshape hflag hcheck
      rw [hunique, hgroupBy]
      refine ⟨fun e => iff_of_false nofun nofun, fun u g hu hg => ?_⟩
      obtain rfl := Except.ok.inj hu
      obtain rfl := Except.ok.inj hg
      refine ⟨groups, rfl, hfits, hvalid, ?_, rfl, rfl, ?_⟩
      · rw [hcounts]
        rfl
      · rw [hcounts, items_ofDistinct, Edge.segments_flatten]
        exact hfirst

namespace Repeats

/-- 1, negative zero, a gap, positive zero, and positive zero in a segment of its own. -/
def reals : Slice :=
  ⟨.column (.typed .float32 [some ⟨0x3f800000⟩, some ⟨0x80000000⟩, none, some ⟨0⟩, some ⟨0⟩]),
    TwoKeys.shape, .dtype .float32, none⟩

def ascending : Slice :=
  .ofItem (.bool true) (.dtype .bool)

def distinct : Slice :=
  ofDistinct reals [⟨[2]⟩]
    [[.float32 ⟨0x80000000⟩, .float32 ⟨0x3f800000⟩], [.float32 ⟨0⟩]]

def grouped : Slice :=
  ofGroups [⟨[2]⟩] [[[1, 3], [0]], [[0]]]

theorem unique_eq_distinct : unique reals ascending = .ok distinct := by
  cbv

theorem groupBy_eq_grouped : groupBy true [reals] = .ok grouped := by
  cbv

/-- The zero that comes first stands for both in its segment. -/
theorem unique_reals :
    (∀ e, unique reals ascending = .error e ↔ groupBy true [reals] = .error e) ∧
      ∃ groups, grouped = ofGroups [⟨[2]⟩] groups ∧
        (∀ p ∈ groups.flatten.flatten, (Int64.ofNat p).toInt = p) ∧ distinct.Valid ∧
        distinct.shape = ⟨[⟨[2]⟩, ⟨groups.map List.length⟩]⟩ ∧
        distinct.schema = .dtype .float32 ∧ distinct.bag = none ∧
        FirstItems reals.column ⟨[4, 1]⟩ groups
          ((⟨groups.map List.length⟩ : Edge).segments distinct.column.items) := by
  have hvalid : reals.Valid := ⟨TwoKeys.valid_shape, by decide, rfl⟩
  have hshape : reals.shape = ⟨[⟨[2]⟩] ++ [⟨[4, 1]⟩]⟩ := rfl
  have hagree := unique_groupBy hvalid hshape (rfl : ascending.item? = some (.bool true))
  exact ⟨hagree.1, hagree.2 distinct grouped unique_eq_distinct groupBy_eq_grouped⟩

end Repeats

end ObjectGraph
