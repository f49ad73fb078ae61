import ObjectGraph.Proofs.Grouping.Failure
import ObjectGraph.Proofs.Grouping.Unique
import ObjectGraph.Proofs.Value.FloatKey

/-!
# Items that are one key to grouping

Grouping and distinct values compare the keys of items. Two present items have one key if
they match: if they are equal, both zeros of one floating-point type, or NaNs of it that
differ in the quiet bit only. So a signaling NaN is in one group with a quiet one, and one
of the two is lost among the distinct values, though neither is a zero and the items are
different.
-/

namespace ObjectGraph

namespace Grouping

variable {sorted : Bool} {keys : List Slice} {edge : Edge} {c : Column} {p q start size i : Nat}

theorem sharesKey_iff_matches : SharesKey c p q ↔ (c.get p).Matches (c.get q) := by
  constructor
  · rintro ⟨hp, -, hkey⟩
    exact (Item.key_eq_iff hp).1 hkey
  · intro h
    obtain ⟨hp, hq⟩ := h.isPresent
    exact ⟨hp, hq, (Item.key_eq_iff hp).2 h⟩

/-! ### Groups -/

theorem exists_mem_groupsOf_iff_together {labels : List (Option Nat)} (hbounded : Bounded labels) :
    (∃ group ∈ groupsOf labels, p ∈ group ∧ q ∈ group) ↔ Together labels p q := by
  constructor
  · rintro ⟨group, hgroup, hp, hq⟩
    obtain ⟨g, -, rfl, -⟩ := mem_groupsOf.1 hgroup
    exact ⟨g, mem_positionsIn.1 hp, mem_positionsIn.1 hq⟩
  · rintro ⟨g, hp, hq⟩
    have hmem := mem_positionsIn.2 hp
    exact ⟨_, mem_groupsOf.2 ⟨g, hbounded p g hp, rfl, List.ne_nil_of_mem hmem⟩, hmem,
      mem_positionsIn.2 hq⟩

theorem together_replicate (hp : p < size) (hq : q < size) :
    Together (List.replicate size (some 0)) p q :=
  ⟨0, getElem?_replicate_zero.2 ⟨hp, rfl⟩, getElem?_replicate_zero.2 ⟨hq, rfl⟩⟩

/-- Groups of the last dimension. Those of one segment have no position in common, and two
positions of the segment are in one group exactly when their items match in every key. -/
structure MatchedBy (keys : List Slice) (edge : Edge) (groups : List (List (List Nat))) : Prop where
  length : groups.length = edge.parents
  disjoint : ∀ segment ∈ groups, segment.Pairwise List.Disjoint
  together_iff : ∀ i segment, groups[i]? = some segment → ∃ b e, edge.range? i = some (b, e) ∧
    ∀ p < e - b, ∀ q < e - b, (∃ group ∈ segment, p ∈ group ∧ q ∈ group) ↔
      ∀ key ∈ keys, (key.column.get (b + p)).Matches (key.column.get (b + q))
  fits : ∀ p ∈ groups.flatten.flatten, (Int64.ofNat p).toInt = p

theorem RefinedBy.matchedBy {refined : List (List (Option Nat))}
    (h : RefinedBy sorted edge (wholeSegments edge) keys refined) (hfits : edge.Fits)
    (hsize : ∀ key ∈ keys, key.column.size = Edge.total edge.sizes)
    (hpositions : ∀ p ∈ (refined.map groupsOf).flatten.flatten, (Int64.ofNat p).toInt = p) :
    MatchedBy keys edge (refined.map groupsOf) := by
  constructor
  case length => rw [List.length_map, h.length]
  case disjoint =>
    intro segment hsegment
    obtain ⟨labels, -, rfl⟩ := List.mem_map.1 hsegment
    exact (ordered_ne labels).groupsOf.imp fun hne p hp hp' => hne p hp p hp' rfl
  case together_iff =>
    intro i segment hsegment
    obtain ⟨size, hi, rfl⟩ := h.exists_eq_groupsOf hsegment
    refine ⟨_, _, Edge.range?_of_fits hfits hi, fun p hp q hq => ?_⟩
    rw [Nat.add_sub_cancel_left] at hp hq
    rw [exists_mem_groupsOf_iff_together (bounded_refineFromKeys (bounded_replicate size) keys),
      together_refineFromKeys List.length_replicate (le_size_column hsize hi),
      and_iff_right (together_replicate hp hq)]
    simp only [sharesKey_iff_matches]
  case fits => exact hpositions

/-! ### Distinct items -/

theorem mem_reduceOption_members {α : Type} {cells : List (Option α)} {v : α} :
    (0, v) ∈ (members (List.replicate cells.length (some 0)) cells).reduceOption ↔
      some v ∈ cells := by
  rw [members_replicate, List.reduceOption_mem_iff, List.mem_map]
  simp

section Cells

variable {α : Type} [DecidableEq α] [Cell α] {cells : List (Option α)} {v w : α}

theorem pairwise_distinctValues (sorted : Bool) (cells : List (Option α)) :
    (distinctValues sorted cells).Pairwise fun v w => Cell.key v ≠ Cell.key w := by
  have hclasses := pairwise_classes sorted
    (members (List.replicate cells.length (some 0)) cells).reduceOption
  rw [classes_replicate, List.pairwise_map] at hclasses
  refine hclasses.imp fun hvw hkey => ?_
  rw [Bool.eq_false_iff, Ne, sameClass_iff] at hvw
  exact hvw ⟨rfl, hkey⟩

theorem mem_of_mem_distinctValues (h : v ∈ distinctValues sorted cells) : some v ∈ cells := by
  have hclass : (0, v) ∈ classes sorted
      (members (List.replicate cells.length (some 0)) cells).reduceOption := by
    rw [classes_replicate]
    exact List.mem_map_of_mem h
  exact mem_reduceOption_members.1 (mem_of_mem_classes hclass)

theorem exists_mem_distinctValues (sorted : Bool) (h : some v ∈ cells) :
    ∃ w ∈ distinctValues sorted cells, Cell.key w = Cell.key v := by
  obtain ⟨d, hd, hvd⟩ := exists_mem_classes sorted (mem_reduceOption_members.2 h)
  rw [classes_replicate] at hd
  obtain ⟨w, hw, rfl⟩ := List.mem_map.1 hd
  exact ⟨w, hw, (sameClass_iff.1 hvd).2.symm⟩

end Cells

/-- Present items of one segment, of which no two match, and which every present item of the
segment has a match among. -/
structure Represents (item : Nat → Item) (start size : Nat) (items : List Item) : Prop where
  mem : ∀ a ∈ items, a.isPresent = true ∧ ∃ p < size, item (start + p) = a
  distinct : items.Pairwise fun a b => ¬ a.Matches b
  exists_matches : ∀ p < size, (item (start + p)).isPresent = true →
    ∃ a ∈ items, a.Matches (item (start + p))

theorem Shows.represents {α : Type} [DecidableEq α] [Cell α] {cells : List (Option α)}
    {item : Nat → Item} (hcells : Shows cells item)
    (hitem : ∀ p v, cells[p]? = some (some v) → item p = Cell.item v)
    (hle : start + size ≤ cells.length) :
    Represents item start size
      ((distinctValues sorted ((cells.drop start).take size)).map Cell.item) := by
  have hat : ∀ v, v ∈ distinctValues sorted ((cells.drop start).take size) →
      ∃ p < size, cells[start + p]? = some (some v) := by
    intro v hv
    obtain ⟨p, hp⟩ := List.mem_iff_getElem?.1 (mem_of_mem_distinctValues hv)
    have hlt := (List.getElem?_eq_some_iff.1 hp).1
    rw [Edge.length_take_drop hle] at hlt
    rw [Edge.getElem?_take_drop hlt] at hp
    exact ⟨p, hlt, hp⟩
  constructor
  case mem =>
    intro a ha
    obtain ⟨v, hv, rfl⟩ := List.mem_map.1 ha
    obtain ⟨p, hp, hvp⟩ := hat v hv
    rw [← hitem _ v hvp]
    exact ⟨(hcells.present_iff _).1 ⟨v, hvp⟩, p, hp, rfl⟩
  case distinct =>
    refine List.pairwise_map.2 ((pairwise_distinctValues sorted _).imp_of_mem ?_)
    intro v w hv hw hkey hmatches
    obtain ⟨p, -, hp⟩ := hat v hv
    obtain ⟨q, -, hq⟩ := hat w hw
    rw [← hitem _ v hp, ← hitem _ w hq] at hmatches
    exact hkey <| (hcells.key_iff _ _ v w hp hq).2 <|
      (Item.key_eq_iff hmatches.isPresent.1).2 hmatches
  case exists_matches =>
    intro p hp hpresent
    obtain ⟨v, hv⟩ := (hcells.present_iff _).2 hpresent
    have hmem : some v ∈ (cells.drop start).take size :=
      List.mem_of_getElem? ((Edge.getElem?_take_drop hp).trans hv)
    obtain ⟨w, hw, hkey⟩ := exists_mem_distinctValues sorted hmem
    obtain ⟨q, -, hq⟩ := hat w hw
    refine ⟨_, List.mem_map_of_mem hw, ?_⟩
    rw [← hitem _ w hq, ← Item.key_eq_iff ((hcells.present_iff _).1 ⟨w, hq⟩)]
    exact (hcells.key_iff _ _ w v hq hv).1 hkey

/-- Distinct items of the last dimension. -/
structure RepresentedBy (c : Column) (edge : Edge) (items : List (List Item)) : Prop where
  length : items.length = edge.parents
  represents : ∀ i firsts, items[i]? = some firsts → ∃ b e, edge.range? i = some (b, e) ∧
    Represents c.get b (e - b) firsts

theorem represents_distinctItems {firsts : List Item} (hsize : edge.sizes[i]? = some size)
    (hle : Edge.total (edge.sizes.take i) + size ≤ c.size)
    (h : (distinctItems sorted edge c)[i]? = some firsts) :
    Represents c.get (Edge.total (edge.sizes.take i)) size firsts := by
  cases c with
  | empty n =>
      rw [distinctItems, List.getElem?_map, hsize] at h
      obtain rfl := Option.some.inj h
      refine ⟨List.forall_mem_nil _, .nil, fun p hp hpresent => ?_⟩
      rw [Column.get_empty] at hpresent
      cases hpresent
  | typed t cells =>
      rw [distinctItems, List.getElem?_map, Edge.segments, Edge.getElem?_cut, hsize] at h
      obtain rfl := Option.some.inj h
      exact (shows_typed t cells).represents (fun _ _ => Column.get_typed) hle
  | mixed items =>
      rw [distinctItems, List.getElem?_map, Edge.segments, Edge.getElem?_cut, hsize] at h
      obtain rfl := Option.some.inj h
      rw [Column.size, ← List.length_map presentCell] at hle
      rw [← List.map_id (distinctValues sorted _)]
      exact (shows_mixed items).represents (fun _ _ => get_of_presentCells) hle

theorem representedBy_distinctItems (hfits : edge.Fits) (hsize : c.size = Edge.total edge.sizes) :
    RepresentedBy c edge (distinctItems sorted edge c) := by
  refine ⟨length_distinctItems, fun i firsts h => ?_⟩
  have hi := (List.getElem?_eq_some_iff.1 h).1
  rw [length_distinctItems] at hi
  have hsizes := List.getElem?_eq_getElem hi
  refine ⟨_, _, Edge.range?_of_fits hfits hsizes, ?_⟩
  rw [Nat.add_sub_cancel_left]
  exact represents_distinctItems hsizes (hsize ▸ Edge.total_take_add_le hsizes) h

end Grouping

open Grouping

variable {sorted : Bool} {keys : List Slice} {outer : List Edge} {edge : Edge}

/-- `groupBy` puts two positions in one group when their items match in every key, sorted or
not, and `unique` keeps one item of those that match in a segment of a key. -/
theorem groupBy_unique_matches (hkeys : keys ≠ []) (hvalid : ∀ key ∈ keys, key.Valid)
    (hshape : ∀ key ∈ keys, key.shape = ⟨outer ++ [edge]⟩)
    (hsortable : sorted = true → ∀ key ∈ keys, key.column.Sortable) :
    (∃ groups, groupBy sorted keys = .ok (ofGroups outer groups) ∧ MatchedBy keys edge groups) ∧
      ∀ x ∈ keys, ∀ flag : Slice, flag.item? = some (.bool sorted) → ∃ items,
        unique x flag = .ok (ofDistinct x outer items) ∧ RepresentedBy x.column edge items := by
  have hfits := Slice.fits_of_keys hkeys hvalid hshape
  have hsize := Slice.size_column_of_keys hvalid hshape
  constructor
  · obtain ⟨refined, hrefined⟩ := (exists_refineKeys_eq_ok_iff edge (wholeSegments edge)).2
      fun key hkey => ⟨hshape key hkey, fun hs => hsortable hs key hkey⟩
    obtain ⟨groups, hgroupBy, -, -, hgrouped, hperm⟩ :=
      groupBy_of_refineKeys_eq_ok hkeys hvalid hshape hrefined
    have hby := refinedBy_of_refineKeys hshape length_wholeSegments hrefined
    refine ⟨_, hgroupBy, hby.matchedBy hfits hsize fun p hp => ?_⟩
    exact hgrouped.fits p ((List.Perm.flatten_congr hperm).flatten.mem_iff.1 hp)
  · intro x hx flag hflag
    have hcheck := checkKey_eq_ok_iff.2 fun hs => hsortable hs x hx
    exact ⟨_, unique_of_checkKey (hvalid x hx) (hshape x hx) hcheck hflag,
      representedBy_distinctItems hfits (hsize x hx)⟩

namespace TwoNaNs

/-- NaNs of one payload, the first one signaling. -/
def signaling : Binary.Pattern .single :=
  ⟨0x7f800001⟩

def quiet : Binary.Pattern .single :=
  ⟨0x7fc00001⟩

/-- Both NaNs, a NaN of another payload, a gap, and the quiet NaN in a segment of its own. -/
def singles : Slice :=
  ⟨.column (.typed .float32 [some signaling, some quiet, some ⟨0x7fc00002⟩, none, some quiet]),
    TwoKeys.shape, .dtype .float32, none⟩

/-- Both zeros of one type and both NaNs of the other in one segment, a text in another. -/
def values : Slice :=
  ⟨.column (.mixed [.float64 ⟨0⟩, .float64 ⟨0x8000000000000000⟩, .float32 signaling,
    .float32 quiet, .text "a"]), TwoKeys.shape, .dtype .object, none⟩

def flag (sorted : Bool) : Slice :=
  .ofItem (.bool sorted) (.dtype .bool)

/-- Sorted by the column of one type, and in the order of first positions by both. -/
theorem groupBy_unique_singles_values :
    ((∃ groups, groupBy true [singles] = .ok (ofGroups [⟨[2]⟩] groups) ∧
        MatchedBy [singles] ⟨[4, 1]⟩ groups) ∧
      ∃ items, unique singles (flag true) = .ok (ofDistinct singles [⟨[2]⟩] items) ∧
        RepresentedBy singles.column ⟨[4, 1]⟩ items) ∧
    (∃ groups, groupBy false [singles, values] = .ok (ofGroups [⟨[2]⟩] groups) ∧
        MatchedBy [singles, values] ⟨[4, 1]⟩ groups) ∧
      ∃ items, unique values (flag false) = .ok (ofDistinct values [⟨[2]⟩] items) ∧
        RepresentedBy values.column ⟨[4, 1]⟩ items := by
  have hsingles : ∀ key ∈ [singles], key.Valid :=
    List.forall_mem_singleton.2 ⟨TwoKeys.valid_shape, by decide, rfl⟩
  have hboth : ∀ key ∈ [singles, values], key.Valid :=
    List.forall_mem_cons.2 ⟨hsingles _ List.mem_cons_self,
      List.forall_mem_singleton.2 ⟨TwoKeys.valid_shape, by decide, rfl⟩⟩
  have hshape : ∀ key ∈ [singles, values], key.shape = ⟨[⟨[2]⟩] ++ [⟨[4, 1]⟩]⟩ :=
    List.forall_mem_cons.2 ⟨rfl, List.forall_mem_singleton.2 rfl⟩
  have hsortable : true = true → ∀ key ∈ [singles], key.column.Sortable :=
    fun _ => List.forall_mem_singleton.2 (rfl : singles.column.Sortable)
  have hunsorted : false = true → ∀ key ∈ [singles, values], key.column.Sortable := nofun
  obtain ⟨hgroups, hitems⟩ := groupBy_unique_matches (List.cons_ne_nil _ _) hsingles
    (List.forall_mem_singleton.2 (hshape _ List.mem_cons_self)) hsortable
  obtain ⟨hgroups', hitems'⟩ := groupBy_unique_matches (List.cons_ne_nil _ _) hboth hshape hunsorted
  exact ⟨⟨hgroups, hitems _ List.mem_cons_self _ rfl⟩, hgroups',
    hitems' _ (List.mem_cons_of_mem _ List.mem_cons_self) _ rfl⟩

/-- The two NaNs are different and no zeros, and they are one key in a column of one type and
in a mixed one. -/
theorem signaling_quiet_one_key : signaling ≠ quiet ∧ signaling.isNaN = true ∧ quiet.isNaN = true ∧
    groupBy false [singles] = .ok (ofGroups [⟨[2]⟩] [[[0, 1], [2]], [[0]]]) ∧
    groupBy true [singles] = .ok (ofGroups [⟨[2]⟩] [[[0, 1], [2]], [[0]]]) ∧
    unique singles (flag false) = .ok (ofDistinct singles [⟨[2]⟩]
      [[.float32 signaling, .float32 ⟨0x7fc00002⟩], [.float32 quiet]]) ∧
    groupBy false [values] = .ok (ofGroups [⟨[2]⟩] [[[0, 1], [2, 3]], [[0]]]) ∧
    unique values (flag false) = .ok (ofDistinct values [⟨[2]⟩]
      [[.float64 ⟨0⟩, .float32 signaling], [.text "a"]]) := by
  refine ⟨by decide, by decide, by decide, ?_, ?_, ?_, ?_, ?_⟩ <;> cbv

end TwoNaNs

end ObjectGraph
