import ObjectGraph.Proofs.Column.Items
import ObjectGraph.Proofs.Grouping.Partition
import ObjectGraph.Proofs.Shape.Segment

/-!
# Grouping by keys

`groupBy` starts with one group for each segment and refines the groups by one key after
another. After some keys the labels of a segment group the positions that are present in
all of these keys, by equality in all of them. So at the end the groups of every segment
are the classes of the tuples of keys, and the result has the shape of these groups.
-/

namespace ObjectGraph

namespace Grouping

/-! ### Segments -/

/-- The labels of segments of the given sizes, from a position on. -/
inductive SegmentsLabelled (present : Nat → Prop) (same : Nat → Nat → Prop) :
    Nat → List Nat → List (List (Option Nat)) → Prop
  | nil {start : Nat} : SegmentsLabelled present same start [] []
  | cons {start size : Nat} {sizes : List Nat} {labels : List (Option Nat)}
      {segments : List (List (Option Nat))} :
      Labelled labels size (fun p => present (start + p))
        (fun p q => same (start + p) (start + q)) →
      SegmentsLabelled present same (start + size) sizes segments →
      SegmentsLabelled present same start (size :: sizes) (labels :: segments)

variable {present present' : Nat → Prop} {same same' : Nat → Nat → Prop} {start size i : Nat}
  {sizes : List Nat} {labels : List (Option Nat)} {segments : List (List (Option Nat))}

theorem SegmentsLabelled.congr (h : SegmentsLabelled present same start sizes segments)
    (hpresent : ∀ p, present p ↔ present' p)
    (hsame : ∀ p q, present p → present q → (same p q ↔ same' p q)) :
    SegmentsLabelled present' same' start sizes segments := by
  induction h with
  | nil => exact .nil
  | cons hlabels _ ih =>
      exact .cons (hlabels.congr (fun p _ => hpresent _) fun p _ q _ => hsame _ _) ih

theorem SegmentsLabelled.length_eq (h : SegmentsLabelled present same start sizes segments) :
    segments.length = sizes.length := by
  induction h with
  | nil => rfl
  | cons _ _ ih => rw [List.length_cons, ih, List.length_cons]

theorem SegmentsLabelled.exists_size (h : SegmentsLabelled present same start sizes segments)
    (hlabels : segments[i]? = some labels) : ∃ size, sizes[i]? = some size :=
  ⟨_, List.getElem?_eq_getElem (h.length_eq ▸ (List.getElem?_eq_some_iff.1 hlabels).1)⟩

theorem SegmentsLabelled.labelled (h : SegmentsLabelled present same start sizes segments)
    (hsize : sizes[i]? = some size) (hlabels : segments[i]? = some labels) :
    Labelled labels size (fun p => present (start + Edge.total (sizes.take i) + p))
      fun p q => same (start + Edge.total (sizes.take i) + p)
        (start + Edge.total (sizes.take i) + q) := by
  induction h generalizing i with
  | nil => cases hsize
  | cons hfirst _ ih =>
      cases i with
      | zero =>
          obtain rfl := Option.some.inj hsize
          obtain rfl := Option.some.inj hlabels
          exact hfirst
      | succ i =>
          have hrest := ih hsize hlabels
          rw [List.take_succ_cons, Edge.total_cons, ← Nat.add_assoc]
          exact hrest

theorem segmentsLabelled_replicate (start : Nat) (sizes : List Nat) :
    SegmentsLabelled (fun _ => True) (fun _ _ => True) start sizes
      (sizes.map fun size => List.replicate size (some 0)) := by
  induction sizes generalizing start with
  | nil => exact .nil
  | cons size sizes ih => exact .cons (labelled_replicate size) (ih (start + size))

theorem SegmentsLabelled.none (h : SegmentsLabelled present same start sizes segments) :
    SegmentsLabelled (fun _ => False) same start sizes
      (segments.map fun labels => labels.map fun _ => Option.none) := by
  induction h with
  | nil => exact .nil
  | cons hlabels _ ih => exact .cons (labelled_none hlabels.length _) ih

/-- The groups of all segments hold the positions that are present. -/
theorem SegmentsLabelled.length_flatten [DecidablePred present]
    (h : SegmentsLabelled present same start sizes segments) :
    (segments.map groupsOf).flatten.flatten.length =
      (List.range' start (Edge.total sizes)).countP fun p => present p := by
  induction h with
  | nil => rfl
  | @cons start size sizes labels segments hlabels _ ih =>
      have hfirst : (List.range size).countP (fun p => present (start + p)) =
          (List.range' start size).countP fun p => present p := by
        rw [List.range'_eq_map_range, List.countP_map]
        rfl
      rw [List.map_cons, List.flatten_cons, List.flatten_append, List.length_append, ih,
        hlabels.grouped.length_flatten, hfirst, Edge.total_cons, ← List.range'_append_1,
        List.countP_append]

/-! ### Keys -/

/-- The cells of a column and its items. -/
structure Shows {α : Type} [Cell α] (cells : List (Option α)) (item : Nat → Item) : Prop where
  present_iff : ∀ p, (∃ v, cells[p]? = some (some v)) ↔ (item p).isPresent = true
  key_iff : ∀ p q v w, cells[p]? = some (some v) → cells[q]? = some (some w) →
    (Cell.key v = Cell.key w ↔ (item p).key = (item q).key)

theorem shows_typed (t : ElementType) (cells : List (Option t.Value)) :
    Shows cells (Column.typed t cells).get := by
  constructor
  case present_iff =>
    intro p
    constructor
    · rintro ⟨v, hv⟩
      rw [Column.get_typed hv, Item.isPresent, ElementType.type?_item]
      rfl
    · intro hpresent
      cases hcell : cells[p]? with
      | none => simp [Column.get, Column.items, hcell, Item.isPresent, Item.type?] at hpresent
      | some cell =>
          cases cell with
          | none =>
              simp [Column.get, Column.items, hcell, Column.cellItem, Item.isPresent, Item.type?]
                at hpresent
          | some v => exact ⟨v, rfl⟩
  case key_iff =>
    intro p q v w hv hw
    have hkey : ∀ v : t.Value, (Cell.item v : Item).key = Cell.item (Cell.key v) :=
      fun v => (ElementType.item_key t v).symm
    rw [Column.get_typed hv, Column.get_typed hw, hkey, hkey]
    constructor
    · intro heq
      rw [heq]
    · intro heq
      have hvalue := congrArg t.value? heq
      rw [ElementType.value?_item, ElementType.value?_item] at hvalue
      exact Option.some.inj hvalue

theorem getElem?_presentCells {items : List Item} {p : Nat} {v : Item} :
    (items.map presentCell)[p]? = some (some v) ↔ items[p]? = some v ∧ v.isPresent = true := by
  rw [List.getElem?_map, Option.map_eq_some_iff]
  constructor
  · rintro ⟨item, hitem, hv⟩
    unfold presentCell at hv
    split at hv
    · rename_i hpresent
      obtain rfl := Option.some.inj hv
      exact ⟨hitem, hpresent⟩
    · cases hv
  · rintro ⟨hitem, hpresent⟩
    exact ⟨v, hitem, if_pos hpresent⟩

theorem get_of_presentCells {items : List Item} {p : Nat} {v : Item}
    (h : (items.map presentCell)[p]? = some (some v)) : (Column.mixed items).get p = v := by
  rw [Column.get, Column.items, (getElem?_presentCells.1 h).1, Option.getD_some]

theorem shows_mixed (items : List Item) :
    Shows (items.map presentCell) (Column.mixed items).get := by
  constructor
  case present_iff =>
    intro p
    simp only [getElem?_presentCells, Column.get, Column.items]
    cases hitem : items[p]? with
    | none => simp [Item.isPresent, Item.type?]
    | some item => simp
  case key_iff =>
    intro p q v w hv hw
    rw [get_of_presentCells hv, get_of_presentCells hw]
    rfl

theorem SegmentsLabelled.refineCells {α : Type} [DecidableEq α] [Cell α]
    {cells : List (Option α)} {item : Nat → Item} (hcells : Shows cells item)
    (h : SegmentsLabelled present same start sizes segments)
    (hlength : start + Edge.total sizes ≤ cells.length) :
    SegmentsLabelled (fun p => present p ∧ (item p).isPresent = true)
      (fun p q => same p q ∧ (item p).key = (item q).key) start sizes
      (segments.zipWith (refine false) (Edge.cut sizes (cells.drop start))) := by
  induction h with
  | nil => exact .nil
  | @cons start size sizes labels segments hlabels _ ih =>
      rw [Edge.total_cons] at hlength
      have hcut : ((cells.drop start).take size).length = size :=
        Edge.length_take_drop (by omega)
      have hget : ∀ p < size, ((cells.drop start).take size)[p]? = cells[start + p]? :=
        fun p hp => Edge.getElem?_take_drop hp
      rw [Edge.cut, List.zipWith_cons_cons, List.drop_drop]
      refine .cons ((hlabels.refine hcut).congr (fun p hp => ?_) fun p hp q hq hpp hpq => ?_)
        (ih (by omega))
      · rw [hget p hp, hcells.present_iff]
      · obtain ⟨-, v, hv⟩ := hpp
        obtain ⟨-, w, hw⟩ := hpq
        rw [hget p hp] at hv
        rw [hget q hq] at hw
        rw [hget p hp, hget q hq, ← hcells.key_iff _ _ v w hv hw]
        simp [hv, hw]

theorem SegmentsLabelled.refineColumn {edge : Edge} {c : Column}
    (h : SegmentsLabelled present same 0 edge.sizes segments)
    (hsize : c.size = Edge.total edge.sizes) :
    SegmentsLabelled (fun p => present p ∧ (c.get p).isPresent = true)
      (fun p q => same p q ∧ (c.get p).key = (c.get q).key) 0 edge.sizes
      (refineColumn false edge segments c) := by
  cases c with
  | empty n =>
      refine h.none.congr (fun p => ?_) fun p q hp => hp.elim
      simp [Column.get_empty, Item.isPresent, Item.type?]
  | typed t cells =>
      exact h.refineCells (shows_typed t cells) (by rw [Nat.zero_add, ← hsize]; exact Nat.le_refl _)
  | mixed items =>
      refine h.refineCells (shows_mixed items) ?_
      rw [Nat.zero_add, List.length_map, ← hsize]
      exact Nat.le_refl _

/-- A position has an item in every key. -/
def PresentIn (keys : List Slice) (p : Nat) : Prop :=
  ∀ key ∈ keys, (key.column.get p).isPresent = true

instance (keys : List Slice) : DecidablePred (PresentIn keys) :=
  fun p => inferInstanceAs (Decidable (∀ key ∈ keys, (key.column.get p).isPresent = true))

/-- Two positions have equal grouping keys in every key. -/
def SameKeys (keys : List Slice) (p q : Nat) : Prop :=
  ∀ key ∈ keys, (key.column.get p).key = (key.column.get q).key

theorem SegmentsLabelled.exists_refineKeys {keys : List Slice} {shape : Shape} {edge : Edge}
    (h : SegmentsLabelled present same 0 edge.sizes segments)
    (hshape : ∀ key ∈ keys, key.shape = shape)
    (hsize : ∀ key ∈ keys, key.column.size = Edge.total edge.sizes) :
    ∃ refined, refineKeys false shape edge segments keys = .ok refined ∧
      SegmentsLabelled (fun p => present p ∧ PresentIn keys p)
        (fun p q => same p q ∧ SameKeys keys p q) 0 edge.sizes refined := by
  -- What a key leaves together is what is together before the next one.
  induction keys generalizing segments present same with
  | nil => exact ⟨segments, rfl, h.congr (by simp [PresentIn]) (by simp [SameKeys])⟩
  | cons key keys ih =>
      have hfirst := h.refineColumn (hsize key List.mem_cons_self)
      obtain ⟨refined, hrefined, hlabelled⟩ := ih hfirst
        (fun k hk => hshape k (List.mem_cons_of_mem key hk))
        (fun k hk => hsize k (List.mem_cons_of_mem key hk))
      have hequivalent : key.shape.isEquivalentTo shape = true := by
        rw [hshape key List.mem_cons_self, Shape.isEquivalentTo, beq_self_eq_true]
      refine ⟨refined, ?_, hlabelled.congr (fun p => ?_) fun p q _ _ => ?_⟩
      · simp only [refineKeys, hequivalent, Bool.not_true, Bool.false_eq_true, if_false]
        exact hrefined
      · simp [PresentIn, and_assoc]
      · simp [SameKeys, and_assoc]

/-! ### Groups of a slice -/

/-- The groups of the last dimension by the tuples of keys, segment by segment. The
positions of a group are counted from the start of its segment. -/
structure GroupedBy (keys : List Slice) (edge : Edge) (groups : List (List (List Nat))) :
    Prop where
  length : groups.length = edge.parents
  grouped : ∀ i segment, groups[i]? = some segment → ∃ b e, edge.range? i = some (b, e) ∧
    Grouped (e - b) (fun p => PresentIn keys (b + p)) (fun p q => SameKeys keys (b + p) (b + q))
      segment
  count : groups.flatten.flatten.length =
    (List.range (Edge.total edge.sizes)).countP fun p => PresentIn keys p
  fits : ∀ p ∈ groups.flatten.flatten, (Int64.ofNat p).toInt = p

theorem SegmentsLabelled.groupedBy {keys : List Slice} {edge : Edge} (hfits : edge.Fits)
    (h : SegmentsLabelled (PresentIn keys) (SameKeys keys) 0 edge.sizes segments) :
    GroupedBy keys edge (segments.map groupsOf) := by
  constructor
  case length => rw [List.length_map, h.length_eq, Edge.parents]
  case grouped =>
    intro i segment hsegment
    rw [List.getElem?_map, Option.map_eq_some_iff] at hsegment
    obtain ⟨labels, hlabels, rfl⟩ := hsegment
    obtain ⟨size, hsize⟩ := h.exists_size hlabels
    have hlabelled := h.labelled hsize hlabels
    rw [Nat.zero_add] at hlabelled
    refine ⟨_, _, Edge.range?_of_fits hfits hsize, ?_⟩
    rw [Nat.add_sub_cancel_left]
    exact hlabelled.grouped
  case count => rw [h.length_flatten, List.range_eq_range']
  case fits =>
    intro p hp
    obtain ⟨group, hgroup, hp⟩ := List.mem_flatten.1 hp
    obtain ⟨segment, hsegment, hgroup⟩ := List.mem_flatten.1 hgroup
    obtain ⟨labels, hlabels, rfl⟩ := List.mem_map.1 hsegment
    obtain ⟨i, hi⟩ := List.mem_iff_getElem?.1 hlabels
    obtain ⟨size, hsize⟩ := h.exists_size hi
    have hgrouped := (h.labelled hsize hi).grouped
    have hpsize := ((hgrouped.mem_iff p).1 ⟨group, hgroup, hp⟩).1
    -- A position in a segment is below the last split point, which did not wrap.
    have htotal := Edge.total_take_add hsize
    have hlimit : Edge.total edge.sizes < 2 ^ 63 := hfits
    rw [Int64.toInt_ofNat_of_lt (by omega)]

theorem ne_nil_of_mem_groups (segments : List (List (Option Nat))) :
    ∀ group ∈ (segments.map groupsOf).flatten, group ≠ [] := by
  intro group hgroup
  obtain ⟨segment, hsegment, hgroup⟩ := List.mem_flatten.1 hgroup
  obtain ⟨labels, -, rfl⟩ := List.mem_map.1 hsegment
  obtain ⟨-, -, -, hne⟩ := mem_groupsOf.1 hgroup
  exact hne

theorem length_flatten_le {groups : List (List Nat)} (h : ∀ group ∈ groups, group ≠ []) :
    groups.length ≤ groups.flatten.length := by
  induction groups with
  | nil => exact Nat.le_refl 0
  | cons group groups ih =>
      have hfirst := List.length_pos_iff.2 (h group List.mem_cons_self)
      have hrest := ih fun g hg => h g (List.mem_cons_of_mem group hg)
      rw [List.length_cons, List.flatten_cons, List.length_append]
      omega

end Grouping

open Grouping

variable {keys : List Slice} {outer : List Edge} {edge : Edge}

theorem Slice.size_column_of_shape {s : Slice} (hs : s.Valid)
    (hshape : s.shape = ⟨outer ++ [edge]⟩) : s.column.size = Edge.total edge.sizes := by
  have hvalid := hs.1
  rw [hshape, Shape.Valid, Shape.chained_append] at hvalid
  rw [size_column hs, Slice.size, hshape, Shape.size_concat, Edge.children_of_fits hvalid.2.2.1]

theorem Slice.size_column_of_keys (hvalid : ∀ key ∈ keys, key.Valid)
    (hshape : ∀ key ∈ keys, key.shape = ⟨outer ++ [edge]⟩) :
    ∀ key ∈ keys, key.column.size = Edge.total edge.sizes :=
  fun key hkey => size_column_of_shape (hvalid key hkey) (hshape key hkey)

theorem Slice.chained_of_keys (hkeys : keys ≠ []) (hvalid : ∀ key ∈ keys, key.Valid)
    (hshape : ∀ key ∈ keys, key.shape = ⟨outer ++ [edge]⟩) : Shape.Chained 1 (outer ++ [edge]) := by
  obtain ⟨first, hfirst⟩ := List.exists_mem_of_ne_nil keys hkeys
  have hfirstValid := (hvalid first hfirst).1
  rwa [hshape first hfirst] at hfirstValid

theorem Slice.fits_of_keys (hkeys : keys ≠ []) (hvalid : ∀ key ∈ keys, key.Valid)
    (hshape : ∀ key ∈ keys, key.shape = ⟨outer ++ [edge]⟩) : edge.Fits :=
  (Shape.chained_append.1 (chained_of_keys hkeys hvalid hshape)).2.2.1

namespace Grouping

/-- The slice of groups: the positions in them, with a dimension of the groups of each
segment and a dimension of the positions of each group. -/
def ofGroups (outer : List Edge) (groups : List (List (List Nat))) : Slice :=
  ⟨.column (.typed .int64 (groups.flatten.flatten.map fun p => some (.ofNat p))),
    ⟨outer ++ [⟨groups.map List.length⟩, ⟨groups.flatten.map List.length⟩]⟩,
    .dtype .int64, none⟩

variable {groups : List (List (List Nat))}

theorem valid_shape_ofGroups (hshape : Shape.Chained 1 (outer ++ [edge]))
    (hlength : groups.length = edge.parents)
    (hcount : groups.flatten.flatten.length ≤ Edge.total edge.sizes)
    (hne : ∀ group ∈ groups.flatten, group ≠ []) : (ofGroups outer groups).shape.Valid := by
  obtain ⟨houter, hparents, hfits, -⟩ := Shape.chained_append.1 hshape
  have hlimit : groups.flatten.flatten.length < Edge.pointLimit := Nat.lt_of_le_of_lt hcount hfits
  have hgroups : Edge.Fits ⟨groups.map List.length⟩ := by
    rw [Edge.Fits, Edge.total_map_length]
    exact Nat.lt_of_le_of_lt (length_flatten_le hne) hlimit
  refine Shape.chained_append.2 ⟨houter, ?_, hgroups, ?_, ?_, trivial⟩
  · rw [Edge.parents, List.length_map, hlength]
    exact hparents
  · rw [Edge.parents, List.length_map, Edge.children_of_fits hgroups, Edge.total_map_length]
  · rw [Edge.Fits, Edge.total_map_length]
    exact hlimit

theorem GroupedBy.length_flatten_le (h : GroupedBy keys edge groups) :
    groups.flatten.flatten.length ≤ Edge.total edge.sizes := by
  rw [h.count]
  exact Nat.le_trans List.countP_le_length (Nat.le_of_eq List.length_range)

theorem size_ofGroups (h : (ofGroups outer groups).shape.Valid) :
    (ofGroups outer groups).size = groups.flatten.flatten.length := by
  have hitems : Edge.Fits ⟨groups.flatten.map List.length⟩ :=
    (Shape.chained_append.1 h).2.2.2.2.1
  rw [Slice.size, ofGroups, List.append_cons, Shape.size_concat, Edge.children_of_fits hitems,
    Edge.total_map_length]

theorem valid_ofGroups (h : (ofGroups outer groups).shape.Valid) :
    (ofGroups outer groups).Valid := by
  refine ⟨h, ?_, (List.length_map _).trans (size_ofGroups h).symm⟩
  rw [ofGroups]
  exact List.append_ne_nil_of_right_ne_nil outer (List.cons_ne_nil _ _)

theorem getLast?_edges_of_shape {s : Slice} (hshape : s.shape = ⟨outer ++ [edge]⟩) :
    s.shape.edges.getLast? = some edge := by
  rw [hshape]
  exact List.getLast?_concat

theorem removeDims_of_shape {s : Slice} (hshape : s.shape = ⟨outer ++ [edge]⟩) :
    s.shape.removeDims (s.rank - 1) = ⟨outer⟩ := by
  rw [Slice.rank, hshape, Shape.rank, Shape.removeDims]
  simp

theorem groupBy_error_of_refineKeys {sorted : Bool} {first : Slice} {rest : List Slice}
    {e : Error} (hshape : first.shape = ⟨outer ++ [edge]⟩)
    (h : refineKeys sorted ⟨outer ++ [edge]⟩ edge (wholeSegments edge) (first :: rest) = .error e) :
    groupBy sorted (first :: rest) = .error e := by
  rw [← hshape] at h
  simp only [groupBy, getLast?_edges_of_shape hshape, h, bind, Except.bind]

/-- From the refined labels on, `groupBy` does nothing but to collect the groups. -/
theorem groupBy_of_refineKeys {sorted : Bool} {first : Slice} {rest : List Slice}
    {refined : List (List (Option Nat))} (hshape : first.shape = ⟨outer ++ [edge]⟩)
    (hrefined : refineKeys sorted ⟨outer ++ [edge]⟩ edge (wholeSegments edge) (first :: rest) =
      .ok refined)
    (hvalid : (ofGroups outer (refined.map groupsOf)).shape.Valid) :
    groupBy sorted (first :: rest) = .ok (ofGroups outer (refined.map groupsOf)) := by
  have houter := removeDims_of_shape hshape
  have hsize := size_ofGroups hvalid
  rw [Slice.size] at hsize
  rw [← hshape] at hrefined
  simp only [groupBy, getLast?_edges_of_shape hshape, hrefined, houter, bind, Except.bind]
  rw [Shape.addDims_of_chained hvalid]
  simp only
  rw [Slice.ofColumn, if_neg, if_neg]
  · rfl
  · simp [Shape.rank]
  · rw [not_not]
    exact hsize.trans (List.length_map _).symm

end Grouping

theorem Grouping.exists_groupedBy (hkeys : keys ≠ []) (hvalid : ∀ key ∈ keys, key.Valid)
    (hshape : ∀ key ∈ keys, key.shape = ⟨outer ++ [edge]⟩) :
    ∃ refined, refineKeys false ⟨outer ++ [edge]⟩ edge (wholeSegments edge) keys = .ok refined ∧
      GroupedBy keys edge (refined.map groupsOf) := by
  obtain ⟨refined, hrefined, hlabelled⟩ :=
    (segmentsLabelled_replicate 0 edge.sizes).exists_refineKeys hshape
      (Slice.size_column_of_keys hvalid hshape)
  have hkeysLabelled := hlabelled.congr (fun p => iff_of_eq (true_and _))
    fun p q _ _ => iff_of_eq (true_and _)
  exact ⟨refined, hrefined, hkeysLabelled.groupedBy (Slice.fits_of_keys hkeys hvalid hshape)⟩

/-- The tuples of keys divide every segment of the last dimension into groups, and these
are what `groupBy` returns. -/
theorem groupBy_eq_ok (hkeys : keys ≠ []) (hvalid : ∀ key ∈ keys, key.Valid)
    (hshape : ∀ key ∈ keys, key.shape = ⟨outer ++ [edge]⟩) :
    ∃ groups, groupBy false keys = .ok (ofGroups outer groups) ∧ GroupedBy keys edge groups ∧
      (ofGroups outer groups).Valid ∧ (ofGroups outer groups).size =
        (List.range (Edge.total edge.sizes)).countP fun p => PresentIn keys p := by
  have hchained := Slice.chained_of_keys hkeys hvalid hshape
  obtain ⟨refined, hrefined, hgrouped⟩ := exists_groupedBy hkeys hvalid hshape
  obtain ⟨first, rest, rfl⟩ := List.exists_cons_of_ne_nil hkeys
  have hfirst := hshape first List.mem_cons_self
  have hnew := valid_shape_ofGroups hchained hgrouped.length hgrouped.length_flatten_le
    (ne_nil_of_mem_groups refined)
  exact ⟨_, groupBy_of_refineKeys hfirst hrefined hnew, hgrouped, valid_ofGroups hnew,
    (size_ofGroups hnew).trans hgrouped.count⟩

namespace TwoKeys

/-- Two segments, of four positions and of one. -/
def shape : Shape :=
  ⟨[⟨[2]⟩, ⟨[4, 1]⟩]⟩

theorem valid_shape : shape.Valid := by
  refine ⟨rfl, ?_, rfl, ?_, trivial⟩
  · exact (by decide : 2 < Edge.pointLimit)
  · exact (by decide : 5 < Edge.pointLimit)

def numbers : Slice :=
  ⟨.column (.typed .int64 [some 1, some 2, some 1, none, some 1]), shape, .dtype .int64, none⟩

def letters : Slice :=
  ⟨.column (.mixed [.text "a", .bool true, .text "a", .text "a", .missing]), shape,
    .dtype .object, none⟩

/-- Grouping by a key with a gap and a key of mixed types. -/
theorem groupBy_numbers_letters : ∃ groups,
    groupBy false [numbers, letters] = .ok (ofGroups [⟨[2]⟩] groups) ∧
      GroupedBy [numbers, letters] ⟨[4, 1]⟩ groups ∧ (ofGroups [⟨[2]⟩] groups).size = 3 := by
  have hvalid : ∀ key ∈ [numbers, letters], key.Valid := by
    intro key hkey
    simp only [List.mem_cons, List.not_mem_nil, or_false] at hkey
    rcases hkey with rfl | rfl
    · exact ⟨valid_shape, by decide, rfl⟩
    · exact ⟨valid_shape, by decide, rfl⟩
  have heq : ∀ key ∈ [numbers, letters], key.shape = ⟨[⟨[2]⟩] ++ [⟨[4, 1]⟩]⟩ := by
    intro key hkey
    simp only [List.mem_cons, List.not_mem_nil, or_false] at hkey
    rcases hkey with rfl | rfl <;> rfl
  obtain ⟨groups, hrun, hgroups, -, hsize⟩ := groupBy_eq_ok (List.cons_ne_nil _ _) hvalid heq
  exact ⟨groups, hrun, hgroups, hsize.trans (by decide +kernel)⟩

example : (groupBy false [numbers, letters]).toOption.map (fun r => (r.column.items, r.shape)) =
    some ([.int64 0, .int64 2, .int64 1], ⟨[⟨[2]⟩, ⟨[2, 0]⟩, ⟨[2, 1]⟩]⟩) := by
  decide +kernel

end TwoKeys

end ObjectGraph
