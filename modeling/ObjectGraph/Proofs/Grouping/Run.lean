import Mathlib.Data.List.Forall2
import ObjectGraph.Proofs.Grouping.GroupBy
import ObjectGraph.Proofs.Grouping.Together

/-!
# One segment at a time

Keys refine the labels of each segment on its own, by the cells of the segment. So what
keys make of the labels of one segment is said without the others, and which positions they
leave together does not depend on sorting.
-/

namespace ObjectGraph.Grouping

/-- The labels of one segment, of a size and from a position on, after splitting them by a
column. -/
def refineFrom (sorted : Bool) (start size : Nat) (labels : List (Option Nat)) :
    Column → List (Option Nat)
  | .empty _ => labels.map fun _ => none
  | .typed _ cells => refine sorted labels ((cells.drop start).take size)
  | .mixed items => refine sorted labels (((items.map presentCell).drop start).take size)

/-- The labels of one segment after splitting them by one key after another. -/
def refineFromKeys (sorted : Bool) (start size : Nat) (labels : List (Option Nat))
    (keys : List Slice) : List (Option Nat) :=
  keys.foldl (fun labels key => refineFrom sorted start size labels key.column) labels

variable {sorted : Bool} {keys : List Slice} {edge : Edge} {c : Column} {i p q start size : Nat}
  {labels : List (Option Nat)} {segments refined : List (List (Option Nat))}

/-! ### From all segments to one -/

theorem length_refineColumn (h : segments.length = edge.parents) :
    (refineColumn sorted edge segments c).length = edge.parents := by
  cases c with
  | empty n => rw [refineColumn, List.length_map, h]
  | typed t cells => rw [refineColumn, List.length_zipWith, Edge.length_segments, h, Nat.min_self]
  | mixed items => rw [refineColumn, List.length_zipWith, Edge.length_segments, h, Nat.min_self]

theorem getElem?_zipWith_segments {α : Type} {f : List (Option Nat) → List α → List (Option Nat)}
    {xs : List α} (hsize : edge.sizes[i]? = some size) (hlabels : segments[i]? = some labels) :
    (segments.zipWith f (edge.segments xs))[i]? =
      some (f labels ((xs.drop (Edge.total (edge.sizes.take i))).take size)) := by
  rw [List.getElem?_zipWith, hlabels, Edge.segments, Edge.getElem?_cut, hsize]
  rfl

theorem getElem?_refineColumn (hsize : edge.sizes[i]? = some size)
    (hlabels : segments[i]? = some labels) :
    (refineColumn sorted edge segments c)[i]? =
      some (refineFrom sorted (Edge.total (edge.sizes.take i)) size labels c) := by
  cases c with
  | empty n => rw [refineColumn, List.getElem?_map, hlabels]; rfl
  | typed t cells => exact getElem?_zipWith_segments hsize hlabels
  | mixed items => exact getElem?_zipWith_segments hsize hlabels

/-- A key that has to be sorted is checked first. -/
def checkKey (sorted : Bool) (c : Column) : Except Error Unit :=
  if sorted then checkSortable c else .ok ()

theorem refineKeys_cons {key : Slice} {shape : Shape} (hshape : key.shape = shape) :
    refineKeys sorted shape edge segments (key :: keys) =
      (checkKey sorted key.column).bind fun _ =>
        refineKeys sorted shape edge (refineColumn sorted edge segments key.column) keys := by
  have hequivalent : key.shape.isEquivalentTo shape = true := by
    rw [hshape, Shape.isEquivalentTo, beq_self_eq_true]
  rw [refineKeys, hequivalent, checkKey]
  cases sorted <;> rfl

theorem refineKeys_singleton {key : Slice} {shape : Shape} (hshape : key.shape = shape) :
    refineKeys sorted shape edge segments [key] =
      (checkKey sorted key.column).map fun _ => refineColumn sorted edge segments key.column := by
  rw [refineKeys_cons hshape]
  cases checkKey sorted key.column <;> rfl

/-- The labels that keys leave, segment by segment, after each key passed its check. -/
structure RefinedBy (sorted : Bool) (edge : Edge) (segments : List (List (Option Nat)))
    (keys : List Slice) (refined : List (List (Option Nat))) : Prop where
  checked : ∀ key ∈ keys, checkKey sorted key.column = .ok ()
  length : refined.length = edge.parents
  getElem? : ∀ (i size : Nat) (labels : List (Option Nat)), edge.sizes[i]? = some size →
    segments[i]? = some labels → refined[i]? =
      some (refineFromKeys sorted (Edge.total (edge.sizes.take i)) size labels keys)

theorem refinedBy_of_refineKeys {shape : Shape} (hshape : ∀ key ∈ keys, key.shape = shape)
    (hlength : segments.length = edge.parents)
    (h : refineKeys sorted shape edge segments keys = .ok refined) :
    RefinedBy sorted edge segments keys refined := by
  induction keys generalizing segments with
  | nil =>
      obtain rfl := Except.ok.inj h
      exact ⟨List.forall_mem_nil _, hlength, fun _ _ _ _ hlabels => hlabels⟩
  | cons key keys ih =>
      rw [refineKeys_cons (hshape key List.mem_cons_self)] at h
      cases hcheck : checkKey sorted key.column with
      | error e =>
          rw [hcheck] at h
          cases h
      | ok =>
          rw [hcheck] at h
          have hrest := ih (fun k hk => hshape k (List.mem_cons_of_mem key hk))
            (length_refineColumn hlength) h
          refine ⟨fun k hk => ?_, hrest.length, fun i size labels hsize hlabels => ?_⟩
          · rcases List.mem_cons.1 hk with rfl | hk
            · exact hcheck
            · exact hrest.checked k hk
          · exact hrest.getElem? i size _ hsize (getElem?_refineColumn hsize hlabels)

theorem getElem?_wholeSegments (hsize : edge.sizes[i]? = some size) :
    (wholeSegments edge)[i]? = some (List.replicate size (some 0)) := by
  rw [wholeSegments, List.getElem?_map, hsize]
  rfl

theorem length_wholeSegments : (wholeSegments edge).length = edge.parents :=
  List.length_map _

theorem RefinedBy.getElem?_groups (h : RefinedBy sorted edge (wholeSegments edge) keys refined)
    (hsize : edge.sizes[i]? = some size) :
    (refined.map groupsOf)[i]? = some (groupsOf (refineFromKeys sorted
      (Edge.total (edge.sizes.take i)) size (List.replicate size (some 0)) keys)) := by
  rw [List.getElem?_map, h.getElem? i size _ hsize (getElem?_wholeSegments hsize)]
  rfl

theorem RefinedBy.exists_eq_groupsOf {segment : List (List Nat)}
    (h : RefinedBy sorted edge (wholeSegments edge) keys refined)
    (hsegment : (refined.map groupsOf)[i]? = some segment) :
    ∃ size, edge.sizes[i]? = some size ∧ segment = groupsOf (refineFromKeys sorted
      (Edge.total (edge.sizes.take i)) size (List.replicate size (some 0)) keys) := by
  have hi := (List.getElem?_eq_some_iff.1 hsegment).1
  rw [List.length_map, h.length] at hi
  have hsize := List.getElem?_eq_getElem hi
  exact ⟨_, hsize, Option.some.inj (hsegment.symm.trans (h.getElem?_groups hsize))⟩

/-! ### Positions that stay together -/

/-- Two positions have items with one grouping key. -/
def SharesKey (c : Column) (p q : Nat) : Prop :=
  (c.get p).isPresent = true ∧ (c.get q).isPresent = true ∧ (c.get p).key = (c.get q).key

theorem length_refineFrom (sorted : Bool) (hlength : labels.length = size)
    (hsize : start + size ≤ c.size) :
    (refineFrom sorted start size labels c).length = size := by
  cases c with
  | empty n => rw [refineFrom, List.length_map, hlength]
  | typed t cells =>
      have hcells := Edge.length_take_drop (show start + size ≤ cells.length from hsize)
      exact (length_refine (hlength.trans hcells.symm)).trans hlength
  | mixed items =>
      rw [Column.size, ← List.length_map presentCell] at hsize
      exact (length_refine (hlength.trans (Edge.length_take_drop hsize).symm)).trans hlength

theorem bounded_refineFrom (sorted : Bool) (start size : Nat) (labels : List (Option Nat))
    (c : Column) : Bounded (refineFrom sorted start size labels c) := by
  cases c with
  | empty n => exact fun p g hp => absurd hp (getElem?_map_none_ne labels p g)
  | typed t cells => exact bounded_refine sorted labels _
  | mixed items => exact bounded_refine sorted labels _

theorem Together.lt (h : Together labels p q) : p < labels.length ∧ q < labels.length := by
  obtain ⟨g, hp, hq⟩ := h
  exact ⟨(List.getElem?_eq_some_iff.1 hp).1, (List.getElem?_eq_some_iff.1 hq).1⟩

theorem Shows.together_refine {α : Type} [DecidableEq α] [Cell α] {cells : List (Option α)}
    {item : Nat → Item} (hcells : Shows cells item) (hlength : labels.length = size) :
    Together (refine sorted labels ((cells.drop start).take size)) p q ↔
      Together labels p q ∧ (item (start + p)).isPresent = true ∧
        (item (start + q)).isPresent = true ∧ (item (start + p)).key = (item (start + q)).key := by
  rw [Grouping.together_refine]
  refine and_congr_right fun h => ?_
  obtain ⟨hp, hq⟩ := h.lt
  rw [hlength] at hp hq
  rw [Edge.getElem?_take_drop hp, Edge.getElem?_take_drop hq, ← hcells.present_iff,
    ← hcells.present_iff]
  constructor
  · rintro ⟨v, w, hv, hw, hkey⟩
    exact ⟨⟨v, hv⟩, ⟨w, hw⟩, (hcells.key_iff _ _ v w hv hw).1 hkey⟩
  · rintro ⟨⟨v, hv⟩, ⟨w, hw⟩, hkey⟩
    exact ⟨v, w, hv, hw, (hcells.key_iff _ _ v w hv hw).2 hkey⟩

theorem together_refineFrom (hlength : labels.length = size) :
    Together (refineFrom sorted start size labels c) p q ↔
      Together labels p q ∧ SharesKey c (start + p) (start + q) := by
  cases c with
  | empty n =>
      rw [SharesKey, Column.get_empty]
      constructor
      · rintro ⟨g, hp, -⟩
        exact absurd hp (getElem?_map_none_ne labels p g)
      · rintro ⟨-, hpresent, -⟩
        cases hpresent
  | typed t cells => exact (shows_typed t cells).together_refine hlength
  | mixed items => exact (shows_mixed items).together_refine hlength

theorem bounded_refineFromKeys (h : Bounded labels) (keys : List Slice) :
    Bounded (refineFromKeys sorted start size labels keys) := by
  induction keys generalizing labels with
  | nil => exact h
  | cons key keys ih => exact ih (bounded_refineFrom sorted start size labels key.column)

/-- Two positions stay together as long as they share the keys. -/
theorem together_refineFromKeys (hlength : labels.length = size)
    (hsize : ∀ key ∈ keys, start + size ≤ key.column.size) :
    Together (refineFromKeys sorted start size labels keys) p q ↔
      Together labels p q ∧ ∀ key ∈ keys, SharesKey key.column (start + p) (start + q) := by
  induction keys generalizing labels with
  | nil => simp [refineFromKeys]
  | cons key keys ih =>
      have hfirst := length_refineFrom sorted hlength (hsize key List.mem_cons_self)
      have hrest := ih hfirst fun k hk => hsize k (List.mem_cons_of_mem key hk)
      rw [together_refineFrom hlength, and_assoc] at hrest
      rw [List.forall_mem_cons]
      exact hrest

theorem bounded_replicate (size : Nat) : Bounded (List.replicate size (some 0)) := by
  intro p g hp
  obtain ⟨hlt, rfl⟩ := getElem?_replicate_zero.1 hp
  rw [List.length_replicate]
  exact Nat.zero_lt_of_lt hlt

/-- Sorting leaves the groups of a segment as they are, up to their order. -/
theorem perm_groupsOf_refineFromKeys (sorted sorted' : Bool)
    (hsize : ∀ key ∈ keys, start + size ≤ key.column.size) :
    (groupsOf (refineFromKeys sorted start size (List.replicate size (some 0)) keys)).Perm
      (groupsOf (refineFromKeys sorted' start size (List.replicate size (some 0)) keys)) := by
  refine perm_groupsOf (bounded_refineFromKeys (bounded_replicate size) keys)
    (bounded_refineFromKeys (bounded_replicate size) keys) fun p q => ?_
  rw [together_refineFromKeys List.length_replicate hsize,
    together_refineFromKeys List.length_replicate hsize]

/-! ### Groups of a slice, sorted or not -/

theorem forall₂_of_getElem? {α β : Type} {R : α → β → Prop} {l : List α} {l' : List β}
    (hlength : l.length = l'.length)
    (h : ∀ (i : Nat) (a : α) (b : β), l[i]? = some a → l'[i]? = some b → R a b) :
    List.Forall₂ R l l' :=
  List.forall₂_iff_get.2 ⟨hlength, fun i hi hi' =>
    h i _ _ (List.getElem?_eq_getElem hi) (List.getElem?_eq_getElem hi')⟩

theorem map_length_eq_of_forall₂ {α β : Type} {R : List α → List β → Prop} {l : List (List α)}
    {l' : List (List β)} (h : List.Forall₂ R l l') (hR : ∀ a b, R a b → a.length = b.length) :
    l.map List.length = l'.map List.length := by
  induction h with
  | nil => rfl
  | cons hab _ ih => rw [List.map_cons, List.map_cons, hR _ _ hab, ih]

variable {outer : List Edge} {refined' : List (List (Option Nat))} {sorted' : Bool} {r : Slice}

theorem le_size_column (hsize : ∀ key ∈ keys, key.column.size = Edge.total edge.sizes)
    (hi : edge.sizes[i]? = some size) :
    ∀ key ∈ keys, Edge.total (edge.sizes.take i) + size ≤ key.column.size := by
  intro key hkey
  rw [hsize key hkey]
  exact Edge.total_take_add_le hi

theorem RefinedBy.perm_groups (h : RefinedBy sorted edge (wholeSegments edge) keys refined)
    (h' : RefinedBy sorted' edge (wholeSegments edge) keys refined')
    (hsize : ∀ key ∈ keys, key.column.size = Edge.total edge.sizes) :
    List.Forall₂ List.Perm (refined.map groupsOf) (refined'.map groupsOf) := by
  refine forall₂_of_getElem? ?_ fun i segment segment' hsegment hsegment' => ?_
  · rw [List.length_map, List.length_map, h.length, h'.length]
  · obtain ⟨size, hi, rfl⟩ := h.exists_eq_groupsOf hsegment
    obtain rfl := Option.some.inj (hsegment'.symm.trans (h'.getElem?_groups hi))
    exact perm_groupsOf_refineFromKeys sorted sorted' (le_size_column hsize hi)

/-- The labels decide what `groupBy` returns, and its groups are those found without
sorting, up to their order in a segment. -/
theorem groupBy_of_refineKeys_eq_ok (hkeys : keys ≠ []) (hvalid : ∀ key ∈ keys, key.Valid)
    (hshape : ∀ key ∈ keys, key.shape = ⟨outer ++ [edge]⟩)
    (h : refineKeys sorted ⟨outer ++ [edge]⟩ edge (wholeSegments edge) keys = .ok refined) :
    ∃ groups, groupBy sorted keys = .ok (ofGroups outer (refined.map groupsOf)) ∧
      (ofGroups outer (refined.map groupsOf)).shape.Valid ∧
      groupBy false keys = .ok (ofGroups outer groups) ∧ GroupedBy keys edge groups ∧
      List.Forall₂ List.Perm (refined.map groupsOf) groups := by
  have hchained := Slice.chained_of_keys hkeys hvalid hshape
  obtain ⟨refined', h', hgrouped⟩ := exists_groupedBy hkeys hvalid hshape
  have hby := refinedBy_of_refineKeys hshape length_wholeSegments h
  have hby' := refinedBy_of_refineKeys hshape length_wholeSegments h'
  have hperm := hby.perm_groups hby' (Slice.size_column_of_keys hvalid hshape)
  obtain ⟨first, rest, rfl⟩ := List.exists_cons_of_ne_nil hkeys
  have hfirst := hshape first List.mem_cons_self
  have hcount := hgrouped.length_flatten_le
  rw [← (List.Perm.flatten_congr hperm).flatten.length_eq] at hcount
  have hnew := valid_shape_ofGroups hchained ((List.length_map _).trans hby.length) hcount
    (ne_nil_of_mem_groups refined)
  have hnew' := valid_shape_ofGroups hchained hgrouped.length hgrouped.length_flatten_le
    (ne_nil_of_mem_groups refined')
  exact ⟨_, groupBy_of_refineKeys hfirst h hnew, hnew, groupBy_of_refineKeys hfirst h' hnew',
    hgrouped, hperm⟩

theorem exists_refineKeys_of_groupBy (hkeys : keys ≠ [])
    (hshape : ∀ key ∈ keys, key.shape = ⟨outer ++ [edge]⟩) (h : groupBy sorted keys = .ok r) :
    ∃ refined,
      refineKeys sorted ⟨outer ++ [edge]⟩ edge (wholeSegments edge) keys = .ok refined := by
  obtain ⟨first, rest, rfl⟩ := List.exists_cons_of_ne_nil hkeys
  cases hrefined : refineKeys sorted ⟨outer ++ [edge]⟩ edge (wholeSegments edge)
      (first :: rest) with
  | error e =>
      rw [groupBy_error_of_refineKeys (hshape first List.mem_cons_self) hrefined] at h
      cases h
  | ok refined => exact ⟨refined, rfl⟩

end ObjectGraph.Grouping
