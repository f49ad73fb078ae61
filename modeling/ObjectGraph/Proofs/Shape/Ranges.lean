import Mathlib.Algebra.Group.Nat.Defs
import ObjectGraph.Proofs.Shape.Flatten
import ObjectGraph.Proofs.Shape.Prefix

/-!
# Ranges of an edge

Lists of split points that can be read and lists of sizes whose sum fits into a split point
are two ways to write the same edges: the split points are the running sums of the sizes,
and the sizes are the lengths of the ranges. The ranges of an edge lie one behind another
from the first child to the last, so each child is in the range of one group, and empty
groups take up no child.
-/

namespace ObjectGraph

namespace Edge

variable {e : Edge} {sizes : List Nat} {points : List Int64} {p : Int64} {i j k : Nat}

/-! ### Reading split points -/

theorem ofNat_toNat_toInt (h : 0 ≤ p.toInt) : Int64.ofNat p.toInt.toNat = p := by
  have hnat : ((p.toInt.toNat : Nat) : Int) = p.toInt := Int.toNat_of_nonneg h
  rw [← Int64.ofInt_eq_ofNat, hnat, Int64.ofInt_toInt]

/-- The running sums of the gaps between split points are the split points. -/
theorem map_pointsFrom_of_gaps? (hp : 0 ≤ p.toInt) (h : gaps? p points = some sizes) :
    (pointsFrom p.toInt.toNat sizes).map Int64.ofNat = p :: points := by
  induction points generalizing p sizes with
  | nil =>
      obtain rfl := Option.some.inj h
      rw [pointsFrom, List.map_singleton, ofNat_toNat_toInt hp]
  | cons q points ih =>
      rw [gaps?] at h
      split at h
      · rename_i hpq
        obtain ⟨rest, hrest, rfl⟩ := Option.map_eq_some_iff.1 h
        rw [Int64.le_iff_toInt_le] at hpq
        have hnext : p.toInt.toNat + (q.toInt - p.toInt).toNat = q.toInt.toNat := by omega
        rw [pointsFrom, List.map_cons, ofNat_toNat_toInt hp, hnext,
          ih (Int.le_trans hp hpq) hrest]
      · cases h

theorem points_of_ofPoints (h : ofPoints points = .ok e) : e.points = points := by
  cases points with
  | nil => cases h
  | cons first points =>
      rw [ofPoints] at h
      split at h
      · cases h
      · rename_i hfirst
        obtain rfl := Decidable.not_not.1 hfirst
        split at h
        · rename_i sizes hgaps
          obtain rfl := Except.ok.inj h
          exact map_pointsFrom_of_gaps? (p := 0) (by decide) hgaps
        · cases h

/-- Reading split points and taking the running sums of sizes are inverse to each other. -/
theorem ofPoints_eq_ok_iff : ofPoints points = .ok e ↔ e.Fits ∧ e.points = points := by
  constructor
  · exact fun h => ⟨fits_of_ofPoints h, points_of_ofPoints h⟩
  · rintro ⟨he, rfl⟩
    exact ofPoints_points he

/-! ### Ranges -/

/-- Of two groups the earlier one ends before the later one begins. -/
theorem covers_inj (he : e.Fits) (hi : e.Covers i j) (hk : e.Covers k j) : i = k := by
  obtain ⟨-, hfirst, hlast⟩ := (covers_iff he).1 hi
  obtain ⟨-, hfirst', hlast'⟩ := (covers_iff he).1 hk
  have hmono : ∀ {m n : Nat}, m < n → total (e.sizes.take (m + 1)) ≤ total (e.sizes.take n) :=
    fun hlt => total_take_mono (Nat.succ_le_of_lt hlt)
  rcases Nat.lt_trichotomy i k with hlt | heq | hlt
  · have hle := hmono hlt
    omega
  · exact heq
  · have hle := hmono hlt
    omega

theorem exists_covers (he : e.Fits) (hj : j < e.children) : ∃ i, e.Covers i j := by
  rw [children_of_fits he] at hj
  have hall : total e.sizes = total (e.sizes.take e.parents) := by
    rw [parents, List.take_length]
  obtain ⟨i, -, hi, hcrossing⟩ := exists_crossing (f := fun i => total (e.sizes.take i))
    (Nat.zero_le e.parents) (Nat.zero_le j) (hall ▸ hj)
  exact ⟨i, (covers_iff he).2 ⟨hi, hcrossing⟩⟩

/-- The ranges of the groups lie one behind another and cover every child once. -/
structure Partitions (e : Edge) : Prop where
  /-- The ranges are those of the parents, and each is as long as the size of its group. -/
  sized : ∀ i first last, e.range? i = some (first, last) →
    first ≤ last ∧ e.sizes[i]? = some (last - first)
  /-- Every parent has a range. -/
  defined : ∀ i, (e.range? i).isSome = true ↔ i < e.parents
  /-- The first range begins with the first child. -/
  starts : ∀ first last, e.range? 0 = some (first, last) → first = 0
  /-- Every other range begins where the one before it ends. -/
  consecutive : ∀ i first last next last', e.range? i = some (first, last) →
    e.range? (i + 1) = some (next, last') → next = last
  /-- The last range ends with the last child. Without parents there are no children. -/
  ends : ∀ i first last, e.range? i = some (first, last) → i + 1 = e.parents → last = e.children
  childless : e.parents = 0 → e.children = 0
  /-- No range goes beyond the last child. -/
  within : ∀ i first last, e.range? i = some (first, last) → last ≤ e.children
  /-- Every child is in one range. -/
  covered : ∀ j, j < e.children → ∃! i, e.Covers i j

theorem Fits.partitions (he : e.Fits) : e.Partitions where
  sized := by
    intro i first last h
    obtain ⟨hi, rfl, rfl⟩ := (range?_eq_some_iff he).1 h
    have hsize := List.getElem?_eq_getElem hi
    rw [total_take_succ hsize, hsize, Nat.add_sub_cancel_left]
    exact ⟨Nat.le_add_right _ _, rfl⟩
  defined := by
    intro i
    rw [Option.isSome_iff_exists]
    constructor
    · rintro ⟨range, h⟩
      exact lt_parents_of_range? h
    · intro hi
      exact ⟨_, (range?_eq_some_iff he).2 ⟨hi, rfl, rfl⟩⟩
  starts := fun first last h => ((range?_eq_some_iff he).1 h).2.1
  consecutive := by
    intro i first last next last' h hnext
    obtain ⟨-, -, rfl⟩ := (range?_eq_some_iff he).1 h
    exact ((range?_eq_some_iff he).1 hnext).2.1
  ends := by
    intro i first last h hi
    obtain ⟨-, -, rfl⟩ := (range?_eq_some_iff he).1 h
    rw [hi, parents, List.take_length, children_of_fits he]
  childless := by
    intro h
    rw [children_of_fits he, List.length_eq_zero_iff.1 h]
    rfl
  within := by
    intro i first last h
    obtain ⟨-, -, rfl⟩ := (range?_eq_some_iff he).1 h
    rw [children_of_fits he]
    exact total_take_le e.sizes (i + 1)
  covered := by
    intro j hj
    obtain ⟨i, hi⟩ := exists_covers he hj
    exact ⟨i, hi, fun k hk => covers_inj he hk hi⟩

/-! ### Equal groups -/

/-- The split points of equal groups are the multiples of their size. -/
theorem points_uniform (parents size : Nat) :
    (uniform parents size).points =
      (List.range (parents + 1)).map fun i => Int64.ofNat (i * size) := by
  rw [points_eq_map, show (uniform parents size).parents = parents from List.length_replicate]
  refine List.map_congr_left fun i hi => ?_
  have hle : i ≤ parents := Nat.le_of_lt_succ (List.mem_range.1 hi)
  rw [uniform, List.take_replicate, Nat.min_eq_left hle, total_replicate]

theorem fits_uniform_iff (parents size : Nat) :
    (uniform parents size).Fits ↔ parents * size < 2 ^ 63 := by
  rw [Fits, uniform, total_replicate]
  rfl

/-- Split points can be read exactly if they are the running sums of sizes, which are then
the lengths of the ranges; the ranges divide the children among the parents. -/
theorem ofPoints_iff_runningSums (points : List Int64) :
    ((∃ e, ofPoints points = .ok e) ↔
      ∃ sizes, total sizes < 2 ^ 63 ∧ (⟨sizes⟩ : Edge).points = points) ∧
    (∀ e, ofPoints points = .ok e →
      e.points = points ∧ e.parents = points.length - 1 ∧ e.children = endOfPoints points ∧
      e.Partitions ∧
      ∀ sizes, total sizes < 2 ^ 63 → (⟨sizes⟩ : Edge).points = points → sizes = e.sizes) ∧
    ∀ parents size, parents * size < 2 ^ 63 →
      (ofPoints points = .ok (uniform parents size) ↔
        points = (List.range (parents + 1)).map fun i => Int64.ofNat (i * size)) ∧
      (uniform parents size).parents = parents ∧
      ∀ i < parents, (uniform parents size).range? i = some (i * size, (i + 1) * size) := by
  refine ⟨?_, ?_, ?_⟩
  · constructor
    · rintro ⟨e, h⟩
      exact ⟨e.sizes, ofPoints_eq_ok_iff.1 h⟩
    · rintro ⟨sizes, h⟩
      exact ⟨⟨sizes⟩, ofPoints_eq_ok_iff.2 h⟩
  · intro e h
    obtain ⟨he, rfl⟩ := ofPoints_eq_ok_iff.1 h
    refine ⟨rfl, ?_, (endOfPoints_points e).symm, he.partitions, ?_⟩
    · rw [Edge.points, List.length_map, length_pointsFrom, Nat.add_sub_cancel, parents]
    · intro sizes hsizes hpoints
      exact congrArg Edge.sizes ((points_inj (e := ⟨sizes⟩) hsizes he).1 hpoints)
  · intro parents size h
    have hfits := (fits_uniform_iff parents size).2 h
    have hparents : (uniform parents size).parents = parents := List.length_replicate
    refine ⟨?_, hparents, fun i hi => ?_⟩
    · rw [ofPoints_eq_ok_iff, and_iff_right hfits, points_uniform, eq_comm]
    · have htake : ∀ k ≤ parents, total ((uniform parents size).sizes.take k) = k * size := by
        intro k hk
        rw [uniform, List.take_replicate, Nat.min_eq_left hk, total_replicate]
      rw [range?_eq_some_iff hfits, htake i (Nat.le_of_lt hi), htake (i + 1) hi, hparents]
      exact ⟨hi, rfl, rfl⟩

/-- Three groups, of which the second one is empty. -/
theorem ofPoints_two_none_three :
    ofPoints [0, 2, 2, 5] = .ok ⟨[2, 0, 3]⟩ ∧ (⟨[2, 0, 3]⟩ : Edge).Partitions ∧
      ofPoints [0, 2, 4, 6] = .ok (uniform 3 2) := by
  obtain ⟨_, _, _, hpartitions, _⟩ :=
    (ofPoints_iff_runningSums [0, 2, 2, 5]).2.1 ⟨[2, 0, 3]⟩ rfl
  have huniform := (ofPoints_iff_runningSums [0, 2, 4, 6]).2.2 3 2 (by decide)
  exact ⟨rfl, hpartitions, huniform.1.2 rfl⟩

end Edge

end ObjectGraph
