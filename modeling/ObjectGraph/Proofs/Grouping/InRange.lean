import ObjectGraph.Proofs.Grouping.Gather

/-!
# Grouping stays in range

On valid slices the buffers of `groupBy` and `unique` are never read or written beyond
their ends, and what they give in the end is what the operators are stated to be.
-/

namespace ObjectGraph

open Buffer

namespace Grouping

variable {edge : Edge} {outer : List Edge}

theorem edgeOfPoints_eq {sizes : List Nat} (h : Edge.Fits ⟨sizes⟩) :
    edgeOfPoints (Edge.pointsFrom 0 sizes) = .ok ⟨sizes⟩ :=
  Edge.ofPoints_points h

/-- What is collected has the shape of the groups. -/
theorem sliceOfCollected_eq {first : Slice} {collected : Collected}
    {groups : List (List (List Nat))} (hshape : first.shape = ⟨outer ++ [edge]⟩)
    (hindices : collected.indices.take collected.filled = groups.flatten.flatten)
    (hgroups : collected.groupPoints = Edge.pointsFrom 0 (groups.map List.length))
    (hitems : collected.itemPoints = Edge.pointsFrom 0 (groups.flatten.map List.length))
    (hnew : (ofGroups outer groups).shape.Valid) :
    sliceOfCollected first collected = .ok (ofGroups outer groups) := by
  obtain ⟨-, -, hgroupFits, -, hitemFits, -⟩ := Shape.chained_append.1 hnew
  have hsize := size_ofGroups hnew
  rw [Slice.size] at hsize
  rw [sliceOfCollected, hindices, hgroups, hitems, edgeOfPoints_eq hgroupFits,
    edgeOfPoints_eq hitemFits, removeDims_of_shape hshape]
  simp only [bind, Except.bind]
  rw [Shape.addDims_of_chained hnew]
  simp only
  rw [Slice.ofColumn, if_neg, if_neg]
  · rfl
  · simp [Shape.rank]
  · rw [Decidable.not_not]
    exact hsize.trans (List.length_map _).symm

theorem exists_outer {s : Slice} (hlast : s.shape.edges.getLast? = some edge) :
    ∃ outer, s.shape = ⟨outer ++ [edge]⟩ := by
  obtain ⟨outer, hedges⟩ := List.getLast?_eq_some_iff.1 hlast
  refine ⟨outer, ?_⟩
  rw [← hedges]

theorem fits_of_shape {s : Slice} (hs : s.Valid) (hshape : s.shape = ⟨outer ++ [edge]⟩) :
    edge.Fits := by
  have hchained := hs.1
  rw [hshape, Shape.Valid] at hchained
  exact (Shape.chained_append.1 hchained).2.2.1

/-- Where the keys pass, what is collected is the slice of their groups. -/
theorem run_collect {sorted : Bool} {first : Slice} {keys : List Slice}
    {refined : List (List (Option Nat))} (hvalid : ∀ key ∈ first :: keys, key.Valid)
    (hshape : first.shape = ⟨outer ++ [edge]⟩)
    (hrefined : refineKeys sorted first.shape edge (wholeSegments edge) (first :: keys) =
      .ok refined) :
    (ExceptT.lift (collect (laidOut 0 refined) (ranges edge)) >>= fun collected =>
      liftM (sliceOfCollected first collected) : ExceptT Error Checked Slice).run =
        .ok (groupBy sorted (first :: keys)) := by
  have hne : first :: keys ≠ [] := List.cons_ne_nil _ _
  have hcompact := compact_of_refineKeys hrefined (Or.inl hne)
  have hshapes := shape_of_refineKeys hrefined
  rw [hshape] at hrefined hshapes
  have hsizes := map_length_refineKeys hrefined (map_length_wholeSegments edge)
    fun key hkey _ => Slice.size_column_of_keys hvalid hshapes key hkey
  obtain ⟨collected, hcollect, hindices, hgroupPoints, hitemPoints⟩ :=
    exists_collect hcompact (Slice.fits_of_keys hne hvalid hshapes) hsizes
  obtain ⟨-, hgroupBy, hnew, -⟩ := groupBy_of_refineKeys_eq_ok hne hvalid hshapes hrefined
  have hslice := sliceOfCollected_eq hshape hindices hgroupPoints hitemPoints hnew
  simp only [ExceptT.run_bind, ExceptT.run_lift, hcollect, map_ok, ok_bind, run_liftM, hslice,
    hgroupBy]

end Grouping

open Grouping

variable {sorted : Bool} {keys : List Slice}

/-- On valid keys `groupBy` stays within its buffers. -/
theorem groupByBuffers_eq (sorted : Bool) (hvalid : ∀ key ∈ keys, key.Valid) :
    (groupByBuffers sorted keys).run = .ok (groupBy sorted keys) := by
  cases keys with
  | nil => rfl
  | cons first keys =>
      cases hlast : first.shape.edges.getLast? with
      | none =>
          rw [groupByBuffers, groupBy]
          simp only [hlast]
          rfl
      | some edge =>
          obtain ⟨outer, hshape⟩ := exists_outer hlast
          have hfits := fits_of_shape (hvalid first List.mem_cons_self) hshape
          have hkeys := run_processKeys sorted (laid_wholeSegments edge) hfits
            (map_length_wholeSegments edge) fun key hkey heq =>
              Slice.size_column_of_shape (hvalid key hkey) (heq.trans hshape)
          rw [← Edge.children_of_fits hfits, List.isEmpty_cons] at hkeys
          rw [groupByBuffers]
          simp only [hlast, ExceptT.run_bind, hkeys]
          cases hrefined : refineKeys sorted first.shape edge (wholeSegments edge)
              (first :: keys) with
          | error e =>
              rw [hshape] at hrefined
              rw [groupBy_error_of_refineKeys hshape hrefined]
              rfl
          | ok refined => exact run_collect hvalid hshape hrefined

namespace Grouping

/-! ### Distinct values -/

section Cells

variable {α : Type} [DecidableEq α] [Cell α]

theorem equivalence_sameKey : Equivalence fun a b : α => sameKey a b = true := by
  simp only [sameKey, beq_iff_eq]
  exact ⟨fun _ => rfl, Eq.symm, Eq.trans⟩

theorem foldlM_see (values : List α) (passed current rest : List (Option α)) :
    (List.range' passed.length current.length).foldlM (see (passed ++ (current ++ rest)))
        (distinctBy sameKey values) =
      .ok (distinctBy sameKey (values ++ current.reduceOption)) := by
  induction current generalizing values passed with
  | nil =>
      rw [List.reduceOption_nil, List.append_nil]
      rfl
  | cons cell current ih =>
      have hrest := fun values => ih values (passed ++ [cell])
      simp only [List.length_append, List.length_singleton, List.append_assoc,
        List.singleton_append] at hrest
      rw [List.length_cons, List.range'_succ, List.foldlM_cons, see, List.cons_append, read_append,
        ok_bind]
      cases cell with
      | none => exact hrest values
      | some v =>
          have hseen := hrest (values ++ [v])
          rw [← enter_distinctBy equivalence_sameKey, List.append_assoc,
            List.singleton_append] at hseen
          rw [List.reduceOption_cons_of_some]
          exact hseen

theorem uniqueSegment_eq (sorted : Bool) (passed current rest : List (Option α)) :
    uniqueSegment sorted (passed ++ (current ++ rest))
        (passed.length, passed.length + current.length) =
      .ok (distinctValues sorted current) := by
  have hseen := foldlM_see [] passed current rest
  simp only [uniqueSegment, Nat.add_sub_cancel_left]
  rw [show ([] : List α) = distinctBy sameKey [] from rfl, hseen, ok_bind]
  rfl

theorem mapM_uniqueSegment (sorted : Bool) (passed cells : List (Option α)) {sizes : List Nat}
    (hsize : Edge.total sizes ≤ cells.length) :
    (rangesFrom passed.length sizes).mapM (uniqueSegment sorted (passed ++ cells)) =
      .ok ((Edge.cut sizes cells).map (distinctValues sorted)) := by
  induction sizes generalizing passed cells with
  | nil => rfl
  | cons size sizes ih =>
      rw [Edge.total_cons] at hsize
      have hcurrent : (cells.take size).length = size := by
        rw [List.length_take]
        omega
      have hfirst := uniqueSegment_eq sorted passed (cells.take size) (cells.drop size)
      have hrest := ih (passed ++ cells.take size) (cells.drop size) (by
        rw [List.length_drop]
        omega)
      rw [List.take_append_drop, hcurrent] at hfirst
      rw [List.length_append, List.append_assoc, List.take_append_drop, hcurrent] at hrest
      rw [rangesFrom, List.mapM_cons, hfirst, ok_bind, hrest, ok_bind]
      rfl

theorem uniqueValues_eq (sorted : Bool) {cells : List (Option α)} {edge : Edge} (he : edge.Fits)
    (hsize : cells.length = Edge.total edge.sizes) :
    uniqueValues sorted cells (ranges edge) =
      .ok ((edge.segments cells).map fun segment =>
        (distinctValues sorted segment).map Cell.item) := by
  have hrun := mapM_uniqueSegment sorted [] cells (Nat.le_of_eq hsize.symm)
  rw [List.nil_append, List.length_nil] at hrun
  rw [uniqueValues, ranges_of_fits he, hrun, ok_bind, Edge.segments, List.map_map]
  rfl

end Cells

theorem uniqueColumn_eq (sorted : Bool) {edge : Edge} {c : Column} (he : edge.Fits)
    (hsize : c.size = Edge.total edge.sizes) :
    uniqueColumn sorted edge c = .ok (.ofItems (distinctItems sorted edge c).flatten,
      (distinctItems sorted edge c).map List.length) := by
  cases c with
  | empty n =>
      have hnone : distinctItems sorted edge (.empty n) = List.replicate edge.parents [] :=
        List.map_const'
      have hpoints : edge.points.length - 1 = edge.parents := by
        rw [Edge.points, List.length_map, Edge.length_pointsFrom, Nat.add_sub_cancel, Edge.parents]
      rw [uniqueColumn, hnone, hpoints, List.flatten_replicate_nil, List.map_replicate]
      rfl
  | typed t cells =>
      have hvalues := uniqueValues_eq sorted he hsize
      simp only [uniqueColumn, Column.isUnknown, Bool.false_eq_true, if_false, Column.mixed?,
        Column.typed?, hvalues, ok_bind, fillColumn_eq]
      rfl
  | mixed items =>
      have hvalues := uniqueValues_eq sorted he ((List.length_map presentCell).trans hsize)
      have hitems : (fun segment => (distinctValues sorted segment).map Cell.item) =
          distinctValues (α := Item) sorted :=
        funext fun segment => List.map_id _
      rw [hitems] at hvalues
      simp only [uniqueColumn, Column.isUnknown, Bool.false_eq_true, if_false, Column.mixed?,
        hvalues, ok_bind, fillColumn_eq]
      rfl

end Grouping

/-- On a valid slice `unique` stays within its buffers, and its column has storage. -/
theorem uniqueBuffers_eq {x : Slice} (hx : x.Valid) (flag : Slice) :
    (uniqueBuffers x flag).run = .ok (unique x flag) := by
  cases hlast : x.shape.edges.getLast? with
  | none =>
      rw [uniqueBuffers, unique]
      simp only [hlast]
      rfl
  | some edge =>
      obtain ⟨outer, hshape⟩ := exists_outer hlast
      have hcolumn := fun sorted => uniqueColumn_eq sorted (fits_of_shape hx hshape)
        (Slice.size_column_of_shape hx hshape)
      rw [uniqueBuffers, unique]
      simp only [hlast]
      cases flag.item?.bind Item.bool? with
      | none => rfl
      | some sorted =>
          have hslice : (ExceptT.lift (uniqueColumn sorted edge x.column) >>= fun found =>
              liftM (sliceOfDistinct x found) : ExceptT Error Checked Slice).run =
                .ok (sliceOfDistinct x (.ofItems (distinctItems sorted edge x.column).flatten,
                  (distinctItems sorted edge x.column).map List.length)) := by
            simp only [ExceptT.run_bind, ExceptT.run_lift, hcolumn, map_ok, ok_bind, run_liftM]
          cases sorted with
          | false => exact hslice
          | true =>
              cases checkSortable x.column with
              | error e => rfl
              | ok => exact hslice

end ObjectGraph
