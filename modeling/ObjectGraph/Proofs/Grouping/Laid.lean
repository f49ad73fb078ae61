import ObjectGraph.Proofs.Grouping.Fill

/-!
# Numbering the groups of all segments

Key by key, the buffer of group numbers holds the labels of `refineKeys`, laid out so that
no number stands for groups of two segments. The first key takes the numbers as they come,
so the buffer it is given may count the labels of each segment from any number.
-/

namespace ObjectGraph.Grouping

open Buffer

/-- A buffer that holds the labels of segments, those of each counted from some number. -/
inductive Laid : List (Option Nat) → List (List (Option Nat)) → Prop
  | nil : Laid [] []
  | cons {ids labels : List (Option Nat)} {segments : List (List (Option Nat))} (first : Nat)
      (h : Laid ids segments) : Laid (shift first labels ++ ids) (labels :: segments)

/-- The labels of segments, those of each counted from the number of groups before it. -/
def laidOut : Nat → List (List (Option Nat)) → List (Option Nat)
  | _, [] => []
  | first, labels :: segments =>
    shift first labels ++ laidOut (first + (groupsOf labels).length) segments

/-- Where pieces of the given sizes begin and end. -/
def rangesFrom : Nat → List Nat → List (Nat × Nat)
  | _, [] => []
  | start, size :: sizes => (start, start + size) :: rangesFrom (start + size) sizes

variable {sorted : Bool} {ids : List (Option Nat)} {segments refined : List (List (Option Nat))}
  {edge : Edge} {c : Column} {keys : List Slice} {shape : Shape}

theorem laid_laidOut (first : Nat) (segments : List (List (Option Nat))) :
    Laid (laidOut first segments) segments := by
  induction segments generalizing first with
  | nil => exact .nil
  | cons labels segments ih => exact .cons first (ih _)

theorem Laid.length (h : Laid ids segments) :
    ids.length = Edge.total (segments.map List.length) := by
  induction h with
  | nil => rfl
  | cons first _ ih => rw [List.length_append, length_shift, ih, List.map_cons, Edge.total_cons]

@[simp] theorem length_rangesFrom (start : Nat) (sizes : List Nat) :
    (rangesFrom start sizes).length = sizes.length := by
  induction sizes generalizing start with
  | nil => rfl
  | cons size sizes ih => rw [rangesFrom, List.length_cons, ih, List.length_cons]

theorem ranges_of_fits (he : edge.Fits) : ranges edge = rangesFrom 0 edge.sizes := by
  have hlimit : Edge.pointLimit < UInt64.size := by decide
  have hpositions : edge.points.map Edge.position = Edge.pointsFrom 0 edge.sizes := by
    rw [Edge.points, List.map_map]
    refine (List.map_congr_left fun n hn => ?_).trans (List.map_id _)
    have hle := (Edge.le_of_mem_pointsFrom hn).2
    rw [Nat.zero_add] at hle
    rw [Function.comp_apply, Edge.position_ofNat,
      Nat.mod_eq_of_lt (Nat.lt_trans (Nat.lt_of_le_of_lt hle he) hlimit), id]
  have hzip : ∀ start sizes, (Edge.pointsFrom start sizes).zip (Edge.pointsFrom start sizes).tail =
      rangesFrom start sizes := by
    intro start sizes
    induction sizes generalizing start with
    | nil => rfl
    | cons size sizes ih =>
        rw [Edge.pointsFrom, List.tail_cons, rangesFrom, ← ih]
        nth_rewrite 2 [Edge.pointsFrom_eq_cons]
        rw [List.zip_cons_cons]
  rw [ranges, hpositions, hzip]

section Cells

variable {α : Type} [DecidableEq α] [Cell α]

/-- A key renumbers one segment after another. -/
theorem foldlM_processSegment (sorted : Bool) (first : Nat) (before : List (Option Nat))
    (passed cells : List (Option α)) (h : Laid ids segments)
    (hpassed : passed.length = before.length) (hcells : cells.length = ids.length) :
    ∃ count, (rangesFrom before.length (segments.map List.length)).foldlM
        (processSegment sorted (passed ++ cells)) (before ++ ids, first) =
      .ok (before ++ laidOut first (segments.zipWith (refine sorted)
        (Edge.cut (segments.map List.length) cells)), count) := by
  induction h generalizing first before passed cells with
  | nil => exact ⟨first, rfl⟩
  | @cons ids labels segments k _ ih =>
      rw [List.length_append, length_shift] at hcells
      have hcurrent : (cells.take labels.length).length = labels.length := by
        rw [List.length_take]
        omega
      have hstep := processSegment_eq sorted k first before labels ids passed
        (cells.take labels.length) (cells.drop labels.length) hpassed hcurrent
      obtain ⟨count, hrest⟩ := ih (first + (groupsOf (refine sorted labels
          (cells.take labels.length))).length)
        (before ++ shift first (refine sorted labels (cells.take labels.length)))
        (passed ++ cells.take labels.length) (cells.drop labels.length) (by
          simp only [List.length_append, length_shift, hpassed, hcurrent,
            length_refine hcurrent.symm]) (by
          rw [List.length_drop]
          omega)
      simp only [List.append_assoc, List.take_append_drop, List.length_append, length_shift,
        length_refine hcurrent.symm] at hstep hrest
      refine ⟨count, ?_⟩
      rw [List.map_cons, rangesFrom, List.foldlM_cons, hstep, ok_bind, hrest]
      rfl

theorem map_length_refine (sorted : Bool) {cells : List (Option α)}
    (hcells : Edge.total (segments.map List.length) ≤ cells.length) :
    (segments.zipWith (refine sorted) (Edge.cut (segments.map List.length) cells)).map List.length =
      segments.map List.length := by
  induction segments generalizing cells with
  | nil => rfl
  | cons labels segments ih =>
      rw [List.map_cons, Edge.total_cons] at hcells
      have hcurrent : labels.length = (cells.take labels.length).length := by
        rw [List.length_take]
        omega
      have hrest : Edge.total (segments.map List.length) ≤ (cells.drop labels.length).length := by
        rw [List.length_drop]
        omega
      rw [List.map_cons, Edge.cut, List.zipWith_cons_cons, List.map_cons, ih hrest,
        length_refine hcurrent]

theorem compact_of_mem_zipWith {segments : List (List (Option Nat))}
    {pieces : List (List (Option α))} {labels : List (Option Nat)}
    (h : labels ∈ segments.zipWith (refine sorted) pieces) : Compact labels := by
  obtain ⟨i, hi⟩ := List.mem_iff_getElem?.1 h
  obtain ⟨old, cells, -, -, rfl⟩ := List.getElem?_zipWith_eq_some.1 hi
  exact compact_refine sorted old cells

theorem processValues_eq (sorted : Bool) {cells : List (Option α)} (h : Laid ids segments)
    (he : edge.Fits) (hsizes : segments.map List.length = edge.sizes)
    (hcells : cells.length = Edge.total edge.sizes) :
    processValues sorted cells ids (ranges edge) =
      .ok (laidOut 0 (segments.zipWith (refine sorted) (edge.segments cells))) := by
  have hlength : cells.length = ids.length := by rw [hcells, h.length, hsizes]
  obtain ⟨count, hrun⟩ := foldlM_processSegment sorted 0 [] [] cells h rfl hlength
  rw [hsizes] at hrun
  simp only [List.nil_append, List.length_nil] at hrun
  rw [processValues, ranges_of_fits he, hrun, ok_bind]
  rfl

end Cells

theorem compact_map_none (labels : List (Option Nat)) :
    Compact (labels.map fun _ => none) := by
  intro g
  rw [groupsOf_map_none]
  exact iff_of_false (fun ⟨p, hp⟩ => getElem?_map_none_ne labels p g hp) (Nat.not_lt_zero g)

theorem Laid.map_none (h : Laid ids segments) (first : Nat) :
    ids.map (fun _ => none) =
      laidOut first (segments.map fun labels => labels.map fun _ => none) := by
  induction h with
  | nil => rfl
  | @cons ids labels segments k _ ih =>
      rw [List.map_append, ih, List.map_cons, laidOut, groupsOf_map_none, shift, shift,
        List.map_map, List.map_map]
      rfl

/-- What a column does to the labels of segments, it does to the buffer that holds them. -/
theorem processKey_eq (sorted : Bool) (h : Laid ids segments) (he : edge.Fits)
    (hsizes : segments.map List.length = edge.sizes) (hc : c.size = Edge.total edge.sizes) :
    processKey sorted (ranges edge) ids c =
      .ok (laidOut 0 (refineColumn sorted edge segments c)) := by
  cases c with
  | empty n => exact congrArg Except.ok (h.map_none 0)
  | typed t cells => exact processValues_eq sorted h he hsizes hc
  | mixed items => exact processValues_eq sorted h he hsizes ((List.length_map _).trans hc)

theorem map_length_refineColumn (sorted : Bool) (hsizes : segments.map List.length = edge.sizes)
    (hc : c.size = Edge.total edge.sizes) :
    (refineColumn sorted edge segments c).map List.length = edge.sizes := by
  have hle : Edge.total (segments.map List.length) ≤ c.size := Nat.le_of_eq (hsizes ▸ hc.symm)
  rw [← hsizes]
  cases c with
  | empty n => simp [refineColumn]
  | typed t cells =>
      rw [refineColumn, Edge.segments, ← hsizes]
      exact map_length_refine sorted hle
  | mixed items =>
      rw [refineColumn, Edge.segments, ← hsizes]
      exact map_length_refine sorted (by rw [List.length_map]; exact hle)

theorem compact_of_mem_refineColumn {labels : List (Option Nat)}
    (h : labels ∈ refineColumn sorted edge segments c) : Compact labels := by
  cases c with
  | empty n =>
      obtain ⟨old, -, rfl⟩ := List.mem_map.1 h
      exact compact_map_none old
  | typed t cells => exact compact_of_mem_zipWith h
  | mixed items => exact compact_of_mem_zipWith h

theorem refineKeys_of_ne {key : Slice} (hshape : key.shape ≠ shape) :
    refineKeys sorted shape edge segments (key :: keys) = .error .groupKeyShapes := by
  rw [Ne, ← Shape.isEquivalentTo_iff, Bool.not_eq_true] at hshape
  rw [refineKeys, hshape]
  rfl

theorem run_processKeys_of_ne {key : Slice} {ranges : List (Nat × Nat)}
    (hshape : key.shape ≠ shape) :
    (processKeys sorted shape ranges ids (key :: keys)).run = .ok (.error .groupKeyShapes) := by
  rw [Ne, ← Shape.isEquivalentTo_iff, Bool.not_eq_true] at hshape
  rw [processKeys, hshape]
  rfl

theorem run_processKeys_cons {key : Slice} {ranges : List (Nat × Nat)}
    (hshape : key.shape = shape) :
    (processKeys sorted shape ranges ids (key :: keys)).run =
      match checkKey sorted key.column with
      | .error e => .ok (.error e)
      | .ok _ => processKey sorted ranges ids key.column >>= fun ids =>
        (processKeys sorted shape ranges ids keys).run := by
  rw [processKeys, Shape.isEquivalentTo_iff.2 hshape, checkKey]
  cases sorted with
  | false => simp
  | true =>
      cases checkSortable key.column with
      | error e => rfl
      | ok =>
          simp only [ExceptT.stM_eq, Bool.not_true, Bool.false_eq_true, ↓reduceIte,
            ExceptT.run_bind, run_liftM, ExceptT.run_lift, bind_map_left, ok_bind]

/-- The keys leave the labels of `refineKeys` in the buffer, or fail where that fails. -/
theorem run_processKeys (sorted : Bool) (h : Laid ids segments) (he : edge.Fits)
    (hsizes : segments.map List.length = edge.sizes)
    (hcolumns : ∀ key ∈ keys, key.shape = shape → key.column.size = Edge.total edge.sizes) :
    (processKeys sorted shape (ranges edge) ids keys).run =
      .ok ((refineKeys sorted shape edge segments keys).map fun refined =>
        if keys.isEmpty then ids else laidOut 0 refined) := by
  induction keys generalizing ids segments with
  | nil => rfl
  | cons key keys ih =>
      by_cases hshape : key.shape = shape
      · rw [run_processKeys_cons hshape, refineKeys_cons hshape]
        cases hcheck : checkKey sorted key.column with
        | error e => rfl
        | ok =>
            have hc := hcolumns key List.mem_cons_self hshape
            have hrest := ih (laid_laidOut 0 (refineColumn sorted edge segments key.column))
              (map_length_refineColumn sorted hsizes hc)
              fun k hk => hcolumns k (List.mem_cons_of_mem key hk)
            simp only [processKey_eq sorted h he hsizes hc, ok_bind, hrest, Except.bind,
              List.isEmpty_cons, Bool.false_eq_true, if_false]
            cases keys with
            | nil => rfl
            | cons k keys => rfl
      · rw [run_processKeys_of_ne hshape, refineKeys_of_ne hshape]
        rfl

/-! ### Labels after all keys -/

theorem laid_wholeSegments (edge : Edge) :
    Laid (List.replicate (Edge.total edge.sizes) (some 0)) (wholeSegments edge) := by
  rw [wholeSegments]
  induction edge.sizes with
  | nil => exact .nil
  | cons size sizes ih =>
      have hfirst : shift 0 (List.replicate size (some 0)) = List.replicate size (some 0) := by
        rw [shift, List.map_replicate]
        rfl
      rw [Edge.total_cons, ← List.replicate_append_replicate, ← hfirst]
      exact .cons 0 ih

/-- A first key that is passed has the shape and is sortable if it has to be. -/
theorem refineKeys_cons_eq_ok {key : Slice} :
    refineKeys sorted shape edge segments (key :: keys) = .ok refined ↔
      key.shape = shape ∧ checkKey sorted key.column = .ok () ∧
        refineKeys sorted shape edge (refineColumn sorted edge segments key.column) keys =
          .ok refined := by
  by_cases hshape : key.shape = shape
  · rw [refineKeys_cons hshape]
    cases checkKey sorted key.column with
    | error e => exact iff_of_false nofun fun h => nomatch h.2.1
    | ok => exact ⟨fun h => ⟨hshape, rfl, h⟩, fun h => h.2.2⟩
  · rw [refineKeys_of_ne hshape]
    exact iff_of_false nofun fun h => hshape h.1

theorem shape_of_refineKeys (h : refineKeys sorted shape edge segments keys = .ok refined) :
    ∀ key ∈ keys, key.shape = shape := by
  induction keys generalizing segments with
  | nil => exact List.forall_mem_nil _
  | cons key keys ih =>
      obtain ⟨hshape, -, hrest⟩ := refineKeys_cons_eq_ok.1 h
      exact List.forall_mem_cons.2 ⟨hshape, ih hrest⟩

/-- After a key, the labels of every segment have no gaps. -/
theorem compact_of_refineKeys (h : refineKeys sorted shape edge segments keys = .ok refined)
    (hkeys : keys ≠ [] ∨ ∀ labels ∈ segments, Compact labels) :
    ∀ labels ∈ refined, Compact labels := by
  induction keys generalizing segments with
  | nil =>
      obtain rfl := Except.ok.inj h
      exact hkeys.resolve_left fun hne => hne rfl
  | cons key keys ih =>
      obtain ⟨-, -, hrest⟩ := refineKeys_cons_eq_ok.1 h
      exact ih hrest (Or.inr fun labels => compact_of_mem_refineColumn)

theorem map_length_refineKeys (h : refineKeys sorted shape edge segments keys = .ok refined)
    (hsizes : segments.map List.length = edge.sizes)
    (hcolumns : ∀ key ∈ keys, key.shape = shape → key.column.size = Edge.total edge.sizes) :
    refined.map List.length = edge.sizes := by
  induction keys generalizing segments with
  | nil =>
      obtain rfl := Except.ok.inj h
      exact hsizes
  | cons key keys ih =>
      obtain ⟨hshape, -, hrest⟩ := refineKeys_cons_eq_ok.1 h
      have hc := hcolumns key List.mem_cons_self hshape
      exact ih hrest (map_length_refineColumn sorted hsizes hc)
        fun k hk => hcolumns k (List.mem_cons_of_mem key hk)

theorem map_length_wholeSegments (edge : Edge) :
    (wholeSegments edge).map List.length = edge.sizes := by
  rw [wholeSegments, List.map_map]
  exact (List.map_congr_left fun size _ => List.length_replicate).trans (List.map_id _)

end ObjectGraph.Grouping
