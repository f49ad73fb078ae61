import ObjectGraph.Proofs.Grouping.InRange

/-!
# Columns processed as their items

A column of one type is processed on its plain values, and a mixed column on its items. The
items of a typed column keep the keys and the order of its values, so the loops over them
go in step: they read the same positions, meet the same classes at the same time and number
and sort them alike. An unknown column is processed as a column without present items.

The groups and the distinct items hence depend on the items of a column only, as long as
they are not sorted: a mixed column cannot be, even if its items are of one type.
-/

namespace ObjectGraph

open Buffer Grouping

/-- A map of values that keeps them apart, with their keys, their order and their items. -/
structure Cell.Embeds {α β : Type} [Cell α] [Cell β] (f : α → β) : Prop where
  injective : Function.Injective f
  key : ∀ v, f (Cell.key v) = Cell.key (f v)
  sortCmp : ∀ a b : α, Cell.sortCmp (f a) (f b) = Cell.sortCmp a b
  item : ∀ v, Cell.item (f v) = Cell.item v

theorem ElementType.embeds_item (t : ElementType) :
    Cell.Embeds (Cell.item : t.Value → Item) where
  injective a b h := by
    have hvalue := congrArg t.value? h
    rw [value?_item, value?_item] at hvalue
    exact Option.some.inj hvalue
  key := item_key t
  sortCmp := sortCmp_item t
  item _ := rfl

namespace Grouping

/-! ### Classes under a map -/

section Map

variable {α β : Type} {F : α → β} {same : α → α → Bool} {same' : β → β → Bool}

theorem enter_map (hsame : ∀ a b, same' (F a) (F b) = same a b) (met : List α) (m : α) :
    enter same' (met.map F) (F m) = (enter same met m).map F := by
  have hany : (met.map F).any (same' · (F m)) = met.any (same · m) := by
    rw [List.any_map]
    congr 1
    funext d
    exact hsame d m
  rw [enter, enter, hany]
  cases met.any (same · m) with
  | true => rfl
  | false => simp

theorem findIdx?_map_same (hsame : ∀ a b, same' (F a) (F b) = same a b) (met : List α) (m : α) :
    (met.map F).findIdx? (same' (F m)) = met.findIdx? (same m) := by
  rw [List.findIdx?_map]
  congr 1
  funext d
  exact hsame m d

end Map

section Order

variable {α β : Type} [Cell α] [Cell β] {F : Nat × α → Nat × β}

theorem order_map (horder : ∀ a b, classOrder (F a) (F b) = classOrder a b)
    (met : List (Nat × α)) : order (met.map F) = order met := by
  -- The lengths are equal, but not by definition: the positions to be sorted are cast.
  have hlength : (met.map F).length = met.length := List.length_map _
  have hcast : ∀ n (h : n = met.length),
      (List.finRange n).map (Fin.cast h) = List.finRange met.length := by
    rintro _ rfl
    exact List.map_id _
  have hsort := List.map_mergeSort (f := Fin.cast hlength)
    (l := List.finRange (met.map F).length)
    (r := fun a b => classOrder (met.map F)[a] (met.map F)[b])
    (s := fun a b => classOrder met[a] met[b]) fun a _ b _ => by
      simp only [Fin.getElem_fin, List.getElem_map, Fin.val_cast, horder]
  rw [order, order, ← hcast _ hlength, ← hsort, List.map_map]
  rfl

theorem ranks_map (horder : ∀ a b, classOrder (F a) (F b) = classOrder a b)
    (met : List (Nat × α)) : ranks (met.map F) = ranks met := by
  rw [ranks, ranks, order_map horder, List.length_map]

end Order

/-- A member with its value mapped. -/
def mapMember {α β : Type} (f : α → β) (m : Nat × α) : Nat × β :=
  (m.1, f m.2)

/-- The state of the numbering loop with the values of the classes mapped. -/
def mapMet {α β : Type} (f : α → β) (state : List (Option Nat) × List (Nat × α)) :
    List (Option Nat) × List (Nat × β) :=
  (state.1, state.2.map (mapMember f))

theorem members_map {α β : Type} (f : α → β) (labels : List (Option Nat))
    (cells : List (Option α)) : members labels (cells.map (Option.map f)) =
      (members labels cells).map (Option.map (mapMember f)) := by
  rw [members, members, List.zipWith_map_right, List.map_zipWith]
  congr 1
  funext group cell
  cases group <;> cases cell <;> rfl

end Grouping

namespace Cell.Embeds

variable {α β : Type} [Cell α] [Cell β] {f : α → β}

/-! ### Keys and orders -/

theorem classOrder_map (h : Embeds f) (a b : Nat × α) :
    classOrder (mapMember f a) (mapMember f b) = classOrder a b := by
  rw [classOrder, classOrder, mapMember, mapMember, h.sortCmp]

theorem ascending_map (h : Embeds f) (a b : α) : ascending (f a) (f b) = ascending a b := by
  rw [ascending, ascending, h.sortCmp]

variable [DecidableEq α] [DecidableEq β]

theorem sameKey_map (h : Embeds f) (a b : α) : sameKey (f a) (f b) = sameKey a b := by
  rw [Bool.eq_iff_iff, sameKey, sameKey, beq_iff_eq, beq_iff_eq, ← h.key, ← h.key,
    h.injective.eq_iff]

theorem sameClass_map (h : Embeds f) (a b : Nat × α) :
    sameClass (mapMember f a) (mapMember f b) = sameClass a b :=
  congrArg (a.1 == b.1 && ·) (h.sameKey_map a.2 b.2)

/-! ### The loop that numbers the groups -/

theorem visit_map (h : Embeds f) (cells : List (Option α)) (first : Nat)
    (state : List (Option Nat) × List (Nat × α)) (i : Nat) :
    visit (cells.map (Option.map f)) first (mapMet f state) i =
      mapMet f <$> visit cells first state i := by
  rw [visit, visit, read_map, map_bind]
  refine bind_congr fun group => ?_
  rw [bind_map_left, map_bind]
  refine bind_congr fun cell => ?_
  cases group with
  | none => rw [map_bind]; rfl
  | some g =>
      cases cell with
      | none => rw [map_bind]; rfl
      | some v =>
          have hmet := enter_map h.sameClass_map state.2 (g, v)
          have hnumber := findIdx?_map_same h.sameClass_map
            (enter sameClass state.2 (g, v)) (g, v)
          simp only [mapMember] at hmet hnumber
          simp only [Option.map_some, mapMet, hmet, hnumber, map_bind]
          rfl

theorem processSegment_map (h : Embeds f) (sorted : Bool) (cells : List (Option α))
    (state : List (Option Nat) × Nat) (range : Nat × Nat) :
    processSegment sorted (cells.map (Option.map f)) state range =
      processSegment sorted cells state range := by
  have hloop := foldlM_hom (mapMet f) (h.visit_map cells state.2)
    (List.range' range.1 (range.2 - range.1)) (state.1, [])
  rw [mapMet, List.map_nil] at hloop
  rw [processSegment, processSegment, hloop, bind_map_left]
  refine bind_congr fun met => ?_
  simp only [mapMet, List.length_map, sortSegment, ranks_map h.classOrder_map]

/-- The values of a column and their images split the groups alike. -/
theorem processValues_map (h : Embeds f) (sorted : Bool) (cells : List (Option α))
    (ids : List (Option Nat)) (ranges : List (Nat × Nat)) :
    processValues sorted (cells.map (Option.map f)) ids ranges =
      processValues sorted cells ids ranges := by
  have hsegment : processSegment sorted (cells.map (Option.map f)) =
      processSegment sorted cells := by
    funext state range
    exact h.processSegment_map sorted cells state range
  rw [processValues, processValues, hsegment]

/-! ### The loop that looks for distinct values -/

theorem see_map (h : Embeds f) (cells : List (Option α)) (seen : List α) (i : Nat) :
    see (cells.map (Option.map f)) (seen.map f) i = List.map f <$> see cells seen i := by
  rw [see, see, read_map, bind_map_left, map_bind]
  refine bind_congr fun cell => ?_
  cases cell with
  | none => rfl
  | some v => exact congrArg Except.ok (enter_map h.sameKey_map seen v)

theorem uniqueSegment_map (h : Embeds f) (sorted : Bool) (cells : List (Option α))
    (range : Nat × Nat) : uniqueSegment sorted (cells.map (Option.map f)) range =
      List.map f <$> uniqueSegment sorted cells range := by
  have hloop := foldlM_hom (List.map f) (h.see_map cells)
    (List.range' range.1 (range.2 - range.1)) []
  rw [List.map_nil] at hloop
  rw [uniqueSegment, uniqueSegment, hloop, bind_map_left, map_bind]
  refine bind_congr fun seen => ?_
  cases sorted with
  | false => rfl
  | true =>
      have hsort := List.map_mergeSort (l := seen) fun a _ b _ => (h.ascending_map a b).symm
      exact congrArg Except.ok hsort.symm

/-- The distinct values of a column and their images are the same items. -/
theorem uniqueValues_map (h : Embeds f) (sorted : Bool) (cells : List (Option α))
    (ranges : List (Nat × Nat)) :
    uniqueValues sorted (cells.map (Option.map f)) ranges = uniqueValues sorted cells ranges := by
  rw [uniqueValues, uniqueValues, mapM_hom (List.map f) (h.uniqueSegment_map sorted cells),
    bind_map_left]
  refine bind_congr fun segments => ?_
  have hitem : Cell.item ∘ f = Cell.item := funext h.item
  simp only [List.map_map, Function.comp_def] at hitem ⊢
  rw [hitem]

/-! ### Groups and distinct values of a segment -/

theorem refine_map (h : Embeds f) (sorted : Bool) (labels : List (Option Nat))
    (cells : List (Option α)) : refine sorted labels (cells.map (Option.map f)) =
      refine sorted labels cells := by
  rw [refine_eq_numbers, refine_eq_numbers, members_map, List.reduceOption_map,
    classes_map h.sameClass_map h.classOrder_map, numbers_map h.sameClass_map]

theorem distinctValues_map (h : Embeds f) (sorted : Bool) (cells : List (Option α)) :
    distinctValues sorted (cells.map (Option.map f)) = (distinctValues sorted cells).map f := by
  have hsame : (fun a b => sameKey (f a) (f b)) = sameKey := by
    funext a b
    exact h.sameKey_map a b
  rw [distinctValues, List.reduceOption_map, distinctBy_map, hsame]
  cases sorted with
  | false => rfl
  | true => exact (List.map_mergeSort fun a _ b _ => (h.ascending_map a b).symm).symm

end Cell.Embeds

namespace Grouping

/-! ### Columns by their items -/

theorem presentCells_typed (t : ElementType) (cells : List (Option t.Value)) :
    (Column.typed t cells).items.map presentCell = cells.map (Option.map Cell.item) := by
  rw [Column.items, List.map_map]
  refine List.map_congr_left fun cell _ => ?_
  cases cell with
  | none => rfl
  | some v =>
      have hpresent : (Cell.item v).isPresent = true := by cases t <;> rfl
      exact if_pos hpresent

theorem presentCells_empty (n : Nat) :
    (Column.empty n).items.map presentCell = List.replicate n none :=
  List.map_replicate

variable {sorted : Bool} {edge : Edge} {segments : List (List (Option Nat))} {c : Column}

theorem refine_replicate_none {α : Type} [DecidableEq α] [Cell α] (sorted : Bool)
    (labels : List (Option Nat)) :
    refine sorted labels (List.replicate labels.length (none : Option α)) =
      labels.map fun _ => none := by
  have hmembers : members labels (List.replicate labels.length (none : Option α)) =
      labels.map fun _ => none := by
    induction labels with
    | nil => rfl
    | cons label labels ih =>
        rw [List.length_cons, List.replicate_succ, List.map_cons, ← ih]
        cases label <;> rfl
  rw [refine_eq_numbers, hmembers, numbers, List.map_map]
  rfl

theorem distinctValues_replicate_none {α : Type} [DecidableEq α] [Cell α] (sorted : Bool)
    (n : Nat) : distinctValues sorted (List.replicate n (none : Option α)) = [] := by
  rw [distinctValues, List.reduceOption_replicate_none]
  cases sorted with
  | false => rfl
  | true => exact List.mergeSort_nil

theorem zipWith_refine_none {n : Nat} (hn : Edge.total (segments.map List.length) ≤ n) :
    segments.zipWith (refine sorted)
        (Edge.cut (segments.map List.length) (List.replicate n (none : Option Item))) =
      segments.map fun labels => labels.map fun _ => none := by
  induction segments generalizing n with
  | nil => rfl
  | cons labels segments ih =>
      rw [List.map_cons, Edge.total_cons] at hn
      rw [List.map_cons, Edge.cut, List.take_replicate, List.drop_replicate,
        Nat.min_eq_left (by omega), List.zipWith_cons_cons, refine_replicate_none, ih (by omega),
        List.map_cons]

theorem refineColumn_typed (sorted : Bool) (edge : Edge) (segments : List (List (Option Nat)))
    (t : ElementType) (cells : List (Option t.Value)) :
    refineColumn sorted edge segments (.mixed (Column.typed t cells).items) =
      refineColumn sorted edge segments (.typed t cells) := by
  rw [refineColumn, refineColumn, presentCells_typed, Edge.segments, Edge.cut_map,
    List.zipWith_map_right]
  congr 1
  funext labels cells
  exact t.embeds_item.refine_map sorted labels cells

/-- A key splits the groups by the items of its column. -/
theorem refineColumn_mixed_items (sorted : Bool) (hsizes : segments.map List.length = edge.sizes)
    (hc : c.size = Edge.total edge.sizes) :
    refineColumn sorted edge segments (.mixed c.items) = refineColumn sorted edge segments c := by
  cases c with
  | empty n =>
      rw [refineColumn, refineColumn, presentCells_empty, Edge.segments, ← hsizes]
      exact zipWith_refine_none (Nat.le_of_eq (hsizes ▸ hc.symm))
  | typed t cells => exact refineColumn_typed sorted edge segments t cells
  | mixed items => rfl

theorem distinctItems_mixed_items (sorted : Bool) (edge : Edge) (c : Column) :
    distinctItems sorted edge (.mixed c.items) = distinctItems sorted edge c := by
  cases c with
  | empty n =>
      rw [distinctItems, distinctItems, presentCells_empty, Edge.segments]
      induction edge.sizes generalizing n with
      | nil => rfl
      | cons size sizes ih =>
          rw [Edge.cut, List.take_replicate, List.drop_replicate, List.map_cons, ih, List.map_cons,
            distinctValues_replicate_none]
  | typed t cells =>
      rw [distinctItems, distinctItems, presentCells_typed, Edge.segments, Edge.cut_map,
        List.map_map]
      exact List.map_congr_left fun segment _ => t.embeds_item.distinctValues_map sorted segment
  | mixed items => rfl

end Grouping

/-! ### Slices by their items -/

/-- Slices of one shape with the same items. -/
structure Slice.Alike (x y : Slice) : Prop where
  shape : x.shape = y.shape
  column : x.column.same y.column = true

namespace Slice

variable {x y : Slice}

theorem Alike.items (h : x.Alike y) : x.column.items = y.column.items :=
  eq_of_beq h.column

theorem content_of_scalar (hx : x.Valid) (hshape : x.shape = .scalar) :
    ∃ i, x.content = .item i := by
  cases hcontent : x.content with
  | item i => exact ⟨i, rfl⟩
  | column c =>
      have hvalid := hx.2
      rw [hcontent, hshape] at hvalid
      exact absurd rfl hvalid.1

/-- Slices without dimensions are alike if they hold the same item. -/
theorem Alike.content (h : x.Alike y) (hx : x.Valid) (hy : y.Valid) (hshape : x.shape = .scalar) :
    x.content = y.content := by
  obtain ⟨i, hi⟩ := content_of_scalar hx hshape
  obtain ⟨j, hj⟩ := content_of_scalar hy (h.shape ▸ hshape)
  have hitems := h.items
  simp only [Slice.column, hi, hj, Column.items_ofItems, List.singleton_inj] at hitems
  rw [hi, hj, hitems]

theorem Alike.eq_of_scalar (h : x.Alike y) (hx : x.Valid) (hy : y.Valid)
    (hshape : x.shape = .scalar) : y = (x.withSchema y.schema).withBag y.bag := by
  have hcontent := h.content hx hy hshape
  have hshapes := h.shape
  cases x
  cases y
  subst hcontent hshapes
  rfl

theorem Alike.item? (h : x.Alike y) (hx : x.Valid) (hy : y.Valid) : x.item? = y.item? := by
  by_cases hshape : x.shape = .scalar
  · rw [Slice.item?, Slice.item?, h.content hx hy hshape]
  · have hnone : ∀ z : Slice, z.Valid → z.shape ≠ .scalar → z.item? = none := by
      intro z hz hne
      cases hcontent : z.content with
      | item i =>
          have hvalid := hz.2
          rw [hcontent] at hvalid
          exact absurd hvalid hne
      | column c => rw [Slice.item?, hcontent]
    rw [hnone x hx hshape, hnone y hy (h.shape ▸ hshape)]

end Slice

namespace Grouping

variable {xs ys : List Slice} {edge : Edge} {segments : List (List (Option Nat))}

theorem refineColumn_congr {c d : Column} (h : c.items = d.items)
    (hsizes : segments.map List.length = edge.sizes) (hc : c.size = Edge.total edge.sizes) :
    refineColumn false edge segments c = refineColumn false edge segments d := by
  have hd : d.size = Edge.total edge.sizes := by
    rw [← hc, ← Column.length_items, ← Column.length_items, h]
  rw [← refineColumn_mixed_items false hsizes hc, ← refineColumn_mixed_items false hsizes hd, h]

theorem distinctItems_congr {c d : Column} (h : c.items = d.items) (sorted : Bool) (edge : Edge) :
    distinctItems sorted edge c = distinctItems sorted edge d := by
  rw [← distinctItems_mixed_items, h, distinctItems_mixed_items]

/-- Keys that are alike one by one leave the same labels, or fail at the same key. -/
theorem refineKeys_congr (shape : Shape) (h : List.Forall₂ Slice.Alike xs ys)
    (hsizes : segments.map List.length = edge.sizes)
    (hcolumns : ∀ x ∈ xs, x.shape = shape → x.column.size = Edge.total edge.sizes) :
    refineKeys false shape edge segments xs = refineKeys false shape edge segments ys := by
  induction h generalizing segments with
  | nil => rfl
  | @cons x y xs ys hxy _ ih =>
      by_cases hshape : x.shape = shape
      · have hx := hcolumns x List.mem_cons_self hshape
        have hrest := ih (map_length_refineColumn false hsizes hx) fun k hk =>
          hcolumns k (List.mem_cons_of_mem x hk)
        rw [refineKeys_cons hshape, refineKeys_cons (hxy.shape.symm.trans hshape), hrest,
          refineColumn_congr hxy.items hsizes hx]
        rfl
      · -- Both stop at this key, on its shape.
        rw [refineKeys_of_ne hshape, refineKeys_of_ne (hxy.shape ▸ hshape)]

theorem groupBy_congr (hxs : ∀ x ∈ xs, x.Valid) (h : List.Forall₂ Slice.Alike xs ys) :
    groupBy false xs = groupBy false ys := by
  cases h with
  | nil => rfl
  | @cons x y xs ys hxy hrest =>
      rw [groupBy, groupBy, Slice.rank, Slice.rank, ← hxy.shape]
      cases hlast : x.shape.edges.getLast? with
      | none => rfl
      | some edge =>
          obtain ⟨outer, hshape⟩ := exists_outer hlast
          have hkeys := refineKeys_congr x.shape (.cons hxy hrest)
            (map_length_wholeSegments edge) fun k hk heq =>
              Slice.size_column_of_shape (hxs k hk) (heq.trans hshape)
          simp only [hkeys]

theorem ofColumn_withSchema (c : Column) (shape : Shape) (schema schema' : Item) :
    Slice.ofColumn c shape schema' =
      (Slice.ofColumn c shape schema).map (Slice.withSchema · schema') := by
  unfold Slice.ofColumn
  split
  · rfl
  · split <;> rfl

theorem unique_unsorted {x flag : Slice} {edge : Edge}
    (hlast : x.shape.edges.getLast? = some edge)
    (hflag : flag.item?.bind Item.bool? = some false) :
    unique x flag = (do
      let shape ← (x.shape.removeDims (x.shape.rank - 1)).addDims
        [⟨(distinctItems false edge x.column).map List.length⟩]
      let column := Column.ofItems (distinctItems false edge x.column).flatten
      return (← Slice.ofColumn column shape x.schema).withBag x.bag) := by
  rw [unique]
  simp only [hlast, hflag]
  rfl

/-- The distinct items of slices that are alike are the same, each with its own schema and
bag. -/
theorem unique_congr {x y flag flag' : Slice} (hx : x.Valid) (hy : y.Valid) (h : x.Alike y)
    (hflag : flag.item? = flag'.item?) (hunsorted : flag.item?.bind Item.bool? ≠ some true) :
    unique y flag' = (unique x flag).map fun r => (r.withSchema y.schema).withBag y.bag := by
  cases hlast : x.shape.edges.getLast? with
  | none =>
      have hscalar : x.shape = .scalar := by
        rw [List.getLast?_eq_none_iff] at hlast
        rw [Shape.scalar, ← hlast]
      simp only [unique, ← h.shape, hlast]
      exact congrArg Except.ok (h.eq_of_scalar hx hy hscalar)
  | some edge =>
      cases hbool : flag.item?.bind Item.bool? with
      | none =>
          have hbool' : flag'.item?.bind Item.bool? = none := hflag ▸ hbool
          simp only [unique, hlast, ← h.shape, hbool, hbool']
          rfl
      | some sorted =>
          obtain rfl : sorted = false := by simpa [hbool] using hunsorted
          rw [unique_unsorted hlast hbool, unique_unsorted (h.shape ▸ hlast) (hflag ▸ hbool),
            ← h.shape, ← distinctItems_congr h.items]
          cases (x.shape.removeDims (x.shape.rank - 1)).addDims
              [⟨(distinctItems false edge x.column).map List.length⟩] with
          | error e => rfl
          | ok shape =>
              simp only [bind, Except.bind, ofColumn_withSchema _ shape x.schema y.schema]
              cases Slice.ofColumn (.ofItems (distinctItems false edge x.column).flatten)
                shape x.schema <;> rfl

end Grouping

/-- The loops over the values of a typed column do what they do over its items, for all
group numbers and ranges: they give the same numbers and distinct items, or fail alike. The
same holds segment by segment. So what `groupBy` and `unique` return without sorting depends
on the shapes and the items of their arguments only; `unique` keeps the schema and the bag
of its argument. -/
theorem typed_processed_as_items :
    (∀ (t : ElementType) (cells : List (Option t.Value)) (sorted : Bool),
      (∀ (ids : List (Option Nat)) (ranges : List (Nat × Nat)),
        processValues sorted cells ids ranges =
            processValues sorted ((Column.typed t cells).items.map presentCell) ids ranges ∧
          uniqueValues sorted cells ranges =
            uniqueValues sorted ((Column.typed t cells).items.map presentCell) ranges) ∧
      ∀ (edge : Edge) (segments : List (List (Option Nat))),
        refineColumn sorted edge segments (.typed t cells) =
            refineColumn sorted edge segments (.mixed (Column.typed t cells).items) ∧
          distinctItems sorted edge (.typed t cells) =
            distinctItems sorted edge (.mixed (Column.typed t cells).items)) ∧
    (∀ xs ys : List Slice, (∀ x ∈ xs, x.Valid) → List.Forall₂ Slice.Alike xs ys →
      groupBy false xs = groupBy false ys) ∧
    ∀ x y flag flag' : Slice, x.Valid → y.Valid → x.Alike y → flag.Valid → flag'.Valid →
      flag.Alike flag' → flag.item?.bind Item.bool? ≠ some true →
      unique y flag' = (unique x flag).map fun r => (r.withSchema y.schema).withBag y.bag := by
  refine ⟨fun t cells sorted => ⟨fun ids ranges => ?_, fun edge segments => ?_⟩,
    fun xs ys hxs h => groupBy_congr hxs h, fun x y flag flag' hx hy h hflag hflag' hflags => ?_⟩
  · rw [presentCells_typed, t.embeds_item.processValues_map, t.embeds_item.uniqueValues_map]
    exact ⟨rfl, rfl⟩
  · rw [refineColumn_typed, distinctItems_mixed_items]
    exact ⟨rfl, rfl⟩
  · exact unique_congr hx hy h (hflags.item? hflag hflag')

namespace Repeats

def mixedReals : Slice :=
  ⟨.column (.mixed [.float32 ⟨0x3f800000⟩, .float32 ⟨0x80000000⟩, .missing, .float32 ⟨0⟩,
    .float32 ⟨0⟩]), TwoKeys.shape, .dtype .float32, none⟩

def blanks : Slice :=
  ⟨.column (.typed .text [none, none, none, none, none]), TwoKeys.shape, .dtype .text, none⟩

def unknowns : Slice :=
  ⟨.column (.empty 5), TwoKeys.shape, .dtype .none, none⟩

def unsorted : Slice :=
  .ofItem (.bool false) (.dtype .bool)

theorem groupBy_reals : groupBy false [reals] = .ok (ofGroups [⟨[2]⟩] [[[0], [1, 3]], [[0]]]) := by
  rfl

/-- Both zeros are one key among the items too, and the two kinds of nothing are alike. -/
theorem mixedReals_unknowns :
    processValues true [some (⟨0x3f800000⟩ : Binary.Pattern .single), some ⟨0x80000000⟩, some ⟨0⟩]
        [some 0, some 0, some 0] [(0, 3)] =
      processValues true [some (Item.float32 ⟨0x3f800000⟩), some (.float32 ⟨0x80000000⟩),
        some (.float32 ⟨0⟩)] [some 0, some 0, some 0] [(0, 3)] ∧
    groupBy false [mixedReals] = .ok (ofGroups [⟨[2]⟩] [[[0], [1, 3]], [[0]]]) ∧
    unique unknowns unsorted = (unique blanks unsorted).map
      fun r => (r.withSchema unknowns.schema).withBag unknowns.bag := by
  have hreals : reals.Valid := ⟨TwoKeys.valid_shape, by decide, rfl⟩
  have hblanks : blanks.Valid := ⟨TwoKeys.valid_shape, by decide, rfl⟩
  have hunknowns : unknowns.Valid := ⟨TwoKeys.valid_shape, by decide, rfl⟩
  have hunsorted : unsorted.Valid := ⟨trivial, rfl⟩
  obtain ⟨hvalues, hgroupBy, hunique⟩ := typed_processed_as_items
  refine ⟨((hvalues .float32 _ true).1 _ _).1, ?_, ?_⟩
  · rw [← hgroupBy [reals] [mixedReals] (List.forall_mem_singleton.2 hreals)
      (.cons ⟨rfl, by decide⟩ .nil), groupBy_reals]
  · exact hunique blanks unknowns unsorted unsorted hblanks hunknowns ⟨rfl, by decide⟩ hunsorted
      hunsorted ⟨rfl, by decide⟩ nofun

end Repeats

end ObjectGraph
