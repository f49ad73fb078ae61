import ObjectGraph.Operator.Registry
import ObjectGraph.Proofs.Grouping.Failure
import ObjectGraph.Proofs.Operator.Copy
import ObjectGraph.Proofs.Operator.Outcome

/-!
# Operators deliver valid slices

Given valid slices, every operator gives a valid slice, or it fails for another reason than
that something it has built does not fit together. Copies keep the shape of the slice that
they copy; groups and distinct items get shapes of their own, whose edges are chained to
those of the argument.
-/

namespace ObjectGraph

variable {s schema x flag : Slice} {keys args : List Slice} {c : Column} {shape : Shape}

namespace Slice

theorem valid_ofItem (item schema : Item) : (ofItem item schema).Valid :=
  ⟨trivial, rfl⟩

theorem valid_ofColumn (hshape : shape.Valid) (hsize : shape.size = c.size) (schema : Item) :
    ∃ s, ofColumn c shape schema = .ok s ∧ s.Valid := by
  rw [ofColumn, if_neg (not_not.2 hsize)]
  by_cases hrank : shape.rank = 0
  · rw [if_pos hrank]
    refine ⟨_, rfl, hshape, ?_⟩
    rw [Shape.rank, List.length_eq_zero_iff] at hrank
    exact congrArg Shape.mk hrank
  · rw [if_neg hrank]
    refine ⟨_, rfl, hshape, fun hedges => ?_, hsize.symm⟩
    exact hrank (congrArg List.length hedges)

theorem valid_flat (h : c.size < Edge.pointLimit) (schema : Item) : (flat c schema).Valid := by
  have hlt : c.size < UInt64.size := Nat.lt_trans h (by decide)
  refine ⟨Shape.valid_flat h, List.cons_ne_nil _ _, ?_⟩
  rw [flat, Shape.size_flat, Nat.mod_eq_of_lt hlt]

theorem delivers_noFollow (hs : s.Valid) : Delivers Valid s.noFollow :=
  (ObjectGraph.delivers_noFollow s.schema).bind fun _ _ => hs

theorem delivers_followed (hs : s.Valid) : Delivers Valid s.followed :=
  (ObjectGraph.delivers_followed s.schema).bind fun _ _ => hs

/-! ### Copies -/

theorem delivers_copySource (use : BagUse) (s schema : Slice) :
    Session.Delivers (fun _ => True) (copySource use s schema) := by
  unfold copySource
  split
  · split
    · next bag _ item _ =>
        refine (Session.delivers_liftExcept (delivers_verify item)).bind fun _ _ => ?_
        refine Session.Delivers.bind (P := fun _ => True) (fun _ => trivial) fun w _ => ?_
        exact Session.delivers_pure trivial
    · exact Session.delivers_throw not_false
  · exact Session.delivers_throw not_false

theorem delivers_extract (hs : s.Valid) (schema : Slice) :
    Session.Delivers Valid (s.extract schema) := by
  unfold extract
  refine (delivers_copySource .extract s schema).bind fun source _ => ?_
  refine (Session.delivers_liftExcept (Walk.delivers_run _ _ _)).bind fun store _ => ?_
  exact (Session.delivers_liftState _).bind fun bag _ => Session.delivers_pure hs

/-- The column of fresh ids is as long as the one that it is made from. -/
theorem delivers_shallowClone (hs : s.Valid) (schema : Slice) :
    Session.Delivers Valid (s.shallowClone schema) := by
  unfold shallowClone
  refine (delivers_copySource .clone s schema).bind fun source _ => ?_
  refine Session.Delivers.bind (P := Delivers fun r => r.2.1.size = s.column.size) (fun w => ?_)
    fun outcome houtcome => ?_
  · rw [Session.after_modifyGet]
    exact (Walk.delivers_run _ _ _).map fun store _ => Renaming.size_renameColumn _ _
  · refine (Session.delivers_liftExcept houtcome).bind fun r hsize => ?_
    obtain ⟨store, column, item⟩ := r
    have hbag : ∀ cloned : Slice, cloned.Valid → Session.Delivers Valid (do
        let bag ← Workspace.newBag store
        pure (cloned.withBag (some bag))) := fun cloned hcloned =>
      (Session.delivers_liftState _).bind fun bag _ => Session.delivers_pure hcloned
    simp only
    split
    · exact (Session.delivers_pure (valid_ofItem _ item)).bind hbag
    · next c hcontent =>
        have hfits := hs.2
        rw [hcontent] at hfits
        have hcolumn : column.size = c.size := by
          rw [Slice.column, hcontent] at hsize
          exact hsize
        obtain ⟨t, ht, hvalid⟩ := valid_ofColumn hs.1 (hfits.2.symm.trans hcolumn.symm) item
        rw [ht]
        exact Session.Delivers.bind (Session.delivers_liftExcept (P := Valid) hvalid) hbag

theorem delivers_clone (hs : s.Valid) (schema : Slice) :
    Session.Delivers Valid (s.clone schema) := by
  unfold clone
  split
  · refine (delivers_shallowClone hs schema).bind fun cloned hcloned => ?_
    exact (Session.delivers_liftState _).bind fun combined _ =>
      delivers_extract (s := cloned.withBag combined) hcloned _
  · exact Session.delivers_throw not_false

end Slice

/-! ### Groups -/

open Grouping

theorem delivers_checkKey (sorted : Bool) (c : Column) :
    Delivers (fun _ => True) (checkKey sorted c) := by
  unfold checkKey checkSortable
  split
  · split
    · exact not_false
    · trivial
    · split
      · trivial
      · exact not_false
  · trivial

theorem delivers_refineKeys (sorted : Bool) (shape : Shape) (edge : Edge)
    (segments : List (List (Option Nat))) (keys : List Slice) :
    Delivers (fun _ => True) (refineKeys sorted shape edge segments keys) := by
  induction keys generalizing segments with
  | nil => trivial
  | cons key keys ih =>
      by_cases hshape : key.shape = shape
      · rw [refineKeys_cons hshape]
        exact (delivers_checkKey sorted key.column).bind fun _ _ => ih _
      · rw [refineKeys_of_ne hshape]
        exact not_false

theorem delivers_groupBy (sorted : Bool) (hvalid : ∀ key ∈ keys, key.Valid) :
    Delivers Slice.Valid (groupBy sorted keys) := by
  cases keys with
  | nil => exact not_false
  | cons first keys =>
      cases hlast : first.shape.edges.getLast? with
      | none =>
          rw [groupBy]
          simp only [hlast]
          exact not_false
      | some edge =>
          obtain ⟨outer, hshape⟩ := exists_outer hlast
          have hkeys := delivers_refineKeys sorted first.shape edge (wholeSegments edge)
            (first :: keys)
          cases hrefined : refineKeys sorted first.shape edge (wholeSegments edge)
              (first :: keys) with
          | error e =>
              rw [hrefined] at hkeys
              rw [hshape] at hrefined
              rw [groupBy_error_of_refineKeys hshape hrefined]
              exact hkeys
          | ok refined =>
              have hshapes := shape_of_refineKeys hrefined
              rw [hshape] at hrefined hshapes
              obtain ⟨_, hgroupBy, hnew, -⟩ := groupBy_of_refineKeys_eq_ok (List.cons_ne_nil _ _)
                hvalid hshapes hrefined
              rw [hgroupBy]
              exact valid_ofGroups hnew

theorem delivers_unique (hx : x.Valid) (flag : Slice) : Delivers Slice.Valid (unique x flag) := by
  cases hlast : x.shape.edges.getLast? with
  | none =>
      rw [unique]
      simp only [hlast]
      exact hx
  | some edge =>
      obtain ⟨outer, hshape⟩ := exists_outer hlast
      cases hflag : flag.item?.bind Item.bool? with
      | none =>
          rw [unique]
          simp only [hlast, hflag]
          exact not_false
      | some sorted =>
          have hitem : flag.item? = some (.bool sorted) := by
            obtain ⟨item, hitem, hbool⟩ := Option.bind_eq_some_iff.1 hflag
            cases item with
            | bool b => rw [hitem, Option.some.inj hbool]
            | _ => cases hbool
          have hcheck := delivers_checkKey sorted x.column
          cases hkey : checkKey sorted x.column with
          | error e =>
              rw [hkey] at hcheck
              rw [(unique_of_checkKey_error hshape hitem hkey).1]
              exact hcheck
          | ok =>
              obtain ⟨_, _, hunique, -, -, hvalid, -⟩ := unique_of_checkKey_ok hx hshape hitem hkey
              rw [hunique]
              exact hvalid

/-! ### Calls by name -/

namespace Operator

variable {op : Operator} {config : Config} {name : String}

theorem delivers_nofollowedSchema (x : Slice) : Delivers Slice.Valid (nofollowedSchema x) := by
  unfold nofollowedSchema
  split
  · next item _ =>
      exact (delivers_followed item).bind fun schema _ => Slice.valid_ofItem schema (.dtype .schema)
  · exact not_false

theorem delivers_apply (config : Config) (htakes : op.takes args.length = true)
    (hargs : ∀ y ∈ args, y.Valid) : Session.Delivers Slice.Valid (op.apply config args) := by
  unfold apply
  split
  · next x => exact Slice.delivers_extract (hargs x List.mem_cons_self) _
  · next x schema => exact Slice.delivers_extract (hargs x List.mem_cons_self) schema
  · next x => exact Slice.delivers_shallowClone (hargs x List.mem_cons_self) _
  · next x schema => exact Slice.delivers_shallowClone (hargs x List.mem_cons_self) schema
  · next x => exact Slice.delivers_clone (hargs x List.mem_cons_self) _
  · exact Session.delivers_liftExcept (delivers_groupBy false hargs)
  · exact Session.delivers_liftExcept (delivers_groupBy true hargs)
  · next x => exact Session.delivers_liftExcept (delivers_unique (hargs x List.mem_cons_self) _)
  · next x flag =>
      exact Session.delivers_liftExcept (delivers_unique (hargs x List.mem_cons_self) flag)
  · next x =>
      exact Session.delivers_liftExcept (Slice.delivers_followed (hargs x List.mem_cons_self))
  · next x =>
      exact Session.delivers_liftExcept (Slice.delivers_noFollow (hargs x List.mem_cons_self))
  · exact Session.delivers_liftExcept (delivers_nofollowedSchema _)
  · -- Every operator is above with each number of arguments that it takes.
    exfalso
    cases op <;> grind [takes, arity, List.length_eq_one_iff, List.length_eq_two]

theorem delivers_call (config : Config)
    (htakes : ∀ op, ofName? name = some op → op.takes args.length = true)
    (hargs : ∀ y ∈ args, y.Valid) : Session.Delivers Slice.Valid (call config name args) := by
  unfold call
  split
  · next op hop =>
      rw [htakes op hop]
      exact delivers_apply config (htakes op hop) hargs
  · exact Session.delivers_throw not_false

end Operator

end ObjectGraph
