import ObjectGraph.Operator.Copy
import ObjectGraph.Proofs.Bag.Flatten
import ObjectGraph.Proofs.Operator.Session
import ObjectGraph.Proofs.Walk.Clone

/-!
# Runs of the copying operators

What extraction, shallow clones and clones do to a workspace, for any slice that the
schema is taken from. A clone is its second walk: it fails as this walk fails, and the
store of this walk is the store of its bag.
-/

namespace ObjectGraph

/-- Renames the objects of a content. -/
def Renaming.renameContent (r : Renaming) : Content → Content
  | .item item => .item (r.renameItem item)
  | .column c => .column (r.renameColumn c)

namespace Slice

open Session

variable {s schema : Slice} {bag : Handle} {b : Bag} {w : Workspace} {store : Store} {item : Item}
  {source : CopySource} {use : BagUse} {e : Error}

theorem column_renameContent (s : Slice) (r : Renaming) (bag : Option Handle) :
    (Slice.mk (r.renameContent s.content) s.shape s.schema bag).column =
      r.renameColumn s.column := by
  unfold column
  cases s.content with
  | item item => rw [Renaming.renameColumn, Column.items_ofItems]; rfl
  | column c => rfl

/-! ### Sources -/

theorem after_copySource_eq_ok (use : BagUse) (hbag : s.bag = some bag)
    (hitem : schema.item? = some item) (hschema : item.isSchema = true) :
    (copySource use s schema).after w =
      (.ok ⟨w.bags.view bag, (schema.bag.filter fun h => h ≠ bag).map w.bags.view, item⟩, w) := by
  have hverify : Schema.verify item = .ok () := if_pos hschema
  unfold copySource
  rw [hbag, hitem]
  simp only
  rw [hverify, after_bind_ok (after_liftExcept _ _), after_bind_ok (after_get w), after_pure]

theorem after_copySource_of_not_item (use : BagUse) (hbag : s.bag = some bag)
    (hitem : schema.item? = none) :
    (copySource use s schema).after w = (.error .schemaNotItem, w) := by
  unfold copySource
  rw [hbag, hitem]
  rfl

theorem after_copySource_of_not_schema (use : BagUse) (hbag : s.bag = some bag)
    (hitem : schema.item? = some item) (hschema : item.isSchema = false) :
    (copySource use s schema).after w = (.error (.notASchema item), w) := by
  have hverify : Schema.verify item = .error (.notASchema item) := by
    simp [Schema.verify, hschema]
  unfold copySource
  rw [hbag, hitem]
  simp only
  rw [hverify, after_bind_error (after_liftExcept _ _)]

/-! ### Extraction and shallow clones -/

theorem after_extract_eq_ok (hsource : (copySource .extract s schema).after w = (.ok source, w))
    (h : ObjectGraph.extract source.data source.schemas s.column source.schema = .ok store) :
    (s.extract schema).after w =
      (.ok ((s.withSchema source.schema).withBag (some (w.bags.ofStore store).1)),
        { w with bags := (w.bags.ofStore store).2 }) := by
  rw [extract, after_bind_ok hsource, h, after_bind_ok (after_liftExcept _ _),
    after_bind_ok (after_liftState _ _)]
  rfl

theorem after_extract_eq_error
    (hsource : (copySource .extract s schema).after w = (.ok source, w))
    (h : ObjectGraph.extract source.data source.schemas s.column source.schema = .error e) :
    (s.extract schema).after w = (.error e, w) := by
  rw [extract, after_bind_ok hsource, h, after_bind_error (after_liftExcept _ _)]

theorem ofColumn_of_valid (hs : s.Valid) {c d : Column} (hc : s.content = .column c)
    (hd : d.size = c.size) (schema : Item) :
    ofColumn d s.shape schema = .ok ⟨.column d, s.shape, schema, none⟩ := by
  obtain ⟨-, hfits⟩ := hs
  rw [hc] at hfits
  obtain ⟨hedges, hsize⟩ := hfits
  rw [ofColumn, if_neg (not_not.2 (hd.trans hsize).symm), if_neg]
  rw [Shape.rank, List.length_eq_zero_iff]
  exact hedges

/-- The allocations of a shallow clone are made whether or not it succeeds. -/
theorem shallowClone_eq (data : View) (schemas : Option View) (c : Column) (schema : Item)
    (a : Allocator) :
    ObjectGraph.shallowClone data schemas c schema a =
      (((Walk.firstLevel data schemas (Renaming.ofColumn c a).1).run c.roots schema).map
        fun store => (store, (Renaming.ofColumn c a).1.renameColumn c, schema),
        (Renaming.ofColumn c a).2) :=
  rfl

theorem after_shallowClone_eq_ok (hs : s.Valid)
    (hsource : (copySource .clone s schema).after w = (.ok source, w))
    (h : (Walk.firstLevel source.data source.schemas
      (Renaming.ofColumn s.column w.allocator).1).run s.column.roots source.schema = .ok store) :
    (s.shallowClone schema).after w =
      (.ok ⟨(Renaming.ofColumn s.column w.allocator).1.renameContent s.content, s.shape,
        source.schema, some (w.bags.ofStore store).1⟩,
        ⟨(w.bags.ofStore store).2, (Renaming.ofColumn s.column w.allocator).2⟩) := by
  generalize hr : (Renaming.ofColumn s.column w.allocator).1 = r at h ⊢
  rw [shallowClone, after_bind_ok hsource, after_bind_ok (after_modifyGet _ _)]
  simp only [shallowClone_eq, hr, h, Except.map]
  rw [after_bind_ok (after_liftExcept _ _)]
  cases hcontent : s.content with
  | item item =>
      have hshape : s.shape = .scalar := by
        have hfits := hs.2
        rwa [hcontent] at hfits
      have hget : (r.renameColumn s.column).get 0 = r.renameItem item := by
        rw [Renaming.get_renameColumn, column, hcontent, Column.get, Column.items_ofItems]
        rfl
      simp only
      rw [after_bind_ok (after_pure _ _), after_bind_ok (after_liftState _ _), after_pure, hshape,
        hget]
      rfl
  | column c =>
      have hcolumn : s.column = c := by rw [column, hcontent]
      have hok := ofColumn_of_valid hs hcontent (r.size_renameColumn c) source.schema
      simp only
      rw [hcolumn, hok, after_bind_ok (after_liftExcept _ _), after_bind_ok (after_liftState _ _),
        after_pure]
      rfl

theorem after_shallowClone_eq_error
    (hsource : (copySource .clone s schema).after w = (.ok source, w))
    (h : (Walk.firstLevel source.data source.schemas
      (Renaming.ofColumn s.column w.allocator).1).run s.column.roots source.schema = .error e) :
    (s.shallowClone schema).after w =
      (.error e, ⟨w.bags, (Renaming.ofColumn s.column w.allocator).2⟩) := by
  rw [shallowClone, after_bind_ok hsource, after_bind_ok (after_modifyGet _ _)]
  simp only [shallowClone_eq, h, Except.map]
  rw [after_bind_error (after_liftExcept _ _)]

/-! ### Clones -/

/-- The slice of fresh ids, with a bag. -/
def renamed (s : Slice) (r : Renaming) (bag : Handle) : Slice :=
  ⟨r.renameContent s.content, s.shape, s.schema, some bag⟩

/-- The second walk of a clone goes over the fresh ids, through the combined bag. -/
theorem after_clone_eq_extract (hs : s.Valid) (hbag : s.bag = some bag)
    (hsource : (copySource .clone s schema).after w = (.ok source, w))
    (h : (Walk.firstLevel source.data source.schemas
      (Renaming.ofColumn s.column w.allocator).1).run s.column.roots source.schema = .ok store)
    {top : Handle × Bags}
    (htop : (w.bags.ofStore store).2.combine [some (w.bags.ofStore store).1, some bag] = top)
    {c : Slice}
    (hc : c = (s.withSchema source.schema).renamed (Renaming.ofColumn s.column w.allocator).1
      top.1) :
    (s.clone schema).after w =
      (c.extract c.schemaSlice).after ⟨top.2, (Renaming.ofColumn s.column w.allocator).2⟩ := by
  rw [clone, hbag]
  simp only
  rw [after_bind_ok (after_shallowClone_eq_ok hs hsource h), after_bind_ok (after_liftState _ _)]
  subst htop hc
  rfl

theorem extract_renameColumn (v : View) (c : Column) (a : Allocator) (schema : Item) :
    ObjectGraph.extract v none ((Renaming.ofColumn c a).1.renameColumn c) schema =
      (Walk.deep v none).runTask
        ⟨c.roots.map (Renaming.ofColumn c a).1.rename, schema, .data⟩ := by
  rw [← Renaming.roots_renameColumn]
  rfl

/-- A slice is a source of itself, with one bag for data and schemas. -/
theorem after_copySource (use : BagUse) (hbag : s.bag = some bag)
    (hschema : s.schema.isSchema = true) :
    (copySource use s s.schemaSlice).after w = (.ok ⟨w.bags.view bag, none, s.schema⟩, w) := by
  have hitem : s.schemaSlice.item? = some s.schema := rfl
  rw [after_copySource_eq_ok use hbag hitem hschema]
  simp [schemaSlice, withBag, hbag]

/-- The outcome of a clone is that of its second walk. -/
theorem exists_after_clone (hs : s.Valid) (hbag : s.bag = some bag)
    (hget : w.bags.get? bag = some b) (hbags : w.bags.Valid)
    (hsource : (copySource .clone s schema).after w = (.ok source, w))
    (hschema : source.schema.isSchema = true)
    (h : (Walk.firstLevel source.data source.schemas
      (Renaming.ofColumn s.column w.allocator).1).run s.column.roots source.schema = .ok store)
    {outcome : Except Error Store}
    (houtcome : (Walk.deep (Renaming.combined (w.bags.view bag) store) none).runTask
      ⟨s.column.roots.map (Renaming.ofColumn s.column w.allocator).1.rename, source.schema,
        .data⟩ = outcome) :
    ∃ (top : Handle) (bags : Bags), w.bags.made.length ≤ bags.made.length ∧
      (∀ e, outcome = .error e → ((s.clone schema).after w).1 = .error e) ∧
      ∀ t, outcome = .ok t → (s.clone schema).after w =
        (.ok (((s.withSchema source.schema).renamed
          (Renaming.ofColumn s.column w.allocator).1 top).withBag (some (bags.ofStore t).1)),
          ⟨(bags.ofStore t).2, (Renaming.ofColumn s.column w.allocator).2⟩) := by
  generalize htop : (w.bags.ofStore store).2.combine [some (w.bags.ofStore store).1, some bag] = top
  generalize hc : (s.withSchema source.schema).renamed
    (Renaming.ofColumn s.column w.allocator).1 top.1 = c
  have hlength : w.bags.made.length ≤ top.2.made.length := by
    rw [← htop, Bags.combine, Bags.length_add, Bags.ofStore, Bags.length_add]
    omega
  have hclone := after_clone_eq_extract hs hbag hsource h htop hc.symm
  have hcopy : (copySource .extract c c.schemaSlice).after
      ⟨top.2, (Renaming.ofColumn s.column w.allocator).2⟩ =
      (.ok ⟨top.2.view top.1, none, source.schema⟩,
        ⟨top.2, (Renaming.ofColumn s.column w.allocator).2⟩) := by
    subst hc
    exact after_copySource .extract rfl hschema
  have hrun : ObjectGraph.extract (top.2.view top.1) none c.column source.schema = outcome := by
    have hview : top.2.view top.1 = Renaming.combined (w.bags.view bag) store := by
      rw [← htop]
      exact Bags.view_combine hbags store hget
    rw [hview, ← houtcome, ← hc, renamed, column_renameContent]
    exact extract_renameColumn _ _ _ _
  refine ⟨top.1, top.2, hlength, ?_, ?_⟩
  · rintro e rfl
    rw [hclone]
    exact congrArg Prod.fst (after_extract_eq_error hcopy hrun)
  · rintro t rfl
    rw [hclone, after_extract_eq_ok hcopy hrun, hc]
    subst hc
    rfl

end Slice

end ObjectGraph
