import ObjectGraph.Proofs.Operator.Copy
import ObjectGraph.Proofs.Walk.CloneWith

/-!
# Clones of slices with schemas of another bag

A slice that can be extracted with schemas of another bag can be cloned with them, and
the clone holds the same schemas and the same below the objects of the slice, if the bag
of the slice declares no more of the schemas read than the other bag. The condition is
needed: a clone reads these schemas from both bags, extraction only from the other one.
-/

namespace ObjectGraph

namespace Slice

open Session

variable {s schema e : Slice} {bag other : Handle} {b : Bag} {w w' : Workspace}

/-- The store of the bag of a slice, a bag without fallbacks. -/
def Stores (s : Slice) (w : Workspace) (store : Store) : Prop :=
  ∃ h, s.bag = some h ∧ w.bags.get? h = some ⟨store, [], true⟩

theorem after_copySource_other {item : Item} (use : BagUse) (hbag : s.bag = some bag)
    (hother : schema.bag = some other) (hne : other ≠ bag) (hitem : schema.item? = some item)
    (hschema : item.isSchema = true) :
    (copySource use s schema).after w =
      (.ok ⟨w.bags.view bag, some (w.bags.view other), item⟩, w) := by
  rw [after_copySource_eq_ok use hbag hitem hschema, hother]
  simp [hne]

/-- What an extraction that succeeds has found. -/
theorem exists_of_after_extract_eq_ok (hbag : s.bag = some bag) (hother : schema.bag = some other)
    (hne : other ≠ bag) (h : (s.extract schema).after w = (.ok e, w')) :
    ∃ item store, schema.item? = some item ∧ item.isSchema = true ∧
      ObjectGraph.extract (w.bags.view bag) (some (w.bags.view other)) s.column item =
        .ok store ∧ e.Stores w' store := by
  cases hitem : schema.item? with
  | none =>
      rw [extract, after_bind_error (after_copySource_of_not_item .extract hbag hitem)] at h
      cases h
  | some item =>
      cases hschema : item.isSchema with
      | false =>
          rw [extract, after_bind_error
            (after_copySource_of_not_schema .extract hbag hitem hschema)] at h
          cases h
      | true =>
          have hsource := after_copySource_other (w := w) .extract hbag hother hne hitem hschema
          cases hrun : ObjectGraph.extract (w.bags.view bag) (some (w.bags.view other)) s.column
              item with
          | error e' =>
              rw [after_extract_eq_error hsource hrun] at h
              cases h
          | ok store =>
              rw [after_extract_eq_ok hsource hrun] at h
              obtain ⟨hslice, rfl⟩ := Prod.mk.inj h
              obtain rfl := Except.ok.inj hslice
              exact ⟨item, store, rfl, hschema, hrun, _, rfl, Bags.get?_add_self _ _⟩

/-- If the two bags agree on the schemas read, a slice that can be extracted can be
cloned, and the clone holds the same schemas and the same objects below. -/
theorem clone_of_extract_eq_ok (hs : s.Valid) (hbag : s.bag = some bag)
    (hget : w.bags.get? bag = some b) (hbags : w.bags.Valid)
    (hwritten : (w.bags.view bag).Written) (hsize : s.size < UInt32.size)
    (hids : ∀ id ∈ (w.bags.view bag).ids, w.allocator.Earlier id)
    (hother : schema.bag = some other) (hne : other ≠ bag)
    (hagree : ∀ item, schema.item? = some item →
      (Walk.deep (w.bags.view bag) (some (w.bags.view other))).Agree
        ⟨s.column.roots, item, .schema⟩)
    (h : (s.extract schema).after w = (.ok e, w')) :
    ∃ c w'' store store', (s.clone schema).after w = (.ok c, w'') ∧
      e.Stores w' store ∧ c.Stores w'' store' ∧
      (Renaming.ofColumn s.column w.allocator).1.SameBelow s.column.roots store store' := by
  have hr : (Renaming.ofColumn s.column w.allocator).1.Fresh (w.bags.view bag) s.column.roots :=
    Renaming.fresh_ofColumn ((size_column hs).trans_lt hsize) hids
  have hv : ∀ t ∈ (w.bags.view bag).layers, t.Valid := fun t ht => (hwritten t ht).valid
  obtain ⟨item, store, hitem, hschema, hextract, hstores⟩ :=
    exists_of_after_extract_eq_ok hbag hother hne h
  have ha := hagree item hitem
  have hsource := after_copySource_other (w := w) .clone hbag hother hne hitem hschema
  obtain ⟨first, hfirst⟩ := hr.exists_firstLevel (View.validKeys_of_valid hv) hextract
  obtain ⟨store', hsecond⟩ := hr.exists_combined hfirst hextract ha hv
  obtain ⟨top, bags, -, -, hclone⟩ :=
    exists_after_clone hs hbag hget hbags hsource hschema hfirst hsecond
  exact ⟨_, _, store, store', hclone store' rfl, hstores, ⟨_, rfl, Bags.get?_add_self _ _⟩,
    hr.sameBelow_combined hfirst hextract ha hsecond⟩

end Slice

namespace TwoBags

/-- A schema that is declared in the bag of an object and in another bag. -/
def point : ObjectId :=
  ⟨1, 0, .schema⟩

def object : ObjectId :=
  ⟨2, 0, .entity⟩

/-- The other bag declares one attribute. -/
def schemas : Store :=
  Store.empty.setAttr point "x" (.dtype .int32)

/-- A bag of the object that declares the same. -/
def agreeing : Store :=
  schemas.setAttr object "x" (.int32 1)

/-- A bag of the object that declares another attribute. -/
def differing : Store :=
  (Store.empty.setAttr point "y" (.dtype .int32)).setAttr object "x" (.int32 1)

def workspace (data : Store) : Workspace :=
  ⟨⟨[⟨data, [], true⟩, ⟨schemas, [], true⟩]⟩, { next := 3 }⟩

def slice : Slice :=
  ⟨.item (.objectId object), .scalar, .objectId point, some ⟨0⟩⟩

def pointSlice : Slice :=
  ⟨.item (.objectId point), .scalar, .dtype .schema, some ⟨1⟩⟩

theorem view_data (data : Store) : (workspace data).bags.view ⟨0⟩ = ⟨[data]⟩ := by
  rw [Bags.view, Bags.flatFallbacks, show (workspace data).bags.fallbacks ⟨0⟩ = [] from rfl,
    Bags.preorder]
  rfl

theorem view_schemas (data : Store) : (workspace data).bags.view ⟨1⟩ = ⟨[schemas]⟩ := by
  rw [Bags.view, Bags.flatFallbacks, show (workspace data).bags.fallbacks ⟨1⟩ = [] from rfl,
    Bags.preorder]
  rfl

theorem valid_bags (data : Store) : (workspace data).bags.Valid := by
  rintro ⟨index⟩ bag hget fallback hf
  match index with
  | 0 =>
      obtain rfl := Option.some.inj hget
      cases hf
  | 1 =>
      obtain rfl := Option.some.inj hget
      cases hf
  | index + 2 => cases hget

theorem after_copySource_pointSlice (use : BagUse) (data : Store) :
    (Slice.copySource use slice pointSlice).after (workspace data) =
      (.ok ⟨⟨[data]⟩, some ⟨[schemas]⟩, .objectId point⟩, workspace data) := by
  rw [← view_data data, ← view_schemas data]
  exact Slice.after_copySource_other use rfl rfl (by decide) rfl rfl

/-- Extraction reads the other bag alone, whatever the bag of the object declares. -/
theorem after_extract_slice {data : Store}
    (h : ObjectGraph.extract ⟨[data]⟩ (some ⟨[schemas]⟩) (.ofItems [.objectId object])
      (.objectId point) = .ok agreeing) :
    (slice.extract pointSlice).after (workspace data) =
      (.ok (slice.withBag (some ⟨2⟩)),
        ⟨⟨(workspace data).bags.made ++ [⟨agreeing, [], true⟩]⟩, { next := 3 }⟩) :=
  Slice.after_extract_eq_ok (after_copySource_pointSlice .extract data) h

theorem extract_agreeing :
    ObjectGraph.extract ⟨[agreeing]⟩ (some ⟨[schemas]⟩) (.ofItems [.objectId object])
      (.objectId point) = .ok agreeing := by
  have hobject := @Walk.Trace.step _ _ _ _ _ _ [] [⟨[], .dtype .int32, .schema⟩]
    (.start (w := .deep ⟨[agreeing]⟩ (some ⟨[schemas]⟩))
      (t := ⟨[object], .objectId point, .schema⟩)) rfl
  exact (@Walk.Trace.step _ _ _ _ _ _ [] [] hobject rfl).runTask_eq_ok

theorem extract_differing :
    ObjectGraph.extract ⟨[differing]⟩ (some ⟨[schemas]⟩) (.ofItems [.objectId object])
      (.objectId point) = .ok agreeing := by
  have hobject := @Walk.Trace.step _ _ _ _ _ _ [] [⟨[], .dtype .int32, .schema⟩]
    (.start (w := .deep ⟨[differing]⟩ (some ⟨[schemas]⟩))
      (t := ⟨[object], .objectId point, .schema⟩)) rfl
  exact (@Walk.Trace.step _ _ _ _ _ _ [] [] hobject rfl).runTask_eq_ok

theorem valid_slice : slice.Valid :=
  ⟨trivial, rfl⟩

/-- The views of the two bags declare the same of every schema. -/
theorem agree_agreeing (t : Task) :
    (Walk.deep ⟨[agreeing]⟩ (some ⟨[schemas]⟩)).Agree t := by
  have hsame : ∀ id : ObjectId, id.isExplicit = true → ∀ name,
      (View.mk [agreeing]).attr id name = (View.mk [schemas]).attr id name := by
    intro id he name
    have hne : ¬ (object = id ∧ "x" = name) := by
      intro heq
      rw [← heq.1] at he
      cases he
    simp only [View.attr, View.attr?, List.findSome?_cons, List.findSome?_nil, agreeing,
      Store.attr?_setAttr, if_neg hne]
  constructor
  case data =>
    intro id he _ name hname
    rw [View.mem_attrNames] at hname ⊢
    exact hsame id he name ▸ hname
  case both =>
    intro id he _ _ name hname
    rw [View.mem_attrNames] at hname ⊢
    exact hsame id he name ▸ hname

/-- Bags that agree: the clone of an object has the schemas of its extraction. -/
theorem clone_agreeing : ∃ e w' c w'' store store',
    (slice.extract pointSlice).after (workspace agreeing) = (.ok e, w') ∧
      (slice.clone pointSlice).after (workspace agreeing) = (.ok c, w'') ∧
      e.Stores w' store ∧ c.Stores w'' store' ∧
      (Renaming.ofColumn slice.column { next := 3 }).1.SameBelow slice.column.roots store
        store' := by
  have hwritten : ((workspace agreeing).bags.view ⟨0⟩).Written := by
    rw [view_data]
    intro s hs
    obtain rfl := List.mem_singleton.1 hs
    exact (Store.Written.empty.setAttr _ _ _).setAttr _ _ _
  have hids : ∀ id ∈ ((workspace agreeing).bags.view ⟨0⟩).ids,
      (workspace agreeing).allocator.Earlier id := by
    rw [view_data]
    decide +kernel
  have hagree : ∀ item, pointSlice.item? = some item →
      (Walk.deep ((workspace agreeing).bags.view ⟨0⟩)
        (some ((workspace agreeing).bags.view ⟨1⟩))).Agree
        ⟨slice.column.roots, item, .schema⟩ := by
    intro item _
    rw [view_data, view_schemas]
    exact agree_agreeing _
  have hextract := after_extract_slice extract_agreeing
  have hbag : slice.bag = some ⟨0⟩ := rfl
  have hother : pointSlice.bag = some ⟨1⟩ := rfl
  obtain ⟨c, w'', store, store', hclone, hstore, hstore', hbelow⟩ :=
    Slice.clone_of_extract_eq_ok valid_slice hbag rfl (valid_bags agreeing) hwritten (by decide)
      hids hother (by decide) hagree hextract
  exact ⟨_, _, c, w'', store, store', hextract, hclone, hstore, hstore', hbelow⟩

/-- The fresh id of the object. -/
def fresh : ObjectId :=
  ⟨3, 0, .entity⟩

/-- The store of a clone with the bag that differs. -/
def leaked : Store :=
  ((Store.empty.setAttr point "x" (.dtype .int32)).setAttr point "y" (.dtype .int32)).setAttr
    fresh "x" (.int32 1)

theorem firstLevel_differing :
    (Walk.firstLevel ⟨[differing]⟩ (some ⟨[schemas]⟩)
      (Renaming.ofColumn slice.column { next := 3 }).1).runTask
        ⟨[object], .objectId point, .schema⟩ = .ok (schemas.setAttr fresh "x" (.int32 1)) := by
  have hobject := @Walk.Trace.step _ _ _ _ _ _ [] [⟨[], .dtype .int32, .schema⟩]
    (.start (w := .firstLevel ⟨[differing]⟩ (some ⟨[schemas]⟩)
      (Renaming.ofColumn slice.column { next := 3 }).1)
      (t := ⟨[object], .objectId point, .schema⟩)) rfl
  exact (@Walk.Trace.step _ _ _ _ _ _ [] [] hobject rfl).runTask_eq_ok

theorem combined_differing :
    (Walk.deep (Renaming.combined ⟨[differing]⟩ (schemas.setAttr fresh "x" (.int32 1)))
      none).runTask ⟨[fresh], .objectId point, .data⟩ = .ok leaked := by
  have hobject := @Walk.Trace.step _ _ _ _ _ _ []
    [⟨[], .dtype .int32, .data⟩, ⟨[], .dtype .int32, .data⟩]
    (.start (w := .deep (Renaming.combined ⟨[differing]⟩
      (schemas.setAttr fresh "x" (.int32 1))) none) (t := ⟨[fresh], .objectId point, .data⟩)) rfl
  have hx := @Walk.Trace.step _ _ _ _ _ _ [⟨[], .dtype .int32, .data⟩] [] hobject rfl
  exact (@Walk.Trace.step _ _ _ _ _ _ [] [] hx rfl).runTask_eq_ok

/-- The clone declares an attribute that only the bag of the object declares, though
extraction reads the schema from the other bag alone. -/
theorem exists_clone_differing : ∃ e w' c w'' store store',
    (slice.extract pointSlice).after (workspace differing) = (.ok e, w') ∧
      (slice.clone pointSlice).after (workspace differing) = (.ok c, w'') ∧
      e.Stores w' store ∧ c.Stores w'' store' ∧
      store'.Says (.attr point "y" (.dtype .int32)) ∧
      ¬ store.Says (.attr point "y" (.dtype .int32)) := by
  have hextract := after_extract_slice extract_differing
  have hsource := after_copySource_pointSlice .clone differing
  have hsecond := combined_differing
  rw [← view_data] at hsecond
  obtain ⟨top, bags, -, -, hclone⟩ := Slice.exists_after_clone valid_slice rfl rfl
    (valid_bags differing) hsource rfl firstLevel_differing hsecond
  refine ⟨_, _, _, _, agreeing, leaked, hextract, hclone leaked rfl, ⟨_, rfl, rfl⟩,
    ⟨_, rfl, Bags.get?_add_self _ _⟩, ?_, ?_⟩
  · simp [Store.Says, leaked, Store.attr?_setAttr]
  · simp [Store.Says, agreeing, schemas, Store.attr?_setAttr, Store.attr?_empty, object, point]

end TwoBags

end ObjectGraph
