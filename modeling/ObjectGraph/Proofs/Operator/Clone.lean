import ObjectGraph.Proofs.Operator.Copy

/-!
# Clones of slices

A slice can be cloned if and only if what it refers to can be extracted. The clone has
the fresh ids in place of the objects of the slice, and its bag holds what extraction
finds from these ids in a view in which every object has a twin under its fresh id. So
only the objects of the slice get fresh ids, and only at the positions of the slice:
what is stored of an object still refers to other objects by their own ids.
-/

namespace ObjectGraph

namespace Slice

open Session

variable {s : Slice} {bag : Handle} {b : Bag} {w : Workspace} {store : Store}

theorem after_copySource_of_not_isSchema (use : BagUse) (hbag : s.bag = some bag)
    (hschema : s.schema.isSchema = false) :
    (copySource use s s.schemaSlice).after w = (.error (.notASchema s.schema), w) :=
  after_copySource_of_not_schema use hbag rfl hschema

theorem after_shallowClone_of_error (hbag : s.bag = some bag) (hschema : s.schema.isSchema = true)
    {e : Error}
    (h : (Walk.firstLevel (w.bags.view bag) none (Renaming.ofColumn s.column w.allocator).1).run
      s.column.roots s.schema = .error e) :
    (s.shallowClone s.schemaSlice).after w =
      (.error e, ⟨w.bags, (Renaming.ofColumn s.column w.allocator).2⟩) :=
  after_shallowClone_eq_error (after_copySource .clone hbag hschema) h

theorem fst_after_extract_eq_ok_iff (hbag : s.bag = some bag) :
    (∃ e, ((s.extract s.schemaSlice).after w).1 = .ok e) ↔ s.schema.isSchema = true ∧
      ∃ store, ObjectGraph.extract (w.bags.view bag) none s.column s.schema = .ok store := by
  cases hschema : s.schema.isSchema with
  | false =>
      rw [extract, after_bind_error (after_copySource_of_not_isSchema .extract hbag hschema)]
      simp
  | true =>
      cases h : ObjectGraph.extract (w.bags.view bag) none s.column s.schema with
      | error e =>
          simp [after_extract_eq_error (after_copySource .extract hbag hschema) h]
      | ok store => simp [after_extract_eq_ok (after_copySource .extract hbag hschema) h]

/-- A clone of a slice: fresh ids in place of objects, and a new bag that holds what
extraction finds from these ids next to the twins of the objects. -/
structure Cloned (s : Slice) (r : Renaming) (bag : Handle) (w : Workspace) (c : Slice)
    (w' : Workspace) (h : Handle) (store : Store) : Prop where
  /-- The fresh ids of the objects are told apart, keep their kinds, and are not known to the
  old bag. -/
  fresh : r.Fresh (w.bags.view bag) s.column.roots
  content : c.content = r.renameContent s.content
  shape : c.shape = s.shape
  schema : c.schema = s.schema
  handle : c.bag = some h
  new : w.bags.get? h = none
  made : w'.bags.get? h = some ⟨store, [], true⟩
  extract : ObjectGraph.extract (r.twinned (w.bags.view bag) s.column.roots) none
    (r.renameColumn s.column) s.schema = .ok store
  /-- What is stored of an object or a fresh id is what the old bag says of the object,
  with the ids that stand there. -/
  same : ∀ f, store.Says f → f.subject.isSchema = false →
    ∃ x, r.Twin s.column.roots x f.subject ∧ (w.bags.view bag).Says x (f.under x)
  /-- Something is stored of an object itself only if another object refers to it. -/
  nested : ∀ f, store.Says f → f.subject.isSchema = false →
    (∀ x ∈ s.column.roots, r.rename x ≠ f.subject) →
    ∃ y, (Walk.deep (r.twinned (w.bags.view bag) s.column.roots) none).Meets
      ⟨s.column.roots.map r.rename, s.schema, .data⟩ y ∧
      (r.twinned (w.bags.view bag) s.column.roots).Refers y f.subject

/-- A clone whose second walk succeeds holds what extraction of the twins finds. -/
theorem cloned_of_runTask_eq_ok
    (hr : (Renaming.ofColumn s.column w.allocator).1.Fresh (w.bags.view bag) s.column.roots)
    (hv : ∀ t ∈ (w.bags.view bag).layers, t.Valid)
    (h : (Walk.firstLevel (w.bags.view bag) none (Renaming.ofColumn s.column w.allocator).1).run
      s.column.roots s.schema = .ok store) {t : Store}
    (hsecond : (Walk.deep (Renaming.combined (w.bags.view bag) store) none).runTask
      ⟨s.column.roots.map (Renaming.ofColumn s.column w.allocator).1.rename, s.schema, .data⟩ =
        .ok t) (top : Handle) {bags : Bags} (hlength : w.bags.made.length ≤ bags.made.length) :
    Cloned s (Renaming.ofColumn s.column w.allocator).1 bag w
      ((s.renamed (Renaming.ofColumn s.column w.allocator).1 top).withBag
        (some (bags.ofStore t).1))
      ⟨(bags.ofStore t).2, (Renaming.ofColumn s.column w.allocator).2⟩ (bags.ofStore t).1 t := by
  have htwins := hr.runTask_twinned hv h hsecond
  have hw := hr.faithful_deep
    ((Renaming.ofColumn s.column w.allocator).1.twinned (w.bags.view bag) s.column.roots)
    s.schema
  constructor
  case fresh => exact hr
  case content => rfl
  case shape => rfl
  case schema => rfl
  case handle => rfl
  case new => exact List.getElem?_eq_none hlength
  case made => exact Bags.get?_add_self _ _
  case extract => exact (extract_renameColumn _ _ _ _).trans htwins
  case same =>
    intro f hf hplain
    obtain ⟨_, _, -, hsays⟩ := Renaming.meets_of_says hw htwins hf hplain
    obtain ⟨x, htwin⟩ := Renaming.exists_twin _ s.column.roots f.subject
    exact ⟨x, htwin, hr.says_of_twin htwin hsays⟩
  case nested =>
    intro f hf hplain hfresh
    obtain ⟨_, _, hreach, -⟩ := Renaming.meets_of_says hw htwins hf hplain
    -- The walk starts from fresh ids, so it has come to this object from another one.
    refine Walk.exists_refers_of_reaches hreach fun hmem => ?_
    obtain ⟨x, hx, hrename⟩ := List.mem_map.1 hmem
    exact hfresh x hx hrename

/-- Once its first level is copied, a slice is cloned if it can be extracted. -/
theorem clone_of_firstLevel (hs : s.Valid) (hbag : s.bag = some bag)
    (hget : w.bags.get? bag = some b) (hbags : w.bags.Valid) (hschema : s.schema.isSchema = true)
    (hr : (Renaming.ofColumn s.column w.allocator).1.Fresh (w.bags.view bag) s.column.roots)
    (hv : ∀ t ∈ (w.bags.view bag).layers, t.Valid)
    (h : (Walk.firstLevel (w.bags.view bag) none (Renaming.ofColumn s.column w.allocator).1).run
      s.column.roots s.schema = .ok store) :
    ((∃ c, ((s.clone s.schemaSlice).after w).1 = .ok c) ↔
      ∃ t, ObjectGraph.extract (w.bags.view bag) none s.column s.schema = .ok t) ∧
    ∀ c w', (s.clone s.schemaSlice).after w = (.ok c, w') →
      ∃ h t, Cloned s (Renaming.ofColumn s.column w.allocator).1 bag w c w' h t := by
  have hiff := hr.runTask_combined_eq_error_iff hv h
  cases hsecond : (Walk.deep (Renaming.combined (w.bags.view bag) store) none).runTask
      ⟨s.column.roots.map (Renaming.ofColumn s.column w.allocator).1.rename, s.schema, .data⟩ with
  | error e =>
      obtain ⟨_, _, -, hclone, -⟩ := exists_after_clone hs hbag hget hbags
        (after_copySource .clone hbag hschema) hschema h hsecond
      have hclone := hclone e rfl
      obtain ⟨e', he'⟩ := hiff.1 ⟨e, hsecond⟩
      constructor
      · rw [hclone, show ObjectGraph.extract (w.bags.view bag) none s.column s.schema = .error e'
          from he']
        simp
      · intro c w' hc
        rw [hc] at hclone
        cases hclone
  | ok t =>
      obtain ⟨top, bags, hlength, -, hclone⟩ :=
        exists_after_clone hs hbag hget hbags (after_copySource .clone hbag hschema) hschema h
          hsecond
      have hclone := hclone t rfl
      rw [hclone]
      constructor
      · refine iff_of_true ⟨_, rfl⟩ ?_
        cases hfirst : ObjectGraph.extract (w.bags.view bag) none s.column s.schema with
        | ok t' => exact ⟨t', rfl⟩
        | error e =>
            obtain ⟨e', he'⟩ := hiff.2 ⟨e, hfirst⟩
            cases hsecond.symm.trans he'
      · intro c w' hc
        obtain ⟨hslice, rfl⟩ := Prod.mk.inj hc
        obtain rfl := Except.ok.inj hslice
        exact ⟨_, t, cloned_of_runTask_eq_ok hr hv h hsecond top hlength⟩

/-- A slice can be cloned if and only if it can be extracted, and the clone holds what
extraction finds from the fresh ids next to the twins of the objects. -/
theorem clone_eq_extract_twins (hs : s.Valid) (hbag : s.bag = some bag)
    (hget : w.bags.get? bag = some b) (hbags : w.bags.Valid)
    (hwritten : (w.bags.view bag).Written) (hsize : s.size < UInt32.size)
    (hids : ∀ id ∈ (w.bags.view bag).ids, w.allocator.Earlier id) :
    ((∃ c, ((s.clone s.schemaSlice).after w).1 = .ok c) ↔
      ∃ e, ((s.extract s.schemaSlice).after w).1 = .ok e) ∧
    ∀ c w', (s.clone s.schemaSlice).after w = (.ok c, w') →
      ∃ h t, Cloned s (Renaming.ofColumn s.column w.allocator).1 bag w c w' h t := by
  have hr : (Renaming.ofColumn s.column w.allocator).1.Fresh (w.bags.view bag) s.column.roots :=
    Renaming.fresh_ofColumn ((size_column hs).trans_lt hsize) hids
  have hv : ∀ t ∈ (w.bags.view bag).layers, t.Valid := fun t ht => (hwritten t ht).valid
  rw [fst_after_extract_eq_ok_iff hbag]
  cases hschema : s.schema.isSchema with
  | false =>
      have hclone : (s.clone s.schemaSlice).after w = (.error (.notASchema s.schema), w) := by
        rw [clone, hbag]
        simp only
        refine after_bind_error ?_
        rw [shallowClone]
        exact after_bind_error (after_copySource_of_not_isSchema .clone hbag hschema)
      rw [hclone]
      simp
  | true =>
      cases h : (Walk.firstLevel (w.bags.view bag) none
          (Renaming.ofColumn s.column w.allocator).1).run s.column.roots s.schema with
      | error e =>
          have hclone : (s.clone s.schemaSlice).after w =
              (.error e, ⟨w.bags, (Renaming.ofColumn s.column w.allocator).2⟩) := by
            rw [clone, hbag]
            exact after_bind_error (after_shallowClone_of_error hbag hschema h)
          rw [hclone]
          refine ⟨?_, by simp⟩
          simp only [reduceCtorEq, exists_false, true_and, false_iff, not_exists]
          intro t ht
          obtain ⟨store, hstore⟩ := hr.exists_firstLevel (View.validKeys_of_valid hv) ht
          cases h.symm.trans hstore
      | ok store =>
          have hclone := clone_of_firstLevel hs hbag hget hbags hschema hr hv h
          exact ⟨hclone.1.trans (and_iff_right rfl).symm, hclone.2⟩

end Slice

namespace Ring

/-- One object of a ring, in a bag of its own. -/
def slice : Slice :=
  ⟨.item (.objectId first), .scalar, .objectId link, some ⟨0⟩⟩

def workspace : Workspace :=
  ⟨⟨[⟨store, [], true⟩]⟩, { next := 3, process := 0x5EED000000000000 }⟩

/-- The clone of the first object of a ring. -/
theorem clone_first : ∃ c w' h t,
    (slice.clone slice.schemaSlice).after workspace = (.ok c, w') ∧
      slice.Cloned (Renaming.ofColumn slice.column workspace.allocator).1 ⟨0⟩ workspace
        c w' h t := by
  have hview : workspace.bags.view ⟨0⟩ = ⟨[store]⟩ := by
    rw [Bags.view, Bags.flatFallbacks, show workspace.bags.fallbacks ⟨0⟩ = [] from rfl,
      Bags.preorder]
    rfl
  have hvalid : slice.Valid := ⟨trivial, rfl⟩
  have hbags : workspace.bags.Valid := by
    rintro ⟨index⟩ bag hget fallback hf
    cases index with
    | zero =>
        obtain rfl := Option.some.inj hget
        cases hf
    | succ => cases hget
  have hwritten : (workspace.bags.view ⟨0⟩).Written := by
    rw [hview]
    intro s hs
    obtain rfl := List.mem_singleton.1 hs
    exact written_store
  have hids : ∀ id ∈ (workspace.bags.view ⟨0⟩).ids, workspace.allocator.Earlier id := by
    rw [hview]
    decide +kernel
  have hclone := Slice.clone_eq_extract_twins (w := workspace) hvalid rfl rfl hbags hwritten
    (by decide) hids
  have hextract := (Slice.fst_after_extract_eq_ok_iff (s := slice) (w := workspace) rfl).2
    ⟨rfl, store, by rw [hview]; exact extract_first_eq⟩
  obtain ⟨c, hc⟩ := hclone.1.2 hextract
  obtain ⟨h, t, hcloned⟩ := hclone.2 c _ (Prod.ext hc rfl)
  exact ⟨c, _, h, t, Prod.ext hc rfl, hcloned⟩

end Ring

end ObjectGraph
