import ObjectGraph.Proofs.Store.Layers
import ObjectGraph.Proofs.Walk.Answers
import ObjectGraph.Proofs.Walk.Simulation

/-!
# Extraction from a copy

The store that an extraction builds is read where the walk goes as the data view was: the
schemas that are reached declare the same, and the objects that are reached hold the same
under the schemas they are reached with. What the data view knows besides is not in the
store, and it is not looked for either. So a walk over the store alone reaches the same
and builds the same store.
-/

namespace ObjectGraph

open Schema

namespace Walk

variable {data : View} {t : Task} {r : Store} {o id : ObjectId} {item : Item} {source : Source}

theorem notMem_ids_nil (id : ObjectId) : id ∉ (View.mk []).ids := by
  simp [View.ids]

theorem schemaView_deep (data : View) (source : Source) :
    (deep data none).schemaView source = data := by
  cases source <;> rfl

section Copy

variable (ht : ∀ o ∈ t.objects, o.isSchema = false) (h : (deep data none).runTask t = .ok r)

include ht h

/-- A schema that is reached declares in the copy what it declares in the data view. -/
theorem sameSchema_copy (hm : (deep data none).Reaches t (.schema item source)) :
    SameSchema (deep data none) (deep (.ofStore r []) none) item source source where
  shallow := rfl
  declared := by
    rintro id rfl he
    have hw := faithful_deep data none ht
    have hfact := fun f => says_iff_of_runTask_eq_ok hw h f
    have hattr : ∀ name, (View.ofStore r []).attr id name = data.attr id name := by
      intro name
      refine View.attr_cons_eq_of_notMem (notMem_ids_nil id) ?_ ?_
      · intro value hvalue
        obtain ⟨source', -, hmem⟩ :=
          hw.declared_of_holds (isExplicit_iff.1 he).1 ((hfact _).1 hvalue)
        rw [← (mem_declared.1 hmem).1, schemaView_deep]
      · intro hpresent
        refine (hfact _).2 ⟨_, hm, .declared he (mem_declared.2 ⟨?_, hpresent⟩)⟩
        rw [schemaView_deep]
    rw [declared, declared, schemaView_deep, schemaView_deep]
    exact View.attrEntries_congr hattr

/-- An object that is reached holds in the copy what it holds in the data view. -/
theorem alike_copy (hm : (deep data none).Reaches t (.object o item source)) :
    Alike (deep data none) (deep (.ofStore r []) none) o o item source := by
  have hw := faithful_deep data none ht
  have hmeet : (deep data none).Meets t o := ⟨item, source, hm⟩
  have hfact := fun f => says_iff_of_runTask_eq_ok hw h f
  -- The copy says of the object what it is reached for, and nothing else.
  have hattr : ∀ name, ((data.attr o name).isPresent = true →
      (deep data none).Gives (.object o item source) (.attr o name (data.attr o name))) →
      (View.ofStore r []).attr o name = data.attr o name := by
    intro name hgives
    refine View.attr_cons_eq_of_notMem (notMem_ids_nil o) ?_ ?_
    · intro value hvalue
      exact hw.attr_eq hmeet ((hfact _).1 hvalue)
    · intro hpresent
      exact (hfact _).2 ⟨_, hm, hgives hpresent⟩
  constructor
  case kind => rfl
  case embedded =>
    rintro rfl
    obtain ⟨schema, hembedded⟩ : ∃ schema, (deep data none).embedded o = .ok schema := by
      cases hemb : (deep data none).embedded o with
      | ok schema => exact ⟨schema, rfl⟩
      | error e => exact absurd (.embedded hemb) (not_fails_of_runTask_eq_ok hw h hm)
    have heq : data.attr o schemaAttr = .objectId schema := (embedded_eq_ok_iff.1 hembedded).1
    refine hattr schemaAttr fun _ => ?_
    rw [heq]
    exact .embedded hembedded
  case attrs =>
    rintro id attrs rfl he hl name hname
    exact hattr name fun hpresent => .attr he hl hname hpresent
  case list =>
    rintro id items rfl he hl ho
    refine View.list?_cons_eq_of_notMem (u := data) (notMem_ids_nil o) fun items => ?_
    constructor
    · intro hitems
      exact hw.list_eq hmeet ((hfact _).1 hitems)
    · intro hitems
      exact (hfact _).2 ⟨_, hm, .list he hl ho hitems⟩
  case dict =>
    rintro id keys values rfl he hl ho
    refine View.dictEntries_cons_eq_of_notMem (u := data) (notMem_ids_nil o) ?_ ?_
    · intro entries hentries
      exact hw.dict_eq hmeet ((hfact _).1 hentries)
    · intro hne
      exact (hfact _).2 ⟨_, hm, .dict he hl ho hne⟩

theorem readsAlike_copy : ReadsAlike (deep data none) (deep (.ofStore r []) none) t where
  schema := fun _ _ hm => sameSchema_copy ht h hm
  object := fun _ _ _ hm => alike_copy ht h hm

theorem validKeys_copy : (View.ofStore r []).ValidKeys := by
  refine View.validKeys_of_valid fun s hs => ?_
  rw [List.mem_singleton.1 hs]
  exact (written_of_runTask_eq_ok (faithful_deep data none ht) h).valid

end Copy

end Walk

variable {data : View} {objects : Column} {schema : Item} {r : Store}

/-- Extraction is idempotent: over the store that it builds, without any fallbacks, the
same walk reaches the same and builds the same store. -/
theorem extract_of_extract_eq_ok (h : extract data none objects schema = .ok r) :
    extract (.ofStore r []) none objects schema = .ok r ∧
      ∀ m, (Walk.deep (.ofStore r []) none).Reaches ⟨objects.roots, schema, .data⟩ m ↔
        (Walk.deep data none).Reaches ⟨objects.roots, schema, .data⟩ m := by
  have hplain : ∀ o ∈ objects.roots, o.isSchema = false :=
    fun o ho => Walk.isSchema_of_mem_roots ho
  have halike := Walk.readsAlike_copy hplain h
  constructor
  · exact halike.runTask_eq_ok rfl (Walk.faithful_deep data none hplain)
      (Walk.faithful_deep (.ofStore r []) none hplain) (Walk.validKeys_copy hplain h) rfl h
  · intro m
    exact halike.reaches_iff

namespace Spread

theorem extract_upper_lower :
    extract (.ofStore upper [lower]) none (.ofItems [.objectId table]) (.objectId pairs) =
      .ok single := by
  have hdict := @Walk.Trace.step _ _ _ _ _ _ []
    [⟨[], .dtype .text, .data⟩, ⟨[], .dtype .bool, .data⟩]
    (.start (w := .deep (.ofStore upper [lower]) none)
      (t := ⟨[table], .objectId pairs, .data⟩)) rfl
  have hkeys := @Walk.Trace.step _ _ _ _ _ _ [⟨[], .dtype .bool, .data⟩] [] hdict rfl
  exact (@Walk.Trace.step _ _ _ _ _ _ [] [] hkeys rfl).runTask_eq_ok

/-- The copy of two layers, in which some entries hide others, is the copy of itself. -/
theorem extract_single_again :
    extract (.ofStore upper [lower]) none (.ofItems [.objectId table]) (.objectId pairs) =
        .ok single ∧
      extract (.ofStore single []) none (.ofItems [.objectId table]) (.objectId pairs) =
        .ok single ∧
      ∀ m, (Walk.deep (.ofStore single []) none).Reaches
          ⟨(Column.ofItems [.objectId table]).roots, .objectId pairs, .data⟩ m ↔
        (Walk.deep (.ofStore upper [lower]) none).Reaches
          ⟨(Column.ofItems [.objectId table]).roots, .objectId pairs, .data⟩ m :=
  ⟨extract_upper_lower, extract_of_extract_eq_ok extract_upper_lower⟩

end Spread

end ObjectGraph
