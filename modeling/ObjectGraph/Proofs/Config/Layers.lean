import Mathlib.Data.List.Induction
import ObjectGraph.Proofs.Config.Library

/-!
# Layers of settings

A field of the configuration has the value of the last layer that sets it. What a layer
sets of a section is put over the section name by name, so that no other field of the
section is lost, and the defaults come in only where no layer sets a field. This holds for
layers that set the fields to values of their types, whatever they set besides, and for
every library that merges deeply.
-/

namespace ObjectGraph

namespace Config

open Setting (at?)

namespace Field

/-- The type of a field. -/
abbrev Value : Field → Type
  | level => String
  | format => LogFormat
  | initialCapacity => UInt64
  | defaultSort => Bool

/-- The value of a field in a configuration. -/
def get (c : Config) : (f : Field) → f.Value
  | level => c.level
  | format => c.format
  | initialCapacity => c.initialCapacity
  | defaultSort => c.defaultSort

/-- A configuration is the values of its fields. -/
theorem ext_get {c d : Config} (h : ∀ f : Field, f.get c = f.get d) : c = d := by
  cases c
  cases d
  rw [Config.mk.injEq]
  exact ⟨h .level, h .format, h .initialCapacity, h .defaultSort⟩

def default (f : Field) : f.Value :=
  f.get {}

/-- The value of a field that a setting stands for. -/
def read? : (f : Field) → Setting → Option f.Value
  | level => readText?
  | format => readFormat?
  | initialCapacity => readCapacity?
  | defaultSort => readFlag?

theorem path_injective {f g : Field} (h : f.path = g.path) : f = g :=
  name_injective (List.cons.inj (List.cons.inj h).2).1

theorem not_isTable_of_isSome_read? {f : Field} {s : Setting} (h : (f.read? s).isSome = true) :
    s.isTable = false := by
  cases s with
  | table entries => cases f <;> cases h
  | _ => rfl

end Field

/-- The value that settings give to a field. -/
def given? (s : Settings) (f : Field) : Option f.Value :=
  (at? f.path (.table s)).bind f.read?

/-- The sections that are set are tables, and the fields that are set have values of their
types. Other names are free. -/
structure WellTyped (s : Settings) : Prop where
  sections : ∀ (sec : Section) (v : Setting), s.lookup sec.name = some v → v.isTable = true
  fields : ∀ (f : Field) (v : Setting), at? f.path (.table s) = some v →
    (f.read? v).isSome = true

variable {s later earlier : Settings}

theorem wellTyped_nil : WellTyped [] where
  sections := fun _ _ h => by cases h
  fields := fun _ _ h => by cases h

/-! ### What a field is set to -/

theorem at?_path_of_none {f : Field} (h : s.lookup f.parent.name = none) :
    at? f.path (.table s) = none := by
  rw [Field.path, at?, h, Option.bind_none]

theorem at?_path_of_table {f : Field} {entries : Settings}
    (h : s.lookup f.parent.name = some (.table entries)) :
    at? f.path (.table s) = entries.lookup f.name := by
  rw [Field.path, at?, h, Option.bind_some, at?]
  cases entries.lookup f.name <;> rfl

/-- A section is not set, or it is a table. -/
theorem WellTyped.cases_section (h : WellTyped s) (sec : Section) :
    s.lookup sec.name = none ∨ ∃ entries, s.lookup sec.name = some (.table entries) := by
  cases hlookup : s.lookup sec.name with
  | none => exact Or.inl rfl
  | some v =>
      have htable := h.sections sec v hlookup
      cases v with
      | table entries => exact Or.inr ⟨entries, rfl⟩
      | _ => cases htable

/-! ### The configuration of settings -/

theorem WellTyped.field?_at? (h : WellTyped s) (f : Field) :
    field? f.default f.read? (at? f.path (.table s)) = some ((given? s f).getD f.default) := by
  rw [given?]
  cases hv : at? f.path (.table s) with
  | none => rfl
  | some v =>
      obtain ⟨x, hx⟩ := Option.isSome_iff_exists.1 (h.fields f v hv)
      rw [field?, Option.bind_some, hx, Option.getD_some]

theorem WellTyped.section?_eq (h : WellTyped s) (sec : Section) : Config.section? sec.fieldNames
    (s.lookup sec.name) = some (sec.fields.map fun f => at? f.path (.table s)) := by
  have hparent : ∀ f ∈ sec.fields, f.parent = sec := fun f => Section.parent_of_mem
  rcases h.cases_section sec with hnone | ⟨entries, htable⟩
  · rw [hnone, section?, Section.fieldNames, List.map_map]
    refine congrArg some (List.map_congr_left fun f hf => ?_)
    exact (at?_path_of_none (hparent f hf ▸ hnone)).symm
  · rw [htable, section?, Setting.fields?, Section.fieldNames, List.map_map]
    refine congrArg some (List.map_congr_left fun f hf => ?_)
    exact (at?_path_of_table (hparent f hf ▸ htable)).symm

/-- Well-typed settings are read field by field. -/
theorem WellTyped.exists_ofSettings? (h : WellTyped s) :
    ∃ c, ofSettings? s = some c ∧ ∀ f : Field, f.get c = (given? s f).getD f.default := by
  have hlogging : section? ["level", "format"] (s.lookup "logging") =
      some [at? Field.level.path (.table s), at? Field.format.path (.table s)] :=
    h.section?_eq .logging
  have hstore : section? ["initial_capacity"] (s.lookup "store") =
      some [at? Field.initialCapacity.path (.table s)] := h.section?_eq .store
  have hgroupBy : section? ["default_sort"] (s.lookup "group_by") =
      some [at? Field.defaultSort.path (.table s)] := h.section?_eq .groupBy
  have hlevel : field? "info" readText? (at? Field.level.path (.table s)) = _ :=
    h.field?_at? .level
  have hformat : field? .text readFormat? (at? Field.format.path (.table s)) = _ :=
    h.field?_at? .format
  have hcapacity : field? 0 readCapacity? (at? Field.initialCapacity.path (.table s)) = _ :=
    h.field?_at? .initialCapacity
  have hsort : field? false readFlag? (at? Field.defaultSort.path (.table s)) = _ :=
    h.field?_at? .defaultSort
  simp only [ofSettings?, hlogging, hstore, hgroupBy, hlevel, hformat, hcapacity, hsort,
    Option.bind_eq_bind, Option.bind_some, Option.pure_def]
  exact ⟨_, rfl, fun f => by cases f <;> rfl⟩

end Config

/-! ### Layers over each other -/

namespace Figment

open Config
open Setting (at?)

variable {F : Figment} {s later earlier : Settings}

namespace MergesDeeply

/-- A field of later settings hides the field of earlier ones, and nothing else. -/
theorem at?_merge (hF : F.MergesDeeply) (hlater : WellTyped later) (hearlier : WellTyped earlier)
    (f : Field) : at? f.path (.table (F.merge later earlier)) =
      (at? f.path (.table later)).or (at? f.path (.table earlier)) := by
  have hlookup := hF later earlier f.parent.name
  rcases hlater.cases_section f.parent with hl | ⟨a, hl⟩ <;>
    rcases hearlier.cases_section f.parent with he | ⟨b, he⟩ <;> rw [hl, he] at hlookup
  · rw [at?_path_of_none hlookup, at?_path_of_none hl, at?_path_of_none he, Option.or_none]
  · rw [at?_path_of_table hlookup, at?_path_of_none hl, at?_path_of_table he, Option.none_or]
  · rw [at?_path_of_table hlookup, at?_path_of_table hl, at?_path_of_none he, Option.or_none]
  · -- both set the section, so the field is looked up in the two sections put over each other
    rw [stacked] at hlookup
    have hfields := hlater.fields f
    rw [at?_path_of_table hl] at hfields ⊢
    rw [at?_path_of_table hlookup, at?_path_of_table he, hF]
    cases hx : a.lookup f.name with
    | none => cases b.lookup f.name <;> rfl
    | some x =>
        have hleaf := Field.not_isTable_of_isSome_read? (hfields x hx)
        cases x with
        | table entries => cases hleaf
        | _ => cases b.lookup f.name <;> rfl

theorem wellTyped_merge (hF : F.MergesDeeply) (hlater : WellTyped later)
    (hearlier : WellTyped earlier) : WellTyped (F.merge later earlier) where
  sections := by
    intro sec v hv
    rw [hF] at hv
    rcases hlater.cases_section sec with hl | ⟨a, hl⟩ <;>
      rcases hearlier.cases_section sec with he | ⟨b, he⟩ <;> rw [hl, he] at hv <;> cases hv <;> rfl
  fields := by
    intro f v hv
    rw [hF.at?_merge hlater hearlier, Option.or_eq_some_iff] at hv
    rcases hv with hv | ⟨-, hv⟩
    · exact hlater.fields f v hv
    · exact hearlier.fields f v hv

/-- What later settings give to a field hides what earlier ones give. -/
theorem given?_merge (hF : F.MergesDeeply) (hlater : WellTyped later)
    (hearlier : WellTyped earlier) (f : Field) :
    given? (F.merge later earlier) f = (given? later f).or (given? earlier f) := by
  rw [given?, hF.at?_merge hlater hearlier, given?, given?]
  cases hv : at? f.path (.table later) with
  | none => rfl
  | some v =>
      obtain ⟨x, hx⟩ := Option.isSome_iff_exists.1 (hlater.fields f v hv)
      rw [Option.some_or, Option.bind_some, hx, Option.some_or]

/-- Layers over each other give a field what the last of them does that sets it. -/
theorem given?_combine (hF : F.MergesDeeply) {layers : List Settings}
    (h : ∀ s ∈ layers, WellTyped s) : WellTyped (F.combine layers) ∧
      ∀ f, given? (F.combine layers) f = layers.reverse.findSome? fun s => given? s f := by
  induction layers using List.reverseRecOn with
  | nil => exact ⟨wellTyped_nil, fun f => rfl⟩
  | append_singleton layers s ih =>
      obtain ⟨hlayers, hgiven⟩ := ih fun s hs => h s (List.mem_append_left _ hs)
      have hs := h s (List.mem_append_right _ (List.mem_singleton_self s))
      rw [combine, List.foldl_concat, ← combine]
      refine ⟨hF.wellTyped_merge hs hlayers, fun f => ?_⟩
      rw [hF.given?_merge hs hlayers, hgiven, List.reverse_concat, List.findSome?_cons]
      cases given? s f <;> rfl

end MergesDeeply

end Figment

end ObjectGraph
