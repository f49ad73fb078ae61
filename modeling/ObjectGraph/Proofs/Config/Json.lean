import Mathlib.Data.List.Nodup
import Mathlib.Data.List.TakeWhile
import Mathlib.Tactic.IntervalCases
import ObjectGraph.Config.Json
import ObjectGraph.Proofs.Config.JsonText

/-!
# What survives the JSON text of a configuration

A configuration is read back from its JSON text. Fields and whole sections may be taken out of
the text, which puts them at their defaults, and keys that the engine does not know may be put
in anywhere, which changes nothing: what is read from an object is settled by the values under
the known names.
-/

namespace ObjectGraph

namespace JsonValue

/-! ### Whole numbers -/

theorem head?_toDigits_ne {n : Nat} (h : 0 < n) : (Nat.toDigits 10 n).head? ≠ some '0' := by
  refine ObjectId.toDigits_induction (P := fun n cs => 0 < n → cs.head? ≠ some '0') (by decide)
    ?_ ?_ n h
  · intro d hd hpos
    interval_cases d <;> decide
  · intro m d hm _ ih _
    rw [List.head?_append_of_ne_nil _ Nat.toDigits_ne_nil]
    exact ih hm

/-- The digits of a number are a number in JSON: no zero stands in front of others. -/
theorem wholePart?_toDigits (n : Nat) :
    wholePart? (Nat.toDigits 10 n) = some (Nat.toDigits 10 n, []) := by
  have hdigit : ∀ c ∈ Nat.toDigits 10 n, c.isDigit = true := fun c hc =>
    Nat.isDigit_of_mem_toDigits (by decide) (by decide) hc
  have hrun : digitRun? (Nat.toDigits 10 n) = some (Nat.toDigits 10 n, []) := by
    rw [digitRun?, List.takeWhile_eq_self_iff.2 hdigit, List.dropWhile_eq_nil_iff.2 hdigit]
    split
    · rename_i hnil
      exact absurd hnil Nat.toDigits_ne_nil
    · rfl
  rw [wholePart?, hrun]
  simp only [Option.bind_eq_bind, Option.bind_some]
  -- The first digit is zero for the number zero only, which has no other digit.
  split
  · rename_i hzero
    rcases Nat.eq_zero_or_pos n with rfl | hpos
    · cases hzero
    · exact absurd (by rw [hzero]; rfl) (head?_toDigits_ne hpos)
  · rfl

/-- A whole number is written as JSON has it. -/
theorem wellFormed_toString (n : Nat) : (number (toString n)).WellFormed := by
  refine .number ?_
  rw [Nat.toString_eq_repr, Nat.toList_repr]
  have hminus : ∀ cs, Nat.toDigits 10 n ≠ '-' :: cs := by
    intro cs hcs
    have hdigit := Nat.isDigit_of_mem_toDigits (c := '-') (b := 10) (n := n) (by decide) (by decide)
      (by rw [hcs]; exact List.mem_cons_self)
    cases hdigit
  rw [number?.eq_2 _ hminus, wholePart?_toDigits]
  simp [fractionPart?, exponentPart?]

theorem wellFormed_object_iff {members : List (JsonText × JsonValue)} :
    (object members).WellFormed ↔ ∀ m ∈ members, m.2.WellFormed := by
  refine ⟨fun h => ?_, .object⟩
  cases h with
  | object h => exact h

/-- One member of an object, and the others. -/
theorem wellFormed_insert {before after : List (JsonText × JsonValue)} {key : JsonText}
    {value : JsonValue} : (object (before ++ (key, value) :: after)).WellFormed ↔
      value.WellFormed ∧ (object (before ++ after)).WellFormed := by
  simp only [wellFormed_object_iff, List.forall_mem_append, List.forall_mem_cons]
  tauto

end JsonValue

namespace Config

open JsonValue

theorem jsonCapacity?_toString (n : UInt64) :
    jsonCapacity? (.number (toString n.toNat)) = some n := by
  have hdigit : (Nat.toDigits 10 n.toNat).all Char.isDigit = true :=
    List.all_eq_true.2 fun c hc => Nat.isDigit_of_mem_toDigits (by decide) (by decide) hc
  have hvalue : (Nat.toDigits 10 n.toNat).foldl (fun n c => n * 10 + (c.toNat - '0'.toNat)) 0 =
      n.toNat := by
    have hread := Nat.ofDigitChars_toDigits (b := 10) (n := n.toNat) (by decide) (by decide)
    simpa only [Nat.ofDigitChars, Nat.mul_comm] using hread
  rw [jsonCapacity?]
  simp only [Nat.toString_eq_repr, Nat.toList_repr, hdigit, hvalue, if_true]
  rw [if_pos n.toNat_lt, UInt64.ofNat_toNat]

/-! ### Members of an object -/

/-- The members of a JSON object, in order. -/
abbrev Members := List (JsonText × JsonValue)

/-- Every key is known, and none of the names is there twice. -/
def readable (names : List String) (members : Members) : Bool :=
  (members.all fun m => m.1.isSome) &&
    names.all fun name => (members.filter fun m => m.1 == some name).length ≤ 1

theorem readable_iff {names : List String} {members : Members} :
    readable names members = true ↔ (∀ m ∈ members, m.1.isSome = true) ∧
      ∀ name ∈ names, (members.filter fun m => m.1 == some name).length ≤ 1 := by
  simp only [readable, Bool.and_eq_true, List.all_eq_true, decide_eq_true_eq]

theorem jsonFields?_object (names : List String) (members : Members) :
    jsonFields? names (.object members) =
      if readable names members then some (names.map fun name => members.lookup (some name))
      else none :=
  rfl

section Members

variable {names : List String} {name : String} {key k : JsonText} {value value' : JsonValue}
  {before after : Members}

theorem readable_skip (h : name ∉ names) :
    readable names (before ++ (some name, value) :: after) = readable names (before ++ after) := by
  have hfilter : ∀ n ∈ names,
      (before ++ (some name, value) :: after).filter (fun m => m.1 == some n) =
        (before ++ after).filter fun m => m.1 == some n := by
    intro n hn
    have hne : name ≠ n := fun heq => h (heq ▸ hn)
    simp [List.filter_append, hne]
  rw [Bool.eq_iff_iff, readable_iff, readable_iff]
  refine and_congr (by simp [or_imp, forall_and]) (forall₂_congr fun n hn => ?_)
  rw [hfilter n hn]

theorem readable_replace (value value' : JsonValue) :
    readable names (before ++ (key, value') :: after) =
      readable names (before ++ (key, value) :: after) := by
  have hlength : ∀ n, ((before ++ (key, value') :: after).filter fun m => m.1 == some n).length =
      ((before ++ (key, value) :: after).filter fun m => m.1 == some n).length := by
    intro n
    simp only [List.filter_append, List.filter_cons]
    split <;> simp
  simp only [readable, hlength, List.all_append, List.all_cons]

theorem lookup_skip (h : k ≠ key) :
    (before ++ (key, value) :: after).lookup k = (before ++ after).lookup k := by
  rw [List.lookup_append, List.lookup_append, List.lookup_cons, beq_false_of_ne h]

/-- Another value under one key is seen under this key only. -/
theorem apply_lookup_replace {β : Type} (f : Option JsonValue → β)
    (h : k = key → f (some value') = f (some value)) :
    f ((before ++ (key, value') :: after).lookup k) =
      f ((before ++ (key, value) :: after).lookup k) := by
  by_cases hk : k = key
  · subst hk
    simp only [List.lookup_append, List.lookup_cons, beq_self_eq_true]
    cases before.lookup k with
    | none => exact h rfl
    | some v => rfl
  · rw [lookup_skip hk, lookup_skip hk]

/-- Members under the names of the items of a list. -/
theorem lookup_map {α : Type} [DecidableEq α] {nameOf : α → String}
    (hname : Function.Injective nameOf) (valueOf : α → JsonValue) (items : List α) (a : α) :
    (items.map fun b => ((some (nameOf b) : JsonText), valueOf b)).lookup (some (nameOf a)) =
      if a ∈ items then some (valueOf a) else none := by
  induction items with
  | nil => rfl
  | cons b items ih =>
      rw [List.map_cons, List.lookup_cons]
      by_cases hab : a = b
      · subst hab
        simp
      · have hne : (some (nameOf a) : JsonText) ≠ some (nameOf b) := fun h =>
          hab (hname (Option.some.inj h))
        simp only [beq_false_of_ne hne, ih, List.mem_cons, hab, false_or]

theorem readable_map {α : Type} [DecidableEq α] {nameOf : α → String}
    (hname : Function.Injective nameOf) (valueOf : α → JsonValue) {items : List α}
    (hitems : items.Nodup) (others : List α) :
    readable (others.map nameOf) (items.map fun b => (some (nameOf b), valueOf b)) = true := by
  rw [readable_iff]
  constructor
  · intro m hm
    obtain ⟨b, -, rfl⟩ := List.mem_map.1 hm
    rfl
  · intro n hn
    obtain ⟨a, -, rfl⟩ := List.mem_map.1 hn
    have hcount := List.nodup_iff_count_le_one.1 hitems a
    -- The members under the name of an item are those of the item itself.
    have heq : ∀ b, (some (nameOf b) == some (nameOf a)) = (b == a) := fun b => by
      by_cases hab : b = a
      · simp [hab]
      · simp [hab, hname.ne hab]
    rw [List.count_eq_countP, List.countP_eq_length_filter] at hcount
    simpa [List.filter_map, Function.comp_def, heq] using hcount

end Members

/-! ### Sections and fields -/

/-- The sections of a configuration. -/
inductive Section where
  | logging
  | store
  | groupBy
deriving DecidableEq

/-- The fields of a configuration. -/
inductive Field where
  | level
  | format
  | initialCapacity
  | defaultSort
deriving DecidableEq

namespace Section

def all : List Section :=
  [logging, store, groupBy]

def name : Section → String
  | logging => "logging"
  | store => "store"
  | groupBy => "group_by"

def fields : Section → List Field
  | logging => [.level, .format]
  | store => [.initialCapacity]
  | groupBy => [.defaultSort]

theorem mem_all (s : Section) : s ∈ all := by
  cases s <;> decide

theorem nodup_fields (s : Section) : s.fields.Nodup := by
  cases s <;> decide

theorem name_injective : Function.Injective name := by
  intro s t h
  cases s <;> cases t <;> first | rfl | exact absurd h (by decide)

end Section

namespace Field

def name : Field → String
  | level => "level"
  | format => "format"
  | initialCapacity => "initial_capacity"
  | defaultSort => "default_sort"

/-- The section the field is in. -/
def parent : Field → Section
  | level => .logging
  | format => .logging
  | initialCapacity => .store
  | defaultSort => .groupBy

theorem name_injective : Function.Injective name := by
  intro f g h
  cases f <;> cases g <;> first | rfl | exact absurd h (by decide)

end Field

/-- The names of the fields of a section. -/
def Section.fieldNames (s : Section) : List String :=
  s.fields.map Field.name

theorem Section.parent_of_mem {s : Section} {f : Field} (h : f ∈ s.fields) : f.parent = s := by
  revert h
  cases s <;> cases f <;> decide

/-- The value under which a field is written. -/
def fieldJson (c : Config) : Field → JsonValue
  | .level => .text c.level
  | .format => .text c.format.name
  | .initialCapacity => .number (toString c.initialCapacity.toNat)
  | .defaultSort => .bool c.defaultSort

/-- A section without some of its fields. -/
def sectionJson (c : Config) (fields : List Field) (s : Section) : JsonValue :=
  .object ((s.fields.filter fun f => f ∉ fields).map fun f => (some f.name, c.fieldJson f))

/-- What is written for a configuration, without the given fields and sections. -/
def membersWithout (c : Config) (fields : List Field) (sections : List Section) : Members :=
  (Section.all.filter fun s => s ∉ sections).map fun s => (some s.name, c.sectionJson fields s)

/-- The fields that are taken out, alone or with their section. -/
def removed (fields : List Field) (sections : List Section) (f : Field) : Bool :=
  f ∈ fields || f.parent ∈ sections

/-- The configuration with some fields at their defaults. -/
def reset (c : Config) (removed : Field → Bool) : Config :=
  let default : Config := {}
  { level := if removed .level then default.level else c.level
    format := if removed .format then default.format else c.format
    initialCapacity :=
      if removed .initialCapacity then default.initialCapacity else c.initialCapacity
    defaultSort := if removed .defaultSort then default.defaultSort else c.defaultSort }

/-- Keys that the engine does not know are put in: beside the sections, or beside the fields of
a section, where the name of a field of another section is not known either. -/
inductive Added : Members → Members → Prop
  | refl (members : Members) : Added members members
  | member {members before after : Members} {name : String} {value : JsonValue}
      (h : Added members (before ++ after)) (hname : name ∉ Section.all.map Section.name)
      (hvalue : value.WellFormed) : Added members (before ++ (some name, value) :: after)
  | field {members before after first last : Members} {name : String} {value : JsonValue}
      {s : Section}
      (h : Added members (before ++ (some s.name, .object (first ++ last)) :: after))
      (hname : name ∉ s.fieldNames) (hvalue : value.WellFormed) :
      Added members
        (before ++ (some s.name, .object (first ++ (some name, value) :: last)) :: after)

/-! ### Reading by sections -/

/-- The configuration of the values that each section has for its fields. -/
def ofSections? (read : Section → Option (List (Option JsonValue))) : Option Config := do
  let default : Config := {}
  let [level, format] ← read .logging | none
  let [initialCapacity] ← read .store | none
  let [defaultSort] ← read .groupBy | none
  return {
    level := ← jsonField? default.level jsonLevel? level
    format := ← jsonField? default.format jsonFormat? format
    initialCapacity := ← jsonField? default.initialCapacity jsonCapacity? initialCapacity
    defaultSort := ← jsonField? default.defaultSort jsonFlag? defaultSort }

/-- What is read from an object is settled by its keys and by what stands under the names of
the sections. -/
theorem ofJson?_object (members : Members) :
    ofJson? (.object members) =
      if readable (Section.all.map Section.name) members then
        ofSections? fun s => jsonSection? s.fieldNames (members.lookup (some s.name))
      else none := by
  have hnames : Section.all.map Section.name = ["logging", "store", "group_by"] := rfl
  rw [ofJson?, hnames, jsonFields?_object]
  split <;> rfl

theorem jsonSection?_skip {names : List String} {name : String} {value : JsonValue}
    {first last : Members} (h : name ∉ names) :
    jsonSection? names (some (.object (first ++ (some name, value) :: last))) =
      jsonSection? names (some (.object (first ++ last))) := by
  have hlookup : ∀ n ∈ names, (first ++ (some name, value) :: last).lookup (some n) =
      (first ++ last).lookup (some n) := fun n hn =>
    lookup_skip fun heq => h (Option.some.inj heq ▸ hn)
  simp only [jsonSection?, jsonFields?_object, readable_skip h, List.map_congr_left hlookup]

variable {members members' : Members} {c : Config} {fields : List Field} {sections : List Section}

/-- Keys that are not known change nothing, whatever is read. -/
theorem ofJson?_added (h : Added members members') :
    ofJson? (.object members') = ofJson? (.object members) := by
  induction h with
  | refl => rfl
  | member _ hname _ ih =>
      rw [← ih, ofJson?_object, ofJson?_object, readable_skip hname]
      congr 2
      funext s
      rw [lookup_skip]
      intro heq
      exact hname (Option.some.inj heq ▸ List.mem_map_of_mem s.mem_all)
  | @field before after first last name value s _ hname _ ih =>
      rw [← ih, ofJson?_object, ofJson?_object, readable_replace (.object (first ++ last))]
      congr 2
      funext t
      -- Only the section with the new key has another value, and it is read the same.
      refine apply_lookup_replace (jsonSection? t.fieldNames) fun heq => ?_
      cases Section.name_injective (Option.some.inj heq)
      exact jsonSection?_skip hname

theorem wellFormed_fieldJson (c : Config) (f : Field) : (c.fieldJson f).WellFormed := by
  cases f with
  | level => exact .text _
  | format => exact .text _
  | initialCapacity => exact wellFormed_toString _
  | defaultSort => exact .bool _

theorem wellFormed_membersWithout (c : Config) :
    (JsonValue.object (c.membersWithout fields sections)).WellFormed := by
  refine .object fun m hm => ?_
  obtain ⟨s, -, rfl⟩ := List.mem_map.1 hm
  refine .object fun m hm => ?_
  obtain ⟨f, -, rfl⟩ := List.mem_map.1 hm
  exact c.wellFormed_fieldJson f

theorem Added.wellFormed (h : Added members members')
    (hmembers : (JsonValue.object members).WellFormed) :
    (JsonValue.object members').WellFormed := by
  induction h with
  | refl => exact hmembers
  | member _ _ hvalue ih => exact wellFormed_insert.2 ⟨hvalue, ih⟩
  | field _ _ hvalue ih =>
      obtain ⟨hsection, hothers⟩ := wellFormed_insert.1 ih
      exact wellFormed_insert.2 ⟨wellFormed_insert.2 ⟨hvalue, hsection⟩, hothers⟩

/-! ### What is read back -/

/-- A section that is there has the values of the fields that are not taken out. -/
theorem jsonSection?_sectionJson (c : Config) (fields : List Field) (s : Section) :
    jsonSection? s.fieldNames (some (c.sectionJson fields s)) =
      some (s.fields.map fun f => if f ∈ fields then none else some (c.fieldJson f)) := by
  have hreadable : readable s.fieldNames
      ((s.fields.filter fun f => f ∉ fields).map fun f => (some f.name, c.fieldJson f)) = true :=
    readable_map Field.name_injective c.fieldJson (List.Nodup.filter _ s.nodup_fields) s.fields
  rw [jsonSection?, sectionJson, jsonFields?_object, if_pos hreadable, Section.fieldNames,
    List.map_map]
  refine congrArg some (List.map_congr_left fun f hf => ?_)
  rw [Function.comp_apply, lookup_map Field.name_injective c.fieldJson]
  by_cases hfields : f ∈ fields <;> simp [hf, hfields]

theorem jsonSection?_membersWithout (c : Config) (fields : List Field) (sections : List Section)
    (s : Section) :
    jsonSection? s.fieldNames ((c.membersWithout fields sections).lookup (some s.name)) =
      some (s.fields.map fun f =>
        if removed fields sections f then none else some (c.fieldJson f)) := by
  have hparent : ∀ f ∈ s.fields, removed fields sections f = (f ∈ fields || s ∈ sections) :=
    fun f hf => by rw [removed, Section.parent_of_mem hf]
  rw [membersWithout, lookup_map Section.name_injective (c.sectionJson fields)]
  by_cases hs : s ∈ sections
  · rw [if_neg (by simp [hs]), jsonSection?, Section.fieldNames, List.map_map]
    refine congrArg some (List.map_congr_left fun f hf => ?_)
    simp [hparent f hf, hs]
  · rw [if_pos (by simp [hs, s.mem_all]), jsonSection?_sectionJson]
    refine congrArg some (List.map_congr_left fun f hf => ?_)
    simp [hparent f hf, hs]

theorem jsonField?_kept {α : Type} {default value : α} {read : JsonValue → Option α}
    {v : JsonValue} (h : read v = some value) (removed : Bool) :
    jsonField? default read (if removed then none else some v) =
      some (if removed then default else value) := by
  cases removed with
  | false => exact h
  | true => rfl

theorem ofSections?_kept (c : Config) (removed : Field → Bool) :
    (ofSections? fun s => some (s.fields.map fun f =>
      if removed f then none else some (c.fieldJson f))) = some (c.reset removed) := by
  have hlevel : jsonLevel? (c.fieldJson .level) = some c.level := rfl
  have hformat : jsonFormat? (c.fieldJson .format) = some c.format :=
    LogFormat.ofName?_name c.format
  have hcapacity : jsonCapacity? (c.fieldJson .initialCapacity) = some c.initialCapacity :=
    jsonCapacity?_toString c.initialCapacity
  have hflag : jsonFlag? (c.fieldJson .defaultSort) = some c.defaultSort := rfl
  simp only [ofSections?, Section.fields, List.map_cons, List.map_nil, Option.bind_eq_bind,
    Option.bind_some, jsonField?_kept hlevel, jsonField?_kept hformat, jsonField?_kept hcapacity,
    jsonField?_kept hflag]
  rfl

theorem ofJson?_membersWithout (c : Config) (fields : List Field) (sections : List Section) :
    ofJson? (.object (c.membersWithout fields sections)) =
      some (c.reset (removed fields sections)) := by
  have hreadable : readable (Section.all.map Section.name) (c.membersWithout fields sections) =
      true :=
    readable_map Section.name_injective (c.sectionJson fields)
      (List.Nodup.filter _ (by decide)) Section.all
  rw [ofJson?_object, if_pos hreadable]
  simp only [jsonSection?_membersWithout, ofSections?_kept]

end Config

/-! ### Texts -/

namespace JsonLibrary

open Config

variable {J : JsonLibrary} {c : Config} {fields : List Field} {sections : List Section}
  {members : Members}

/-- A well-formed value is read back from its text. -/
def RoundTrips (J : JsonLibrary) : Prop :=
  ∀ v : JsonValue, v.WellFormed → J.parse? (J.render v) = some v

theorem roundTrips_standard : standard.RoundTrips :=
  fun _ => JsonValue.parse?_render

theorem config?_of_parse? {s : String} (h : Added (c.membersWithout fields sections) members)
    (hs : J.parse? s = some (.object members)) :
    J.config? s = some (c.reset (removed fields sections)) := by
  rw [config?, hs, Option.bind_some, ofJson?_added h, ofJson?_membersWithout]

theorem text_eq (c : Config) : J.text c = J.render (.object (c.membersWithout [] [])) :=
  rfl

/-- With every library that reads back what it writes, a configuration is read back from its
text, whatever fields are taken out of it and whatever unknown keys are put in. -/
theorem RoundTrips.config?_text (hJ : J.RoundTrips) (c : Config) :
    J.config? (J.text c) = some c ∧
      ∀ (fields : List Field) (sections : List Section) (members : Members),
        Added (c.membersWithout fields sections) members →
        J.config? (J.render (.object members)) = some (c.reset (removed fields sections)) ∧
          ∀ s, J.parse? s = some (.object members) →
            J.config? s = some (c.reset (removed fields sections)) := by
  constructor
  · rw [text_eq]
    exact config?_of_parse? (.refl _) (hJ _ c.wellFormed_membersWithout)
  · intro fields sections members h
    exact ⟨config?_of_parse? h (hJ _ (h.wellFormed c.wellFormed_membersWithout)),
      fun s hs => config?_of_parse? h hs⟩

end JsonLibrary

namespace Config

/-- A configuration is read back from its text. Without some fields and sections, and with any
keys put in that are not known, the text is that of the configuration with just these fields
at their defaults, also if blanks stand in it. -/
theorem jsonText_roundTrip (c : Config) :
    ofJsonText? c.jsonText = some c ∧
      ∀ (fields : List Field) (sections : List Section) (members : Members),
        Added (c.membersWithout fields sections) members →
        ofJsonText? (JsonValue.object members).render =
            some (c.reset (removed fields sections)) ∧
          ∀ s, JsonValue.parse? s = some (.object members) →
            ofJsonText? s = some (c.reset (removed fields sections)) :=
  JsonLibrary.roundTrips_standard.config?_text c

namespace Trimmed

/-- A level with characters that are escaped, and a number that is no float. -/
def filtered : Config where
  level := "a=\"b\\c\"\n\x01"
  format := .json
  initialCapacity := 9007199254740993
  defaultSort := true

/-- What is left of it without the format and a section, and two keys that are not known. -/
def trimmed : Members :=
  [(some "version", .array [.number "-1.5e400", .text none]),
    (some "logging", .object [(some "default_sort", .null), (some "level", .text filtered.level)]),
    (some "store", .object [(some "initial_capacity", .number "9007199254740993")])]

/-- The same members with blanks between them. -/
def spaced : String :=
  "\x7b \"version\":[-1.5e400, \"\\uD800\"], \"logging\":\x7b\"default_sort\":null, " ++
    "\"level\":\"a=\\\"b\\\\c\\\"\\n\\u0001\"\x7d, " ++
    "\"store\" : \x7b \"initial_capacity\":9007199254740993 \x7d \x7d\n"

theorem added_trimmed : Added (filtered.membersWithout [.format] [.groupBy]) trimmed := by
  have hlogging : Added (filtered.membersWithout [.format] [.groupBy])
      [(some "logging",
          .object [(some "default_sort", .null), (some "level", .text filtered.level)]),
        (some "store", .object [(some "initial_capacity", .number "9007199254740993")])] :=
    @Added.field _ [] _ [] _ "default_sort" _ .logging (.refl _) (by decide) .null
  refine @Added.member _ [] _ _ _ hlogging (by decide) (.array ?_)
  simp only [List.forall_mem_cons, List.not_mem_nil, false_imp_iff, implies_true, and_true]
  exact ⟨.number rfl, .text _⟩

theorem toList_spaced : spaced.toList =
    ['\x7b', ' ', '"', 'v', 'e', 'r', 's', 'i', 'o', 'n', '"', ':', '[', '-', '1', '.', '5', 'e',
      '4', '0', '0', ',', ' ', '"', '\\', 'u', 'D', '8', '0', '0', '"', ']', ',', ' ', '"', 'l',
      'o', 'g', 'g', 'i', 'n', 'g', '"', ':', '\x7b', '"', 'd', 'e', 'f', 'a', 'u', 'l', 't', '_',
      's', 'o', 'r', 't', '"', ':', 'n', 'u', 'l', 'l', ',', ' ', '"', 'l', 'e', 'v', 'e', 'l', '"',
      ':', '"', 'a', '=', '\\', '"', 'b', '\\', '\\', 'c', '\\', '"', '\\', 'n', '\\', 'u', '0',
      '0', '0', '1', '"', '\x7d', ',', ' ', '"', 's', 't', 'o', 'r', 'e', '"', ' ', ':', ' ',
      '\x7b', ' ', '"', 'i', 'n', 'i', 't', 'i', 'a', 'l', '_', 'c', 'a', 'p', 'a', 'c', 'i', 't',
      'y', '"', ':', '9', '0', '0', '7', '1', '9', '9', '2', '5', '4', '7', '4', '0', '9', '9', '3',
      ' ', '\x7d', ' ', '\x7d', '\n'] := by
  decide +kernel

set_option maxRecDepth 20000 in
theorem parse?_spaced : JsonValue.parse? spaced = some (.object trimmed) := by
  -- With its characters written out, the text is not computed anew at every step of the reader.
  rw [JsonValue.parse?, toList_spaced]
  rfl

theorem trimmed_readings :
    JsonValue.parse? spaced = some (.object trimmed) ∧
      ofJsonText? filtered.jsonText = some filtered ∧
      ofJsonText? (JsonValue.object trimmed).render =
        some { filtered with format := .text, defaultSort := false } ∧
      ofJsonText? spaced = some { filtered with format := .text, defaultSort := false } := by
  obtain ⟨hread, hedited⟩ := jsonText_roundTrip filtered
  obtain ⟨hrender, hparsed⟩ := hedited [.format] [.groupBy] trimmed added_trimmed
  exact ⟨parse?_spaced, hread, hrender, hparsed spaced parse?_spaced⟩

end Trimmed

end Config

end ObjectGraph
