import ObjectGraph.Slice

/-!
# NoFollow forms

The tag of an id stands for a word of flags, in which NoFollow is one more bit beside that of
a schema; the NoFollow form of a schema id is made by setting this bit and undone by clearing
it. The tag `OBJECT` has a NoFollow form too, an id that no allocation has. `Wraps` relates a
schema to its NoFollow form, and `noFollow` and `followed` are this relation read in either
direction, as long as no schema has the number that stands for `OBJECT`.
-/

namespace ObjectGraph

/-! ### The word of flags -/

/-- The bit that tells a NoFollow form from the schema. -/
def noFollowFlag : UInt32 :=
  8

/-- The kind that the lowest three bits stand for. -/
def Kind.ofFlags (flags : UInt32) : Kind :=
  if flags &&& 7 = 1 then .list
  else if flags &&& 7 = 2 then .dict
  else if flags &&& 7 = 4 then .schema
  else .entity

namespace Tag

variable {t : Tag}

theorem kind_eq_ofFlags (t : Tag) : t.kind = .ofFlags t.flags := by
  cases t <;> decide

theorem eq_schema_iff : t = .schema ↔ t.kind = .schema ∧ t.flags &&& noFollowFlag = 0 := by
  cases t <;> decide

theorem eq_nofollow_iff : t = .nofollow ↔ t.kind = .schema ∧ t.flags &&& noFollowFlag ≠ 0 := by
  cases t <;> decide

/-- The bit is set. -/
theorem flags_nofollow (h : t.kind = .schema) : nofollow.flags = t.flags ||| noFollowFlag := by
  cases t <;> revert h <;> decide

/-- The bit is cleared. -/
theorem flags_schema (h : t.kind = .schema) : schema.flags = t.flags &&& ~~~noFollowFlag := by
  cases t <;> revert h <;> decide

end Tag

/-- The id of an object of an allocation, or the NoFollow form of `OBJECT`: no allocation has the
number zero. -/
def ObjectId.IsNumbered (id : ObjectId) : Prop :=
  id.allocation ≠ 0 ∨ id = .noFollowObject

/-- If the item is an id, it is one that allocations give or that stands for `OBJECT`. -/
def Item.IsNumbered (item : Item) : Prop :=
  ∀ id, item = .objectId id → id.IsNumbered

namespace Schema

variable {x y z : Item} {id : ObjectId} {e : Error}

/-- The second item is the NoFollow form of the first. -/
inductive Wraps : Item → Item → Prop
  | object : Wraps (.dtype .object) (.objectId .noFollowObject)
  | schema {id : ObjectId} (h : id.tag = .schema) : Wraps (.objectId id) (.objectId id.withNoFollow)

/-- Why an item has no NoFollow form. -/
inductive Refuses : Item → Error → Prop
  | dtype {d : DType} (h : d ≠ .object) : Refuses (.dtype d) (.noFollowOfDType d)
  | object {id : ObjectId} (h : id.isSchema = false) : Refuses (.objectId id) .noFollowOfObject
  | nofollow {id : ObjectId} (h : id.isNoFollow = true) :
      Refuses (.objectId id) .noFollowOfNoFollow
  | data {x : Item} (hd : x.asDType? = none) (hid : x.objectId? = none) :
      Refuses x .noFollowOfData

theorem isNoFollow_withNoFollow (id : ObjectId) : id.withNoFollow.isNoFollow = true :=
  rfl

theorem noFollow_of_schema (h : id.tag = .schema) :
    noFollow (.objectId id) = .ok (.objectId id.withNoFollow) := by
  have hschema : id.isSchema = true := (ObjectId.isSchema_iff id).2 (.inl h)
  have hnofollow : id.isNoFollow = false := by simp [ObjectId.isNoFollow, h]
  simp [noFollow, hschema, hnofollow]

theorem noFollow_eq_ok_iff : noFollow x = .ok y ↔ Wraps x y := by
  constructor
  · intro h
    cases x with
    | dtype d =>
        cases d <;> cases h
        exact .object
    | objectId id =>
        rw [noFollow] at h
        split at h
        · cases h
        · rename_i hschema
          split at h
          · cases h
          · rename_i hnofollow
            obtain rfl := Except.ok.inj h
            refine .schema ?_
            rw [Bool.not_eq_true, Bool.not_eq_false', ObjectId.isSchema_iff] at hschema
            exact hschema.resolve_right fun htag => hnofollow (decide_eq_true htag)
    | _ => cases h
  · rintro (_ | h)
    · rfl
    · exact noFollow_of_schema h

theorem noFollow_eq_error_iff : noFollow x = .error e ↔ Refuses x e := by
  constructor
  · intro h
    cases x with
    | dtype d => cases d <;> cases h <;> exact .dtype nofun
    | objectId id =>
        rw [noFollow] at h
        split at h
        · rename_i hschema
          obtain rfl := Except.error.inj h
          exact .object (by simpa using hschema)
        · split at h
          · rename_i hnofollow
            obtain rfl := Except.error.inj h
            exact .nofollow hnofollow
          · cases h
    | _ => cases h; exact .data rfl rfl
  · rintro (h | h | h | ⟨hd, hid⟩)
    · rename_i d
      cases d <;> first | rfl | exact absurd rfl h
    · simp [noFollow, h]
    · simp [noFollow, h, ObjectId.isSchema_of_isNoFollow h]
    · cases x with
      | dtype d => cases hd
      | objectId id => cases hid
      | _ => rfl

theorem wraps_of_followed (h : followed y = .ok x) : Wraps x y := by
  cases y with
  | objectId id =>
      rw [followed] at h
      split at h
      · rename_i hobject
        obtain rfl := Except.ok.inj h
        rw [hobject]
        exact .object
      · split at h
        · rename_i hnofollow
          obtain rfl := Except.ok.inj h
          obtain ⟨allocation, offset, tag⟩ := id
          obtain rfl : tag = .nofollow := of_decide_eq_true hnofollow
          exact @Wraps.schema ⟨allocation, offset, .schema⟩ rfl
        · cases h
  | _ => cases h

/-- The NoFollow form of a schema with a number of its own does not stand for `OBJECT`. -/
theorem followed_of_wraps (hx : x.IsNumbered) (h : Wraps x y) : followed y = .ok x := by
  rcases h with _ | h
  · rfl
  · rename_i id
    obtain ⟨allocation, offset, tag⟩ := id
    obtain rfl : tag = .schema := h
    have hne : (ObjectId.withNoFollow ⟨allocation, offset, .schema⟩) ≠ .noFollowObject := by
      intro heq
      rcases hx _ rfl with hallocation | hobject
      · exact hallocation (congrArg ObjectId.allocation heq)
      · nomatch congrArg ObjectId.tag hobject
    rw [followed, if_neg hne, if_pos (isNoFollow_withNoFollow _)]
    rfl

theorem followed_eq_ok_iff (hx : x.IsNumbered) : followed y = .ok x ↔ Wraps x y :=
  ⟨wraps_of_followed, followed_of_wraps hx⟩

theorem isNoFollow_iff : isNoFollow y = true ↔ ∃ id, y = .objectId id ∧ id.isNoFollow = true := by
  cases y <;> simp [isNoFollow, Item.objectId?]

/-- The items that are NoFollow forms are those of the schemas that have one. -/
theorem exists_wraps_iff (hy : y.IsNumbered) :
    (∃ x, x.IsNumbered ∧ Wraps x y) ↔ isNoFollow y = true := by
  rw [isNoFollow_iff]
  constructor
  · rintro ⟨x, -, _ | h⟩
    · exact ⟨_, rfl, rfl⟩
    · exact ⟨_, rfl, rfl⟩
  · rintro ⟨⟨allocation, offset, tag⟩, rfl, hnofollow⟩
    obtain rfl : tag = .nofollow := of_decide_eq_true hnofollow
    rcases hy _ rfl with hallocation | hobject
    · refine ⟨.objectId ⟨allocation, offset, .schema⟩, ?_, .schema rfl⟩
      rintro id ⟨⟩
      exact .inl hallocation
    · rw [hobject]
      exact ⟨.dtype .object, nofun, .object⟩

theorem followed_eq_error_iff :
    followed y = .error e ↔ isNoFollow y = false ∧ e = .noFollowRequired := by
  cases y with
  | objectId id =>
      rw [followed]
      by_cases hobject : id = .noFollowObject
      · rw [if_pos hobject, hobject]
        exact ⟨nofun, fun h => nomatch h.1⟩
      · rw [if_neg hobject]
        by_cases hnofollow : id.isNoFollow = true
        · simp [isNoFollow, Item.objectId?, hnofollow]
        · simp [isNoFollow, Item.objectId?, hnofollow, eq_comm]
  | _ => simp [followed, isNoFollow, Item.objectId?, eq_comm]

end Schema

namespace Slice

open Schema

variable {s t : Slice}

theorem noFollow_eq_ok_iff :
    s.noFollow = .ok t ↔
      ∃ schema, Schema.noFollow s.schema = .ok schema ∧ t = s.withSchema schema := by
  rw [noFollow]
  cases Schema.noFollow s.schema with
  | error e => exact ⟨nofun, fun ⟨_, h, _⟩ => nomatch h⟩
  | ok schema =>
      constructor
      · intro h
        exact ⟨schema, rfl, (Except.ok.inj h).symm⟩
      · rintro ⟨_, ⟨⟩, rfl⟩
        rfl

theorem followed_eq_ok_iff :
    t.followed = .ok s ↔
      ∃ schema, Schema.followed t.schema = .ok schema ∧ s = t.withSchema schema := by
  rw [followed]
  cases Schema.followed t.schema with
  | error e => exact ⟨nofun, fun ⟨_, h, _⟩ => nomatch h⟩
  | ok schema =>
      constructor
      · intro h
        exact ⟨schema, rfl, (Except.ok.inj h).symm⟩
      · rintro ⟨_, ⟨⟩, rfl⟩
        rfl

/-- Of two slices that differ in the schema only, one is the NoFollow form of the other if it
can be undone. -/
theorem noFollow_eq_ok_iff_followed (hs : s.schema.IsNumbered) :
    s.noFollow = .ok t ↔ t = s.withSchema t.schema ∧ t.followed = .ok s := by
  rw [noFollow_eq_ok_iff, followed_eq_ok_iff]
  constructor
  · rintro ⟨schema, hwraps, rfl⟩
    have hfollowed := followed_of_wraps hs (Schema.noFollow_eq_ok_iff.1 hwraps)
    exact ⟨rfl, s.schema, hfollowed, rfl⟩
  · rintro ⟨hsame, schema, hfollowed, rfl⟩
    exact ⟨t.schema, Schema.noFollow_eq_ok_iff.2 (wraps_of_followed hfollowed), hsame⟩

end Slice

namespace Schema

variable {x y : Item}

/-- Making a NoFollow form and undoing it are inverse to each other; on ids they set one bit and
clear it. The form is there for `OBJECT` and for the ids of schemas without this bit. The forms
are the ids of schemas with the bit, each of one schema only. What has no form, or is none, is
refused for what it is. Slices that differ in the schema only are made NoFollow and followed in
the same way. -/
theorem noFollow_followed_inverse (hx : x.IsNumbered) (hy : y.IsNumbered) :
    (noFollow x = .ok y ↔ followed y = .ok x) ∧
    ((∃ z, noFollow x = .ok z) ↔ x = .dtype .object ∨ ∃ id, x = .objectId id ∧
      Kind.ofFlags id.tag.flags = .schema ∧ id.tag.flags &&& noFollowFlag = 0) ∧
    ((∃ z, z.IsNumbered ∧ noFollow z = .ok y) ↔ isNoFollow y = true) ∧
    (isNoFollow y = true ↔ ∃ id, y = .objectId id ∧
      Kind.ofFlags id.tag.flags = .schema ∧ id.tag.flags &&& noFollowFlag ≠ 0) ∧
    (∀ z, z.IsNumbered → noFollow x = .ok y → noFollow z = .ok y → x = z) ∧
    (∀ e, noFollow x = .error e ↔ Refuses x e) ∧
    (∀ e, followed y = .error e ↔ isNoFollow y = false ∧ e = .noFollowRequired) ∧
    (∀ id : ObjectId, id.kind = .schema →
      id.withNoFollow.tag.flags = id.tag.flags ||| noFollowFlag ∧
        id.withoutNoFollow.tag.flags = id.tag.flags &&& ~~~noFollowFlag) ∧
    ∀ s t : Slice, s.schema.IsNumbered →
      (s.noFollow = .ok t ↔ t = s.withSchema t.schema ∧ t.followed = .ok s) := by
  refine ⟨?inverse, ?domain, ?image, ?forms, ?injective, fun e => noFollow_eq_error_iff,
    fun e => followed_eq_error_iff, fun id h => ⟨Tag.flags_nofollow h, Tag.flags_schema h⟩,
    fun s t hs => Slice.noFollow_eq_ok_iff_followed hs⟩
  case inverse => rw [noFollow_eq_ok_iff, followed_eq_ok_iff hx]
  case domain =>
    simp only [noFollow_eq_ok_iff, ← Tag.kind_eq_ofFlags, ← Tag.eq_schema_iff]
    constructor
    · rintro ⟨z, _ | h⟩
      · exact .inl rfl
      · exact .inr ⟨_, rfl, h⟩
    · rintro (rfl | ⟨id, rfl, h⟩)
      · exact ⟨_, .object⟩
      · exact ⟨_, .schema h⟩
  case image =>
    simp only [noFollow_eq_ok_iff]
    exact exists_wraps_iff hy
  case forms =>
    simp only [isNoFollow_iff, ← Tag.kind_eq_ofFlags, ← Tag.eq_nofollow_iff, ObjectId.isNoFollow,
      decide_eq_true_eq]
  case injective =>
    intro z hz hxy hzy
    have hread := followed_of_wraps hx (noFollow_eq_ok_iff.1 hxy)
    rw [followed_of_wraps hz (noFollow_eq_ok_iff.1 hzy)] at hread
    exact (Except.ok.inj hread).symm

namespace Tagged

/-- A schema id and its NoFollow form. -/
def plain : Item :=
  .objectId ⟨4, 0, .schema⟩

def wrapped : Item :=
  .objectId ⟨4, 0, .nofollow⟩

theorem isNumbered_plain : plain.IsNumbered := by
  rintro id ⟨⟩
  exact .inl (by decide)

theorem isNumbered_wrapped : wrapped.IsNumbered := by
  rintro id ⟨⟩
  exact .inl (by decide)

/-- An item of the schema, under its NoFollow form, is followed back to the schema. -/
theorem followed_wrapped : followed wrapped = .ok plain ∧
    (∃ z, z.IsNumbered ∧ noFollow z = .ok wrapped) ∧
    noFollow wrapped = .error .noFollowOfNoFollow ∧
    (Slice.ofItem .missing wrapped).followed = .ok (.ofItem .missing plain) := by
  obtain ⟨hinverse, -, himage, -, -, -, -, -, hslice⟩ :=
    noFollow_followed_inverse isNumbered_plain isNumbered_wrapped
  obtain ⟨-, -, -, -, -, hrefuses, -, -, -⟩ :=
    noFollow_followed_inverse isNumbered_wrapped isNumbered_plain
  refine ⟨hinverse.1 rfl, himage.2 rfl, (hrefuses _).2 (.nofollow rfl), ?_⟩
  exact ((hslice (.ofItem .missing plain) (.ofItem .missing wrapped) isNumbered_plain).1 rfl).2

/-- A schema with the number zero would be taken for `OBJECT`. -/
example : (noFollow (.objectId ⟨0, 0, .schema⟩)).bind followed = .ok (.dtype .object) :=
  rfl

end Tagged

end Schema

end ObjectGraph
