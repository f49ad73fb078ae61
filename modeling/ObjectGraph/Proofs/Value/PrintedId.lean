import Mathlib.Data.List.Basic
import Mathlib.Tactic.IntervalCases
import Mathlib.Tactic.Ring
import ObjectGraph.Value.Text

/-!
# What the text of an id says

The text of an id is a mark for its tag, the digits of its allocation number and those of its
offset. The number is not padded, so the mark ends where the digits begin, and the letter of
the mark for a dict is a hexadecimal digit: `$d1:0` is the first object of the dicts with
number 1, and of the entities with number `0xd1`. No other two ids have one text.
-/

namespace ObjectGraph

namespace ObjectId

/-! ### Digits -/

section Digits

variable {b m n d : Nat} {c : Char} {cs : List Char}

/-- A number is one digit, or one digit after the digits of a smaller number. -/
theorem toDigits_induction {P : Nat → List Char → Prop} (hb : 1 < b)
    (digit : ∀ d < b, P d [Nat.digitChar d])
    (append : ∀ m d, 0 < m → d < b → P m (Nat.toDigits b m) →
      P (b * m + d) (Nat.toDigits b m ++ [Nat.digitChar d])) (n : Nat) :
    P n (Nat.toDigits b n) := by
  induction n using Nat.strongRecOn with
  | ind n ih =>
      rcases Nat.lt_or_ge n b with hlt | hge
      · rw [Nat.toDigits_of_lt_base hlt]
        exact digit n hlt
      · have hstep := append (n / b) (n % b) (Nat.div_pos hge (by omega))
          (Nat.mod_lt n (by omega)) (ih _ (Nat.div_lt_self (by omega) hb))
        rwa [Nat.div_add_mod, ← Nat.toDigits_of_base_le hb hge] at hstep

theorem exists_of_mem_toDigits (hb : 1 < b) (n : Nat) :
    ∀ c ∈ Nat.toDigits b n, ∃ d < b, c = Nat.digitChar d := by
  refine toDigits_induction (P := fun _ cs => ∀ c ∈ cs, ∃ d < b, c = Nat.digitChar d) hb ?_ ?_ n
  · exact fun d hd => List.forall_mem_singleton.2 ⟨d, hd, rfl⟩
  · exact fun m d _ hd ih => List.forall_mem_append.2
      ⟨ih, List.forall_mem_singleton.2 ⟨d, hd, rfl⟩⟩

theorem digitValue?_digitChar (hd : d < b) (hb : b ≤ 16) :
    digitValue? b (Nat.digitChar d) = some d := by
  have hvalue : ∀ d < 16, digitValue? 16 (Nat.digitChar d) = some d := by decide
  have hsixteen := hvalue d (Nat.lt_of_lt_of_le hd hb)
  rw [digitValue?, Option.filter_eq_some_iff] at hsixteen ⊢
  exact ⟨hsixteen.1, decide_eq_true hd⟩

theorem number?_of_ne_nil (h : cs ≠ []) :
    number? b cs = cs.foldlM (fun n c => (digitValue? b c).map (n * b + ·)) 0 := by
  cases cs with
  | nil => exact absurd rfl h
  | cons c cs => rfl

/-- The digits of a number are read back as the number. -/
theorem number?_toDigits (hb : 1 < b) (hb' : b ≤ 16) (n : Nat) :
    number? b (Nat.toDigits b n) = some n := by
  rw [number?_of_ne_nil Nat.toDigits_ne_nil]
  refine toDigits_induction
    (P := fun n cs => cs.foldlM (fun n c => (digitValue? b c).map (n * b + ·)) 0 = some n)
    hb ?_ ?_ n
  · intro d hd
    simp [digitValue?_digitChar hd hb']
  · intro m d _ hd ih
    rw [List.foldlM_append, ih]
    simp [digitValue?_digitChar hd hb', Nat.mul_comm]

theorem toDigits_inj (hb : 1 < b) (hb' : b ≤ 16) :
    Nat.toDigits b m = Nat.toDigits b n ↔ m = n := by
  constructor
  · intro h
    have hread := number?_toDigits hb hb' m
    rw [h, number?_toDigits hb hb' n] at hread
    exact (Option.some.inj hread).symm
  · rintro rfl
    rfl

/-- A digit before the others counts as many times the power of the base as they are. -/
theorem toDigits_mul_pow_add (hb : 1 < b) (hd : 0 < d) (hdb : d < b) (n : Nat) :
    Nat.toDigits b (d * b ^ (Nat.toDigits b n).length + n) =
      Nat.digitChar d :: Nat.toDigits b n := by
  refine toDigits_induction
    (P := fun n cs => Nat.toDigits b (d * b ^ cs.length + n) = Nat.digitChar d :: cs) hb ?_ ?_ n
  · intro e he
    rw [List.length_singleton, Nat.pow_one, Nat.mul_comm,
      ← Nat.toDigits_append_toDigits hb hd he, Nat.toDigits_of_lt_base hdb,
      Nat.toDigits_of_lt_base he]
    rfl
  · intro m e hm he ih
    have hsum : d * b ^ (Nat.toDigits b m ++ [Nat.digitChar e]).length + (b * m + e) =
        b * (d * b ^ (Nat.toDigits b m).length + m) + e := by
      rw [List.length_append, List.length_singleton]
      ring
    rw [hsum, ← Nat.toDigits_append_toDigits hb (by omega) he, ih, Nat.toDigits_of_lt_base he]
    rfl

end Digits

/-! ### Marks -/

/-- The hexadecimal digits of the allocation number. -/
def hexDigits (id : ObjectId) : List Char :=
  Nat.toDigits 16 id.allocation.toNat

/-- The mark and the digits after it, which end at the colon. -/
def marked (id : ObjectId) : List Char :=
  (mark id.tag).toList ++ id.hexDigits

/-- The text of an entity is that of a dict: the number of the entity is that of the dict with
the digit `d` before. -/
def Mistaken (entity dict : ObjectId) : Prop :=
  entity.tag = .entity ∧ dict.tag = .dict ∧ entity.offset = dict.offset ∧
    entity.allocation.toNat = 13 * 16 ^ dict.hexDigits.length + dict.allocation.toNat

variable {x y : ObjectId} {c : Char} {cs : List Char}

theorem toList_text (id : ObjectId) :
    id.text.toList = id.marked ++ ':' :: Nat.toDigits 10 id.offset.toNat := by
  simp [text, marked, hexDigits]

theorem hexDigits_inj : x.hexDigits = y.hexDigits ↔ x.allocation = y.allocation := by
  rw [hexDigits, hexDigits, toDigits_inj (by decide) (by decide), UInt64.toNat_inj]

theorem forall_marked (id : ObjectId) : ∀ c ∈ id.marked, (c != ':') = true := by
  refine List.forall_mem_append.2 ⟨?_, fun c hc => ?_⟩
  · cases id.tag <;> simp [mark]
  · have hdigit : ∀ d < 16, (Nat.digitChar d != ':') = true := by decide
    obtain ⟨d, hd, rfl⟩ := exists_of_mem_toDigits (by decide) _ c hc
    exact hdigit d hd

theorem takeWhile_text (id : ObjectId) : id.text.toList.takeWhile (· != ':') = id.marked := by
  rw [toList_text, List.takeWhile_append_of_pos (forall_marked id)]
  simp

theorem dropWhile_text (id : ObjectId) :
    id.text.toList.dropWhile (· != ':') = ':' :: Nat.toDigits 10 id.offset.toNat := by
  rw [toList_text, List.dropWhile_append_of_pos (forall_marked id)]
  simp

/-- What stands before the colon and what stands after it are two parts of the text. -/
theorem text_eq_iff_marked_eq : x.text = y.text ↔ x.marked = y.marked ∧ x.offset = y.offset := by
  constructor
  · intro h
    have hmarked := takeWhile_text x
    have hoffset := dropWhile_text x
    rw [h, takeWhile_text] at hmarked
    rw [h, dropWhile_text, List.cons_inj_right, toDigits_inj (by decide) (by decide),
      UInt32.toNat_inj] at hoffset
    exact ⟨hmarked.symm, hoffset.symm⟩
  · rintro ⟨hmarked, hoffset⟩
    rw [← String.toList_inj, toList_text, toList_text, hmarked, hoffset]

/-- The mark for a dict is that for an entity with the digit `d`. -/
theorem digits_eq_cons_iff : x.hexDigits = 'd' :: y.hexDigits ↔
    x.allocation.toNat = 13 * 16 ^ y.hexDigits.length + y.allocation.toNat := by
  have hcons := toDigits_mul_pow_add (b := 16) (d := 13) (by decide) (by decide) (by decide)
    y.allocation.toNat
  rw [show 'd' :: y.hexDigits = _ from hcons.symm, hexDigits, toDigits_inj (by decide) (by decide)]
  rfl

/-! ### Reading back -/

/-- An entity the number of which has several digits, the first one `d`. -/
def LooksLikeDict (id : ObjectId) : Prop :=
  id.tag = .entity ∧ ∃ cs, cs ≠ [] ∧ id.hexDigits = 'd' :: cs

theorem splitMark?_digit {d : Nat} (hd : d < 16) (hne : d ≠ 13) (cs : List Char) :
    splitMark? ('$' :: Nat.digitChar d :: cs) = some (.entity, Nat.digitChar d :: cs) := by
  interval_cases d <;> first | rfl | contradiction

theorem splitMark?_marked (h : ¬ x.LooksLikeDict) :
    splitMark? x.marked = some (x.tag, x.hexDigits) := by
  have hne : x.hexDigits ≠ [] := Nat.toDigits_ne_nil
  obtain ⟨c, cs, hdigits⟩ := List.exists_cons_of_ne_nil hne
  rw [marked, hdigits]
  cases htag : x.tag with
  | list | schema | nofollow | dict => rfl
  | entity =>
      obtain ⟨d, hd, rfl⟩ := exists_of_mem_toDigits (by decide) _ c (hdigits ▸ List.mem_cons_self)
      rcases eq_or_ne d 13 with rfl | hne
      · -- The digit `d` is the whole number, or the id looked like one of a dict.
        have hcs : cs = [] := by
          by_contra hcs
          exact h ⟨htag, cs, hcs, hdigits⟩
        rw [hcs]
        rfl
      · exact splitMark?_digit hd hne cs

theorem splitMark?_of_looksLikeDict (htag : x.tag = .entity) (hcs : cs ≠ [])
    (hdigits : x.hexDigits = 'd' :: cs) : splitMark? x.marked = some (.dict, cs) := by
  obtain ⟨c, cs, rfl⟩ := List.exists_cons_of_ne_nil hcs
  rw [marked, hdigits, htag]
  rfl

/-- What is read is the tag with the digits, or `d` is taken for the mark of a dict. -/
theorem exists_splitMark?_marked (x : ObjectId) : ∃ tag digits,
    splitMark? x.marked = some (tag, digits) ∧ (x.tag = tag ∧ x.hexDigits = digits ∨
      x.tag = .entity ∧ tag = .dict ∧ x.hexDigits = 'd' :: digits) := by
  by_cases h : x.LooksLikeDict
  · obtain ⟨htag, cs, hcs, hdigits⟩ := h
    exact ⟨.dict, cs, splitMark?_of_looksLikeDict htag hcs hdigits, .inr ⟨htag, rfl, hdigits⟩⟩
  · exact ⟨x.tag, x.hexDigits, splitMark?_marked h, .inl ⟨rfl, rfl⟩⟩

/-- Two ids have one mark with digits if they are the same but for the offset, or one is an
entity that looks like the other one, a dict. -/
theorem marked_eq_iff : x.marked = y.marked ↔ (x.tag = y.tag ∧ x.hexDigits = y.hexDigits) ∨
    (x.tag = .entity ∧ y.tag = .dict ∧ x.hexDigits = 'd' :: y.hexDigits) ∨
      y.tag = .entity ∧ x.tag = .dict ∧ y.hexDigits = 'd' :: x.hexDigits := by
  constructor
  · intro h
    obtain ⟨tag, digits, hx, hxread⟩ := x.exists_splitMark?_marked
    obtain ⟨tag', digits', hy, hyread⟩ := y.exists_splitMark?_marked
    rw [h, hy] at hx
    obtain ⟨rfl, rfl⟩ := Prod.mk.inj (Option.some.inj hx)
    rcases hxread with ⟨hxtag, hxdigits⟩ | ⟨hxtag, hdict, hxdigits⟩ <;>
      rcases hyread with ⟨hytag, hydigits⟩ | ⟨hytag, hdict', hydigits⟩
    · exact .inl ⟨hxtag.trans hytag.symm, hxdigits.trans hydigits.symm⟩
    · exact .inr (.inr ⟨hytag, hxtag.trans hdict', hxdigits ▸ hydigits⟩)
    · exact .inr (.inl ⟨hxtag, hytag.trans hdict, hydigits ▸ hxdigits⟩)
    · exact .inl ⟨hxtag.trans hytag.symm, hxdigits.trans hydigits.symm⟩
  · rw [marked, marked]
    rintro (⟨htag, hdigits⟩ | ⟨hxtag, hytag, hdigits⟩ | ⟨hytag, hxtag, hdigits⟩)
    · rw [htag, hdigits]
    · rw [hxtag, hytag, hdigits]
      rfl
    · rw [hxtag, hytag, hdigits]
      rfl

theorem ofText?_text (h : ¬ x.LooksLikeDict) : ofText? x.text = some x := by
  have hallocation : number? 16 x.hexDigits = some x.allocation.toNat :=
    number?_toDigits (by decide) (by decide) _
  have hoffset : number? 10 (Nat.toDigits 10 x.offset.toNat) = some x.offset.toNat :=
    number?_toDigits (by decide) (by decide) _
  have hfits : x.allocation.toNat < UInt64.size ∧ x.offset.toNat < UInt32.size :=
    ⟨x.allocation.toNat_lt, x.offset.toNat_lt⟩
  simp [ofText?, takeWhile_text, dropWhile_text, splitMark?_marked h, hallocation, hoffset, hfits]

theorem tag_of_ofText? {t : Tag} {z : ObjectId} (h : splitMark? x.marked = some (t, cs))
    (hz : ofText? x.text = some z) : z.tag = t := by
  simp only [ofText?, takeWhile_text, h, Option.bind_eq_bind, Option.bind_some,
    Option.bind_eq_some_iff, Option.ite_none_right_eq_some, Option.some.injEq] at hz
  obtain ⟨-, -, -, -, -, rfl⟩ := hz
  rfl

theorem ofText?_text_eq_self_iff : ofText? x.text = some x ↔ ¬ x.LooksLikeDict := by
  constructor
  · rintro h ⟨htag, cs, hcs, hdigits⟩
    have hdict := tag_of_ofText? (splitMark?_of_looksLikeDict htag hcs hdigits) h
    rw [htag] at hdict
    cases hdict
  · exact ofText?_text

/-! ### Ids with one text -/

theorem text_eq_iff : x.text = y.text ↔ x = y ∨ x.Mistaken y ∨ y.Mistaken x := by
  rw [text_eq_iff_marked_eq, marked_eq_iff, digits_eq_cons_iff, digits_eq_cons_iff, hexDigits_inj]
  constructor
  · rintro ⟨⟨htag, hallocation⟩ | ⟨hx, hy, h⟩ | ⟨hy, hx, h⟩, hoffset⟩
    · obtain ⟨a, o, t⟩ := x
      obtain ⟨a', o', t'⟩ := y
      obtain rfl : a = a' := hallocation
      obtain rfl : o = o' := hoffset
      obtain rfl : t = t' := htag
      exact .inl rfl
    · exact .inr (.inl ⟨hx, hy, hoffset, h⟩)
    · exact .inr (.inr ⟨hy, hx, hoffset.symm, h⟩)
  · rintro (rfl | ⟨hx, hy, hoffset, h⟩ | ⟨hy, hx, hoffset, h⟩)
    · exact ⟨.inl ⟨rfl, rfl⟩, rfl⟩
    · exact ⟨.inr (.inl ⟨hx, hy, h⟩), hoffset⟩
    · exact ⟨.inr (.inr ⟨hy, hx, h⟩), hoffset.symm⟩

theorem Mistaken.shiftRight_ne (h : x.Mistaken y) (hnonzero : y.allocation >>> 48 ≠ 0) :
    x.allocation >>> 48 ≠ y.allocation >>> 48 := by
  obtain ⟨-, -, -, hsum⟩ := h
  have hlt : y.allocation.toNat < 16 ^ y.hexDigits.length :=
    (Nat.length_toDigits_le_iff (by decide) Nat.length_toDigits_pos).1 (Nat.le_refl _)
  have hdiv : ∀ a : UInt64, (a >>> 48).toNat = a.toNat / 2 ^ 48 := fun a => by
    rw [UInt64.toNat_shiftRight, Nat.shiftRight_eq_div_pow]
    rfl
  rw [Ne, ← UInt64.toNat_inj, hdiv] at hnonzero ⊢
  rw [hdiv]
  -- The digit before is worth more than the number, and this fills more than 48 bits.
  have hlarge : 2 ^ 48 ≤ y.allocation.toNat := by
    by_contra hsmall
    exact hnonzero (Nat.div_eq_of_lt (Nat.lt_of_not_le hsmall))
  omega

/-- In one process the numbers begin with one prefix, and unless it is zero no two ids have one
text. -/
theorem text_inj_of_shiftRight_eq (h : x.allocation >>> 48 = y.allocation >>> 48)
    (hnonzero : y.allocation >>> 48 ≠ 0) : x.text = y.text ↔ x = y := by
  rw [text_eq_iff]
  constructor
  · rintro (rfl | hmistaken | hmistaken)
    · rfl
    · exact absurd h (hmistaken.shiftRight_ne hnonzero)
    · exact absurd h.symm (hmistaken.shiftRight_ne (h ▸ hnonzero))
  · exact .inl

/-- The text of an id is that of no other one but an entity and a dict that are mistaken for
each other, and it is read back as the id unless it looks like that of a dict. -/
theorem text_identifies (x : ObjectId) :
    (∀ y, x.text = y.text ↔ x = y ∨ x.Mistaken y ∨ y.Mistaken x) ∧
      (ofText? x.text = some x ↔ ¬ x.LooksLikeDict) :=
  ⟨fun _ => text_eq_iff, ofText?_text_eq_self_iff⟩

/-- The entity `$d1:0` and the dict `$d1:0`. -/
theorem exists_same_text : ∃ x y : AllocationId, x.kind = .entity ∧ y.kind = .dict ∧
    (x.objectId 0).text = "$d1:0" ∧ (y.objectId 0).text = "$d1:0" ∧
      x.objectId 0 ≠ y.objectId 0 :=
  ⟨⟨0xd1, .entity⟩, ⟨1, .dict⟩, rfl, rfl, by decide, by decide, by decide⟩

end ObjectId

end ObjectGraph
