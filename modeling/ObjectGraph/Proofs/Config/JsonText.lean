import ObjectGraph.Config.JsonValue
import ObjectGraph.Proofs.Value.PrintedId

/-!
# Reading back JSON texts

The compact text of a JSON value is read back as the value, with nothing left over. A number
ends where the next character cannot go on with it, and every other value says itself where it
ends, so a value is read the same whatever follows it in an array or an object. The bound on
the depth of the recursion is never met, since every two calls take up a character.
-/

namespace ObjectGraph.JsonValue

/-- The numbers in the value are written as JSON has them. -/
inductive WellFormed : JsonValue → Prop
  | null : WellFormed null
  | bool (value : Bool) : WellFormed (bool value)
  | number {literal : String} (h : number? literal.toList = some (literal.toList, [])) :
      WellFormed (number literal)
  | text (value : JsonText) : WellFormed (text value)
  | array {items : List JsonValue} (h : ∀ item ∈ items, WellFormed item) :
      WellFormed (array items)
  | object {members : List (JsonText × JsonValue)} (h : ∀ m ∈ members, WellFormed m.2) :
      WellFormed (object members)

variable {c : Char} {cs rest : List Char} {v : JsonValue}

/-! ### Strings -/

theorem hexDigit?_digitChar {d : Nat} (h : d < 16) : hexDigit? (Nat.digitChar d) = some d := by
  have hdigit : ∀ d < 16, hexDigit? (Nat.digitChar d) = some d := by decide
  exact hdigit d h

/-- The four digits of a code unit are read back. -/
theorem unit?_digits {n : Nat} (h : n < 65536) :
    unit? (Nat.digitChar (n / 4096 % 16)) (Nat.digitChar (n / 256 % 16))
      (Nat.digitChar (n / 16 % 16)) (Nat.digitChar (n % 16)) = some n := by
  have hmod : ∀ m, m % 16 < 16 := fun m => Nat.mod_lt m (by decide)
  rw [unit?, hexDigit?_digitChar (hmod _), hexDigit?_digitChar (hmod _),
    hexDigit?_digitChar (hmod _), hexDigit?_digitChar (hmod _)]
  refine congrArg some ?_
  omega

/-- A character after a backslash stands for another one. -/
theorem textBody_backslash {e : Char} (h : unescape? e = some c) (hu : e ≠ 'u') :
    textBody ('\\' :: e :: cs) = consChar (some c) (textBody cs) := by
  rw [textBody.eq_4 _ _ fun _ _ _ _ _ he => absurd he hu, h]

/-- The form of a character in a string is read back as the character. -/
theorem textBody_escapeChar (c : Char) (cs : List Char) :
    textBody (escapeChar c ++ cs) = consChar (some c) (textBody cs) := by
  unfold escapeChar
  -- The characters with a short escape, then the other control characters, then all others.
  iterate 7
    split
    · rename_i h
      rw [h]
      exact textBody_backslash rfl (by decide)
  split
  · rename_i h
    have hlt : c.toNat < 32 := h
    simp only [unitDigits, List.cons_append, List.nil_append]
    rw [textBody, unit?_digits (by omega)]
    simp only
    rw [if_neg (by omega), if_neg (by omega), Char.ofNat_toNat]
  · rename_i hquote hslash _ _ _ _ _ hblank
    rw [List.cons_append, List.nil_append, textBody.eq_5, if_neg hblank]
    · exact hquote
    · exact fun _ _ _ _ _ h => absurd h hslash
    · exact fun _ _ h => absurd h hslash

/-- The text of a string in quotes is read back, whatever follows it. -/
theorem exists_renderText (s : JsonText) : ∃ body, renderText s = '"' :: body ∧
    ∀ rest, textBody (body ++ rest) = some (s.map String.toList, rest) := by
  cases s with
  | none => exact ⟨['\\', 'u', 'd', '8', '0', '0', '"'], rfl, fun rest => rfl⟩
  | some s =>
      refine ⟨s.toList.flatMap escapeChar ++ ['"'], rfl, fun rest => ?_⟩
      rw [Option.map_some]
      induction s.toList with
      | nil => rfl
      | cons c cs ih =>
          rw [List.flatMap_cons, List.append_assoc, List.append_assoc, textBody_escapeChar,
            ← List.append_assoc, ih]
          rfl

/-! ### Numbers -/

/-- Nothing follows, or what goes on an array or an object or ends it. -/
def Ends (rest : List Char) : Prop :=
  ∀ c ∈ rest.head?, c = ',' ∨ c = ']' ∨ c = '\x7d'

theorem ends_nil : Ends [] :=
  nofun

theorem ends_cons (h : c = ',' ∨ c = ']' ∨ c = '\x7d') : Ends (c :: rest) := by
  rintro c' ⟨⟩
  exact h

/-- A reader of the first characters of a text, which are cut off. -/
abbrev Reader := List Char → Option (List Char × List Char)

/-- What is read from a text is read as well if `rest` follows, which is left over. -/
def ReadsBefore (read : Reader) (rest : List Char) : Prop :=
  ∀ cs run left, read cs = some (run, left) → read (cs ++ rest) = some (run, left ++ rest)

theorem takeWhile_append_of_head {p : Char → Bool} (h : ∀ c ∈ rest.head?, p c = false)
    (cs : List Char) : (cs ++ rest).takeWhile p = cs.takeWhile p ∧
      (cs ++ rest).dropWhile p = cs.dropWhile p ++ rest := by
  induction cs with
  | nil =>
      cases rest with
      | nil => exact ⟨rfl, rfl⟩
      | cons c rest => simp [h c rfl]
  | cons c cs ih =>
      cases hc : p c with
      | true => simp [hc, ih.1, ih.2]
      | false => simp [hc]

theorem readsBefore_digitRun (h : Ends rest) : ReadsBefore digitRun? rest := by
  have hdigit : ∀ c ∈ rest.head?, c.isDigit = false := by
    intro c hc
    rcases h c hc with rfl | rfl | rfl <;> rfl
  intro cs run left hread
  obtain ⟨htake, hdrop⟩ := takeWhile_append_of_head hdigit cs
  rw [digitRun?] at hread ⊢
  rw [htake, hdrop]
  split at hread
  · cases hread
  · rename_i hrun
    cases hread
    rfl

theorem readsBefore_wholePart (h : Ends rest) : ReadsBefore wholePart? rest := by
  intro cs run left hread
  rw [wholePart?] at hread ⊢
  cases hdigits : digitRun? cs with
  | none => rw [hdigits] at hread; cases hread
  | some p =>
      obtain ⟨digits, left'⟩ := p
      rw [readsBefore_digitRun h _ _ _ hdigits]
      rw [hdigits] at hread
      simp only [Option.bind_eq_bind, Option.bind_some] at hread ⊢
      split at hread
      · cases hread
      · cases hread
        rfl

theorem readsBefore_map {read : Reader} (h : ReadsBefore read rest) (f : List Char → List Char) :
    ReadsBefore (fun cs => (read cs).map fun p => (f p.1, p.2)) rest := by
  intro cs run left hread
  obtain ⟨p, hp, heq⟩ := Option.map_eq_some_iff.1 hread
  cases heq
  simp only [h _ _ _ hp, Option.map_some]

theorem readsBefore_bind {read : Reader} (next : List Char → Reader) (h : ReadsBefore read rest)
    (hnext : ∀ run, ReadsBefore (next run) rest) :
    ReadsBefore (fun cs => (read cs).bind fun p => next p.1 p.2) rest := by
  intro cs run left hread
  obtain ⟨p, hp, hread⟩ := Option.bind_eq_some_iff.1 hread
  simp only [h _ _ _ hp, Option.bind_some]
  exact hnext _ _ _ _ hread

theorem fractionPart?_of_ends (h : Ends rest) : fractionPart? rest = some ([], rest) := by
  cases rest with
  | nil => rfl
  | cons c rest => rcases h c rfl with rfl | rfl | rfl <;> rfl

theorem readsBefore_fractionPart (h : Ends rest) : ReadsBefore fractionPart? rest := by
  intro cs run left hread
  cases cs with
  | nil =>
      cases hread
      exact fractionPart?_of_ends h
  | cons c cs =>
      by_cases hc : c = '.'
      · subst hc
        exact readsBefore_map (readsBefore_digitRun h) ('.' :: ·) cs run left hread
      · rw [fractionPart?.eq_2 _ fun _ heq => hc (List.cons.inj heq).1] at hread
        cases hread
        exact fractionPart?.eq_2 _ fun _ heq => hc (List.cons.inj heq).1

theorem exponentPart?_of_ends (h : Ends rest) : exponentPart? rest = some ([], rest) := by
  cases rest with
  | nil => rfl
  | cons c rest => rcases h c rfl with rfl | rfl | rfl <;> rfl

theorem readsBefore_exponentPart (h : Ends rest) : ReadsBefore exponentPart? rest := by
  intro cs run left hread
  cases cs with
  | nil =>
      cases hread
      exact exponentPart?_of_ends h
  | cons e cs =>
      by_cases he : (e == 'e' || e == 'E') = true
      · cases cs with
        | nil =>
            rw [exponentPart?.eq_def] at hread
            simp only [he, if_true] at hread
            cases hread
        | cons s more =>
            rw [exponentPart?.eq_def] at hread ⊢
            simp only [List.cons_append, he, if_true] at hread ⊢
            by_cases hs : (s == '+' || s == '-') = true
            · rw [if_pos hs] at hread ⊢
              exact readsBefore_map (readsBefore_digitRun h) (e :: s :: ·) more run left hread
            · rw [if_neg hs] at hread ⊢
              exact readsBefore_map (readsBefore_digitRun h) (e :: ·) (s :: more) run left hread
      · rw [exponentPart?.eq_def] at hread ⊢
        simp only [List.cons_append, he] at hread ⊢
        cases hread
        rfl

/-- The parts of a number after its sign. -/
def parts? (start cs : List Char) : Option (List Char × List Char) :=
  (wholePart? cs).bind fun p => (fractionPart? p.2).bind fun q =>
    (exponentPart? q.2).bind fun r => some (start ++ p.1 ++ q.1 ++ r.1, r.2)

theorem number?_minus (cs : List Char) : number? ('-' :: cs) = parts? ['-'] cs := by
  rw [number?.eq_1]
  rfl

theorem number?_of_ne (hc : c ≠ '-') : number? (c :: cs) = parts? [] (c :: cs) := by
  rw [number?.eq_2 _ fun _ heq => hc (List.cons.inj heq).1]
  rfl

theorem readsBefore_parts (h : Ends rest) (start : List Char) :
    ReadsBefore (parts? start) rest := by
  refine readsBefore_bind (fun whole cs => (fractionPart? cs).bind fun q =>
    (exponentPart? q.2).bind fun r => some (start ++ whole ++ q.1 ++ r.1, r.2))
    (readsBefore_wholePart h) fun whole => ?_
  refine readsBefore_bind (fun fraction cs =>
    (exponentPart? cs).bind fun r => some (start ++ whole ++ fraction ++ r.1, r.2))
    (readsBefore_fractionPart h) fun fraction => ?_
  refine readsBefore_bind (fun exponent cs =>
    some (start ++ whole ++ fraction ++ exponent, cs))
    (readsBefore_exponentPart h) fun exponent => ?_
  rintro cs run left ⟨⟩
  rfl

/-- A number ends where an array or an object goes on or ends. -/
theorem readsBefore_number (h : Ends rest) : ReadsBefore number? rest := by
  intro cs run left hread
  cases cs with
  | nil => cases hread
  | cons c cs =>
      by_cases hc : c = '-'
      · subst hc
        rw [number?_minus] at hread
        rw [List.cons_append, number?_minus]
        exact readsBefore_parts h ['-'] cs run left hread
      · rw [number?_of_ne hc] at hread
        rw [List.cons_append, number?_of_ne hc]
        exact readsBefore_parts h [] (c :: cs) run left hread

theorem exists_head_of_digitRun {p : List Char × List Char} (h : digitRun? cs = some p) :
    ∃ c cs', cs = c :: cs' ∧ c.isDigit = true := by
  cases cs with
  | nil => cases h
  | cons c cs =>
      refine ⟨c, cs, rfl, ?_⟩
      by_contra hc
      rw [digitRun?, List.takeWhile_cons_of_neg hc] at h
      cases h

theorem exists_head_of_parts {start : List Char} {p : List Char × List Char}
    (h : parts? start cs = some p) : ∃ c cs', cs = c :: cs' ∧ c.isDigit = true := by
  obtain ⟨q, hwhole, -⟩ := Option.bind_eq_some_iff.1 h
  obtain ⟨r, hrun, -⟩ := Option.bind_eq_some_iff.1 hwhole
  exact exists_head_of_digitRun hrun

/-- A number begins with its sign or a digit. -/
theorem exists_head_of_number {p : List Char × List Char} (h : number? cs = some p) :
    ∃ c cs', cs = c :: cs' ∧ (c = '-' ∨ c.isDigit = true) := by
  cases cs with
  | nil => cases h
  | cons c cs =>
      refine ⟨c, cs, rfl, or_iff_not_imp_left.2 fun hc => ?_⟩
      rw [number?_of_ne hc] at h
      obtain ⟨c', cs', heq, hdigit⟩ := exists_head_of_parts h
      rwa [(List.cons.inj heq).1]

/-! ### Values -/

theorem skipBlank_cons (h : isBlank c = false) : skipBlank (c :: cs) = c :: cs :=
  List.dropWhile_cons_of_neg (by simp [h])

theorem isBlank_of_isDigit (h : c.isDigit = true) : isBlank c = false := by
  by_contra hblank
  simp only [isBlank, Bool.not_eq_false, Bool.or_eq_true, beq_iff_eq] at hblank
  rcases hblank with ((rfl | rfl) | rfl) | rfl <;> cases h

theorem value?_number {depth : Nat} (hc : c = '-' ∨ c.isDigit = true) :
    value? (depth + 1) (c :: cs) =
      (number? (c :: cs)).map fun p => (number (String.ofList p.1), p.2) := by
  have hblank : isBlank c = false := by
    rcases hc with rfl | hc
    · rfl
    · exact isBlank_of_isDigit hc
  rw [value?.eq_2, skipBlank_cons hblank]
  split
  case h_7 => rfl
  all_goals
    rename_i heq
    obtain ⟨rfl, -⟩ := List.cons.inj heq
    rcases hc with hc | hc <;> cases hc

theorem value?_array {depth : Nat} (hblank : isBlank c = false) (hne : c ≠ ']') :
    value? (depth + 1) ('[' :: c :: cs) =
      (items? depth (c :: cs)).map fun p => (array p.1, p.2) := by
  rw [value?.eq_2, skipBlank_cons rfl]
  simp only [skipBlank_cons hblank]
  split
  · rename_i heq
    exact absurd (List.cons.inj heq).1 hne
  · rfl

theorem value?_object {depth : Nat} (hblank : isBlank c = false) (hne : c ≠ '\x7d') :
    value? (depth + 1) ('\x7b' :: c :: cs) =
      (members? depth (c :: cs)).map fun p => (object p.1, p.2) := by
  rw [value?.eq_2, skipBlank_cons rfl]
  simp only [skipBlank_cons hblank]
  split
  · rename_i heq
    exact absurd (List.cons.inj heq).1 hne
  · rfl

/-- The text of the value is read back, whatever array or object it stands in. -/
def Reads (v : JsonValue) : Prop :=
  ∀ depth rest, 2 * v.renderChars.length ≤ depth → Ends rest →
    value? depth (v.renderChars ++ rest) = some (v, rest)

/-- A value begins neither with a blank nor with the end of an array. -/
theorem exists_head (h : v.WellFormed) :
    ∃ c cs, v.renderChars = c :: cs ∧ isBlank c = false ∧ c ≠ ']' := by
  cases h with
  | null => exact ⟨_, _, rfl, rfl, by decide⟩
  | bool b => cases b <;> exact ⟨_, _, rfl, rfl, by decide⟩
  | number h =>
      obtain ⟨c, cs, hcs, hc⟩ := exists_head_of_number h
      refine ⟨c, cs, hcs, ?_⟩
      rcases hc with rfl | hc
      · exact ⟨rfl, by decide⟩
      · refine ⟨isBlank_of_isDigit hc, ?_⟩
        rintro rfl
        cases hc
  | text s =>
      obtain ⟨body, hbody, -⟩ := exists_renderText s
      exact ⟨_, _, hbody, rfl, by decide⟩
  | @array items h => cases items <;> exact ⟨_, _, rfl, rfl, by decide⟩
  | @object members h => cases members <;> exact ⟨_, _, rfl, rfl, by decide⟩

theorem ends_renderItems (items : List JsonValue) (rest : List Char) :
    Ends (renderItems items ++ rest) := by
  cases items with
  | nil => exact ends_cons (.inr (.inl rfl))
  | cons item items => exact ends_cons (.inl rfl)

/-- The items of an array, from one of them on. -/
theorem items?_render {item : JsonValue} {items : List JsonValue} {depth : Nat}
    (hitem : item.Reads) (hitems : ∀ x ∈ items, x.Reads)
    (hdepth : 2 * (item.renderChars.length + (renderItems items).length) ≤ depth) :
    items? depth (item.renderChars ++ (renderItems items ++ rest)) =
      some (item :: items, rest) := by
  induction items generalizing item depth with
  | nil =>
      cases depth with
      | zero => simp [renderItems] at hdepth
      | succ depth =>
          have hread := hitem depth (renderItems [] ++ rest)
            (by simp only [renderItems, List.length_singleton] at hdepth; omega)
            (ends_renderItems [] rest)
          rw [items?, hread]
          rfl
  | cons next items ih =>
      obtain ⟨hnext, hitems⟩ := List.forall_mem_cons.1 hitems
      cases depth with
      | zero => simp [renderItems] at hdepth
      | succ depth =>
          simp only [renderItems, List.cons_append, List.length_cons, List.length_append] at hdepth
          have hread := hitem depth (renderItems (next :: items) ++ rest) (by omega)
            (ends_renderItems (next :: items) rest)
          have hrest : items? depth (next.renderChars ++ (renderItems items ++ rest)) =
              some (next :: items, rest) := ih hnext hitems (by omega)
          rw [items?, hread]
          simp only [renderItems, List.cons_append, List.append_assoc]
          rw [skipBlank_cons rfl]
          simp only [hrest, Option.map_some]

/-- One member is read, and then the others after a comma. -/
theorem members?_member {key : JsonText} {value : JsonValue} {depth : Nat} (hvalue : value.Reads)
    (hdepth : 2 * value.renderChars.length ≤ depth) (hc : c = ',' ∨ c = ']' ∨ c = '\x7d') :
    members? (depth + 1) (renderText key ++ ':' :: (value.renderChars ++ c :: rest)) =
      if c = ',' then (members? depth rest).map fun p => ((key, value) :: p.1, p.2)
      else if c = '\x7d' then some ([(key, value)], rest)
      else none := by
  have hkey : (key.map String.toList).map String.ofList = key := by cases key <;> simp
  obtain ⟨body, hbody, hread⟩ := exists_renderText key
  rw [members?, hbody, List.cons_append, skipBlank_cons rfl]
  simp only [hread, skipBlank_cons (rfl : isBlank ':' = false),
    hvalue depth (c :: rest) hdepth (ends_cons hc), hkey]
  rcases hc with rfl | rfl | rfl <;> rfl

/-- The members of an object, from one of them on. -/
theorem members?_render {key : JsonText} {value : JsonValue}
    {members : List (JsonText × JsonValue)} {depth : Nat} (hvalue : value.Reads)
    (hmembers : ∀ m ∈ members, m.2.Reads)
    (hdepth : 2 * ((renderText key).length + 1 + value.renderChars.length +
      (renderMembers members).length) ≤ depth) :
    members? depth
        (renderText key ++ ':' :: (value.renderChars ++ (renderMembers members ++ rest))) =
      some ((key, value) :: members, rest) := by
  induction members generalizing key value depth with
  | nil =>
      cases depth with
      | zero => simp at hdepth
      | succ depth =>
          rw [renderMembers, List.singleton_append,
            members?_member hvalue (by omega) (.inr (.inr rfl))]
          rfl
  | cons next members ih =>
      obtain ⟨key', value'⟩ := next
      obtain ⟨hnext, hothers⟩ := List.forall_mem_cons.1 hmembers
      cases depth with
      | zero => simp at hdepth
      | succ depth =>
          simp only [renderMembers, List.cons_append, List.length_cons,
            List.length_append] at hdepth
          have hrest : members? depth (renderText key' ++ ':' :: (value'.renderChars ++
              (renderMembers members ++ rest))) = some ((key', value') :: members, rest) :=
            ih hnext hothers (by omega)
          simp only [renderMembers, List.cons_append, List.append_assoc]
          rw [members?_member hvalue (by omega) (.inl rfl), if_pos rfl, hrest, Option.map_some]

theorem reads_array {items : List JsonValue} (hitems : ∀ item ∈ items, item.WellFormed)
    (h : ∀ item ∈ items, item.Reads) : (array items).Reads := by
  intro depth rest hdepth _
  cases depth with
  | zero => cases items <;> simp [renderChars] at hdepth
  | succ depth =>
      cases items with
      | nil => rfl
      | cons item items =>
          obtain ⟨hitem, hothers⟩ := List.forall_mem_cons.1 h
          obtain ⟨c, cs, hhead, hblank, hne⟩ := exists_head (hitems item List.mem_cons_self)
          simp only [renderChars, List.cons_append, List.length_cons, List.length_append] at hdepth
          have hread : items? depth (item.renderChars ++ (renderItems items ++ rest)) =
              some (item :: items, rest) := items?_render hitem hothers (by omega)
          simp only [renderChars, List.cons_append, List.append_assoc]
          rw [hhead, List.cons_append] at hread ⊢
          rw [value?_array hblank hne, hread, Option.map_some]

theorem reads_object {members : List (JsonText × JsonValue)} (h : ∀ m ∈ members, m.2.Reads) :
    (object members).Reads := by
  intro depth rest hdepth _
  cases depth with
  | zero => cases members <;> simp [renderChars] at hdepth
  | succ depth =>
      cases members with
      | nil => rfl
      | cons m members =>
          obtain ⟨key, value⟩ := m
          obtain ⟨hvalue, hothers⟩ := List.forall_mem_cons.1 h
          simp only [renderChars, List.cons_append, List.length_cons, List.length_append] at hdepth
          have hread : members? depth (renderText key ++ ':' :: (value.renderChars ++
              (renderMembers members ++ rest))) = some ((key, value) :: members, rest) :=
            members?_render hvalue hothers (by omega)
          obtain ⟨body, hbody, -⟩ := exists_renderText key
          simp only [renderChars, List.cons_append, List.append_assoc]
          rw [hbody, List.cons_append] at hread ⊢
          rw [value?_object rfl (by decide), hread, Option.map_some]

/-- A well-formed value is read back from its text, and what follows is left over. -/
theorem WellFormed.reads (h : v.WellFormed) : v.Reads := by
  induction h with
  | null =>
      intro depth rest hdepth _
      cases depth with
      | zero => simp [renderChars] at hdepth
      | succ depth => rfl
  | bool b =>
      intro depth rest hdepth _
      cases depth with
      | zero => cases b <;> simp [renderChars] at hdepth
      | succ depth => cases b <;> rfl
  | @number literal h =>
      intro depth rest hdepth hends
      obtain ⟨c, cs, hcs, hc⟩ := exists_head_of_number h
      have hread := readsBefore_number hends _ _ _ h
      simp only [renderChars] at hdepth ⊢
      cases depth with
      | zero => simp [hcs] at hdepth
      | succ depth =>
          rw [hcs, List.cons_append] at hread ⊢
          rw [value?_number hc, hread, ← hcs]
          simp
  | text s =>
      intro depth rest hdepth _
      have hs : (s.map String.toList).map String.ofList = s := by cases s <;> simp
      obtain ⟨body, hbody, hread⟩ := exists_renderText s
      simp only [renderChars] at hdepth ⊢
      cases depth with
      | zero => simp [hbody] at hdepth
      | succ depth =>
          rw [hbody, List.cons_append, value?.eq_2, skipBlank_cons rfl]
          simp only [hread, Option.map_some, hs]
  | array hitems ih => exact reads_array hitems ih
  | object _ ih => exact reads_object ih

/-- Reading the compact text of a value gives the value back. -/
theorem parse?_render (h : v.WellFormed) : parse? v.render = some v := by
  have hread := h.reads (2 * v.renderChars.length + 2) [] (by omega) ends_nil
  rw [List.append_nil] at hread
  rw [parse?, render, String.toList_ofList]
  simp only [hread]
  rfl

end ObjectGraph.JsonValue
