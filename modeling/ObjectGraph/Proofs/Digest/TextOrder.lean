import Mathlib.Data.List.Lex
import Mathlib.Tactic.SplitIfs
import ObjectGraph.Digest.Fingerprint

/-!
# Texts in the order of their bytes

Texts are compared character by character, and their UTF-8 forms byte by byte. The two
orders agree: the forms of two characters differ before one of them ends, and at the
first difference the smaller character has the smaller byte.
-/

namespace ObjectGraph.Digest

theorem utf8_eq_flatMap (s : String) : utf8 s = s.toList.flatMap String.utf8EncodeChar := by
  have hbytes := String.toByteArray_ofList (l := s.toList)
  rw [String.ofList_toList] at hbytes
  rw [utf8, String.toUTF8_eq_toByteArray, hbytes, List.utf8Encode]
  simp

theorem ofNat_cons_lt_iff {m n : Nat} {u v : Bytes} (hm : m < 256) (hn : n < 256) :
    UInt8.ofNat m :: u < UInt8.ofNat n :: v ↔ m < n ∨ m = n ∧ u < v := by
  rw [List.cons_lt_cons_iff, UInt8.lt_iff_toNat_lt, ← UInt8.toNat_inj, UInt8.toNat_ofNat',
    UInt8.toNat_ofNat', Nat.mod_eq_of_lt hm, Nat.mod_eq_of_lt hn]

/-- The smaller of two characters has the smaller form, whatever follows. -/
theorem utf8EncodeChar_append_lt {c d : Char} (h : c < d) (u v : Bytes) :
    String.utf8EncodeChar c ++ u < String.utf8EncodeChar d ++ v := by
  have hlt : c.val.toNat < d.val.toNat := h
  have hd : d.val.toNat < 1114112 := by
    rcases d.valid with hd | hd
    · exact Nat.lt_trans hd (by decide)
    · exact hd.2
  -- `omega` follows the digits of a form if they are split off one after another
  have hthird : ∀ k, k / 4096 = k / 64 / 64 := by omega
  have hfourth : ∀ k, k / 262144 = k / 64 / 64 / 64 := by omega
  simp only [String.utf8EncodeChar, hthird, hfourth]
  generalize c.val.toNat = m at *
  generalize d.val.toNat = n at *
  split_ifs <;>
    simp (disch := omega) only [List.cons_append, List.nil_append, ofNat_cons_lt_iff] <;> omega

theorem flatMap_utf8EncodeChar_lt {cs ds : List Char} (h : cs < ds) :
    cs.flatMap String.utf8EncodeChar < ds.flatMap String.utf8EncodeChar := by
  induction cs generalizing ds with
  | nil =>
      cases ds with
      | nil => simp at h
      | cons d ds =>
          obtain ⟨byte, bytes, hform⟩ :=
            List.exists_cons_of_ne_nil (String.utf8EncodeChar_ne_nil (c := d))
          rw [List.flatMap_nil, List.flatMap_cons, hform, List.cons_append]
          exact List.nil_lt_cons _ _
  | cons c cs ih =>
      cases ds with
      | nil => simp at h
      | cons d ds =>
          rw [List.flatMap_cons, List.flatMap_cons]
          rcases List.cons_lt_cons_iff.1 h with hlt | ⟨rfl, hlt⟩
          · exact utf8EncodeChar_append_lt hlt _ _
          · exact List.append_left_lt (ih hlt)

/-- A smaller text has the smaller bytes. -/
theorem utf8_lt_of_compare {s t : String} (h : compare s t = .lt) : utf8 s < utf8 t := by
  have hlt : s < t := compareOfLessAndEq_eq_lt.1 h
  rw [utf8_eq_flatMap, utf8_eq_flatMap]
  exact flatMap_utf8EncodeChar_lt hlt

end ObjectGraph.Digest
