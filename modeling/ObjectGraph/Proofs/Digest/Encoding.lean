import Mathlib.Tactic.NormNum
import ObjectGraph.Digest.Encoding

/-!
# Reading an encoding back

The bytes of an item tell the item, and tell where they end: whatever follows, the
same bytes do not start with another item. The case byte decides how many parts
there are, each part has a length of its own or carries it in front, and no part is
cut off as long as lengths fit their eight bytes, `Fits`. So a sequence of items can
be read back from its bytes, and domains keep feeds apart.
-/

namespace ObjectGraph

namespace Digest

/-- The length of the byte string fits the eight bytes in front of it, as that of any
byte string in memory does. -/
def Short (b : Bytes) : Prop :=
  b.length < 2 ^ 64

instance (b : Bytes) : Decidable (Short b) :=
  inferInstanceAs (Decidable (b.length < 2 ^ 64))

theorem littleEndian_inj {count m n : Nat} (hm : m < 256 ^ count) (hn : n < 256 ^ count)
    (h : littleEndian count m = littleEndian count n) : m = n := by
  induction count generalizing m n with
  | zero => omega
  | succ count ih =>
      rw [littleEndian, littleEndian, List.cons.injEq] at h
      have hlow : m % 256 = n % 256 := by
        have := congrArg UInt8.toNat h.1
        simpa using this
      have hhigh : m / 256 = n / 256 := by
        refine ih ?_ ?_ h.2
        · rw [pow_succ] at hm
          omega
        · rw [pow_succ] at hn
          omega
      omega

theorem littleEndian_append_inj {count m n : Nat} {u v : Bytes} (hm : m < 256 ^ count)
    (hn : n < 256 ^ count) (h : littleEndian count m ++ u = littleEndian count n ++ v) :
    m = n ∧ u = v := by
  obtain ⟨hnumber, hrest⟩ := List.append_inj h (by simp)
  exact ⟨littleEndian_inj hm hn hnumber, hrest⟩

/-- A block ends where its length says. -/
theorem block_append_inj {b c u v : Bytes} (hb : Short b) (hc : Short c)
    (h : block b ++ u = block c ++ v) : b = c ∧ u = v := by
  rw [block, block, List.append_assoc, List.append_assoc] at h
  obtain ⟨hlength, hrest⟩ := littleEndian_append_inj (by simpa [Short] using hb)
    (by simpa [Short] using hc) h
  exact List.append_inj hrest hlength

/-- A number in a block of its own. -/
theorem block_littleEndian_append_inj {count m n : Nat} {u v : Bytes} (hcount : count < 2 ^ 64)
    (hm : m < 256 ^ count) (hn : n < 256 ^ count)
    (h : block (littleEndian count m) ++ u = block (littleEndian count n) ++ v) :
    m = n ∧ u = v := by
  have hshort : ∀ k, Short (littleEndian count k) := fun k => by
    rwa [Short, length_littleEndian]
  obtain ⟨hnumber, hrest⟩ := block_append_inj (hshort m) (hshort n) h
  exact ⟨littleEndian_inj hm hn hnumber, hrest⟩

theorem utf8_inj {s t : String} : utf8 s = utf8 t ↔ s = t := by
  refine ⟨fun h => ?_, congrArg utf8⟩
  exact String.toByteArray_inj.1 (ByteArray.ext (Array.toList_inj.1 h))

end Digest

open Digest

namespace ObjectId

@[simp] theorem length_encode (id : ObjectId) : id.encode.length = 16 := by
  simp [encode]

theorem encode_inj {a b : ObjectId} : a.encode = b.encode ↔ a = b := by
  refine ⟨fun h => ?_, congrArg encode⟩
  obtain ⟨allocation, offset, tag⟩ := a
  obtain ⟨allocation', offset', tag'⟩ := b
  simp only [encode, List.append_assoc] at h
  obtain ⟨hallocation, h⟩ := littleEndian_append_inj allocation.toNat_lt allocation'.toNat_lt h
  obtain ⟨hoffset, h⟩ := littleEndian_append_inj offset.toNat_lt offset'.toNat_lt h
  have hflags := littleEndian_inj tag.flags.toNat_lt tag'.flags.toNat_lt h
  obtain rfl := UInt64.toNat_inj.1 hallocation
  obtain rfl := UInt32.toNat_inj.1 hoffset
  obtain rfl := Tag.flags_inj.1 (UInt32.toNat_inj.1 hflags)
  rfl

end ObjectId

namespace Item

/-- The byte strings of an item are short. -/
def Fits : Item → Prop
  | text s => Short (utf8 s)
  | bytes b => Short b
  | expr e => Short (utf8 e.source)
  | _ => True

/-- The bytes after the case byte. -/
def data (x : Item) : Bytes :=
  x.dataParts.flatMap Part.encode

theorem encode_eq (x : Item) : x.encode = x.caseByte :: x.data := by
  rw [encode, parts, List.flatMap_cons]
  rfl

/-- Items of one case are told apart by their data. -/
theorem data_append_inj {x y : Item} {u v : Bytes} (hx : x.Fits) (hy : y.Fits)
    (hcase : x.caseByte = y.caseByte) (h : x.data ++ u = y.data ++ v) : x = y ∧ u = v := by
  cases x <;> cases y <;> simp only [caseByte] at hcase <;> try contradiction
  all_goals
    simp only [data, dataParts, List.flatMap_cons, List.flatMap_nil, List.append_nil,
      Part.encode, List.nil_append, List.singleton_append, List.cons.injEq] at h
  case missing.missing => exact ⟨rfl, h⟩
  case bool.bool a b =>
      refine ⟨?_, h.2⟩
      cases a <;> cases b <;> simp at h ⊢
  case int32.int32 a b =>
      obtain ⟨hbits, hrest⟩ := block_littleEndian_append_inj (by decide) a.toUInt32.toNat_lt
        b.toUInt32.toNat_lt h
      exact ⟨congrArg (fun n => int32 ⟨n⟩) (UInt32.toNat_inj.1 hbits), hrest⟩
  case int64.int64 a b =>
      obtain ⟨hbits, hrest⟩ := block_littleEndian_append_inj (by decide) a.toUInt64.toNat_lt
        b.toUInt64.toNat_lt h
      exact ⟨congrArg (fun n => int64 ⟨n⟩) (UInt64.toNat_inj.1 hbits), hrest⟩
  case float32.float32 a b =>
      obtain ⟨hbits, hrest⟩ := block_littleEndian_append_inj (by decide) a.bits.isLt b.bits.isLt h
      exact ⟨congrArg (fun bits => float32 ⟨bits⟩) (BitVec.eq_of_toNat_eq hbits), hrest⟩
  case float64.float64 a b =>
      obtain ⟨hbits, hrest⟩ := block_littleEndian_append_inj (by decide) a.bits.isLt b.bits.isLt h
      exact ⟨congrArg (fun bits => float64 ⟨bits⟩) (BitVec.eq_of_toNat_eq hbits), hrest⟩
  case text.text a b =>
      obtain ⟨h, hrest⟩ := block_append_inj hx hy h
      exact ⟨congrArg text (utf8_inj.1 h), hrest⟩
  case bytes.bytes a b =>
      obtain ⟨rfl, hrest⟩ := block_append_inj hx hy h
      exact ⟨rfl, hrest⟩
  case objectId.objectId a b =>
      obtain ⟨h, hrest⟩ := block_append_inj (by simp [Short]) (by simp [Short]) h
      exact ⟨congrArg objectId (ObjectId.encode_inj.1 h), hrest⟩
  case dtype.dtype a b => exact ⟨congrArg dtype (DType.typeId_inj.1 h.1), h.2⟩
  case expr.expr a b =>
      obtain ⟨h, hrest⟩ := block_append_inj hx hy h
      exact ⟨congrArg (fun source => expr ⟨source⟩) (utf8_inj.1 h), hrest⟩

/-- No item's bytes run on into what follows them. -/
theorem encode_append_inj {x y : Item} {u v : Bytes} (hx : x.Fits) (hy : y.Fits)
    (h : x.encode ++ u = y.encode ++ v) : x = y ∧ u = v := by
  rw [encode_eq, encode_eq, List.cons_append, List.cons_append, List.cons.injEq] at h
  exact data_append_inj hx hy h.1 h.2

theorem encode_inj {x y : Item} (hx : x.Fits) (hy : y.Fits) (h : x.encode = y.encode) : x = y :=
  (encode_append_inj hx hy (congrArg (· ++ []) h)).1

/-- A sequence of items is told by its bytes. -/
theorem flatMap_encode_inj {xs ys : List Item} (hxs : ∀ x ∈ xs, x.Fits) (hys : ∀ y ∈ ys, y.Fits)
    (h : xs.flatMap encode = ys.flatMap encode) : xs = ys := by
  induction xs generalizing ys with
  | nil =>
      cases ys with
      | nil => rfl
      | cons y ys => simp [encode_eq] at h
  | cons x xs ih =>
      cases ys with
      | nil => simp [encode_eq] at h
      | cons y ys =>
          rw [List.flatMap_cons, List.flatMap_cons] at h
          obtain ⟨rfl, hrest⟩ := encode_append_inj (hxs x List.mem_cons_self)
            (hys y List.mem_cons_self) h
          rw [ih (fun z hz => hxs z (List.mem_cons_of_mem x hz))
            (fun z hz => hys z (List.mem_cons_of_mem x hz)) hrest]

end Item

namespace Digest.Feed

/-- Feeds with equal bytes have one domain, and equal bytes after it. -/
theorem encode_inj {f g : Feed} (hf : Short (utf8 f.domain)) (hg : Short (utf8 g.domain))
    (h : f.encode = g.encode) :
    f.domain = g.domain ∧ f.parts.flatMap Part.encode = g.parts.flatMap Part.encode := by
  obtain ⟨hdomain, hparts⟩ := block_append_inj hf hg h
  exact ⟨utf8_inj.1 hdomain, hparts⟩

/-- In one domain, a sequence of items is told by its feed. -/
theorem items_inj {domain : String} {xs ys : List Item} (hxs : ∀ x ∈ xs, x.Fits)
    (hys : ∀ y ∈ ys, y.Fits)
    (h : encode ⟨domain, xs.flatMap Item.parts⟩ = encode ⟨domain, ys.flatMap Item.parts⟩) :
    xs = ys := by
  have hparts := List.append_cancel_left h
  rw [List.flatMap_assoc, List.flatMap_assoc] at hparts
  exact Item.flatMap_encode_inj hxs hys hparts

/-- Items are read back from their bytes before any rest. So different items, different
sequences of items and different domains have different feeds. -/
theorem uniquely_decodable :
    (∀ (x y : Item) (u v : Bytes), x.Fits → y.Fits → x.encode ++ u = y.encode ++ v →
      x = y ∧ u = v) ∧
    (∀ (domain : String) (x y : Item), x.Fits → y.Fits → x ≠ y →
      encode ⟨domain, x.parts⟩ ≠ encode ⟨domain, y.parts⟩) ∧
    (∀ (domain : String) (xs ys : List Item), (∀ x ∈ xs, x.Fits) → (∀ y ∈ ys, y.Fits) →
      xs ≠ ys → encode ⟨domain, xs.flatMap Item.parts⟩ ≠ encode ⟨domain, ys.flatMap Item.parts⟩) ∧
    ∀ f g : Feed, Short (utf8 f.domain) → Short (utf8 g.domain) → f.domain ≠ g.domain →
      f.encode ≠ g.encode := by
  refine ⟨fun x y u v hx hy => Item.encode_append_inj hx hy, fun domain x y hx hy hne h => ?_,
    fun domain xs ys hxs hys hne h => hne (items_inj hxs hys h),
    fun f g hf hg hne h => hne (encode_inj hf hg h).1⟩
  exact hne (Item.encode_inj hx hy (List.append_cancel_left h))

/-- A text and an expression of the same characters, two ways to write three letters in two
texts, and two domains of which one begins like the other. -/
theorem uniquely_decodable_letters :
    (∀ u v, (Item.text "ab").encode ++ u ≠ (Item.expr ⟨"ab"⟩).encode ++ v) ∧
      encode ⟨"list", [Item.text "a", .text "bc"].flatMap Item.parts⟩ ≠
        encode ⟨"list", [Item.text "ab", .text "c"].flatMap Item.parts⟩ ∧
      ∀ parts others, encode ⟨"attr", parts⟩ ≠ encode ⟨"attrs", others⟩ := by
  have ha : Short (utf8 "a") := by decide
  have hab : Short (utf8 "ab") := by decide
  have hbc : Short (utf8 "bc") := by decide
  have hc : Short (utf8 "c") := by decide
  refine ⟨fun u v h => ?_, ?_, fun parts others => ?_⟩
  · cases (uniquely_decodable.1 (.text "ab") (.expr ⟨"ab"⟩) u v hab hab h).1
  · exact uniquely_decodable.2.2.1 "list" _ _
      (List.forall_mem_cons.2 ⟨ha, List.forall_mem_singleton.2 hbc⟩)
      (List.forall_mem_cons.2 ⟨hab, List.forall_mem_singleton.2 hc⟩) (by decide)
  · exact uniquely_decodable.2.2.2 ⟨"attr", parts⟩ ⟨"attrs", others⟩
      (by decide : Short (utf8 "attr")) (by decide : Short (utf8 "attrs"))
      (by decide : "attr" ≠ "attrs")

end Digest.Feed

end ObjectGraph
