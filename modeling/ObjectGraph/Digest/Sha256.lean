import ObjectGraph.Digest.ByteOrder

/-!
# SHA-256

The digest of a list of bytes, stated over lists: the padded message is read as
big-endian words, taken in blocks of sixteen, and each block is mixed into eight
chaining words. The message schedule is carried newest word first, so that every
new word is made from entries at fixed places.
-/

namespace ObjectGraph.Digest.Sha256

/-- The eight chaining words. -/
structure Chain where
  a : UInt32
  b : UInt32
  c : UInt32
  d : UInt32
  e : UInt32
  f : UInt32
  g : UInt32
  h : UInt32
deriving DecidableEq

/-- The chaining words before the first block. -/
def initial : Chain :=
  ⟨0x6a09e667, 0xbb67ae85, 0x3c6ef372, 0xa54ff53a, 0x510e527f, 0x9b05688c, 0x1f83d9ab,
    0x5be0cd19⟩

/-- One constant for each of the 64 rounds. -/
def roundConstants : List UInt32 :=
  [0x428a2f98, 0x71374491, 0xb5c0fbcf, 0xe9b5dba5, 0x3956c25b, 0x59f111f1, 0x923f82a4,
    0xab1c5ed5, 0xd807aa98, 0x12835b01, 0x243185be, 0x550c7dc3, 0x72be5d74, 0x80deb1fe,
    0x9bdc06a7, 0xc19bf174, 0xe49b69c1, 0xefbe4786, 0x0fc19dc6, 0x240ca1cc, 0x2de92c6f,
    0x4a7484aa, 0x5cb0a9dc, 0x76f988da, 0x983e5152, 0xa831c66d, 0xb00327c8, 0xbf597fc7,
    0xc6e00bf3, 0xd5a79147, 0x06ca6351, 0x14292967, 0x27b70a85, 0x2e1b2138, 0x4d2c6dfc,
    0x53380d13, 0x650a7354, 0x766a0abb, 0x81c2c92e, 0x92722c85, 0xa2bfe8a1, 0xa81a664b,
    0xc24b8b70, 0xc76c51a3, 0xd192e819, 0xd6990624, 0xf40e3585, 0x106aa070, 0x19a4c116,
    0x1e376c08, 0x2748774c, 0x34b0bcb5, 0x391c0cb3, 0x4ed8aa4a, 0x5b9cca4f, 0x682e6ff3,
    0x748f82ee, 0x78a5636f, 0x84c87814, 0x8cc70208, 0x90befffa, 0xa4506ceb, 0xbef9a3f7,
    0xc67178f2]

/-- The word turned right by `n` places, for `0 < n < 32`. -/
def turn (x n : UInt32) : UInt32 :=
  (x >>> n) ||| (x <<< (32 - n))

/-- The message, a set bit, zeros up to eight bytes before the end of a block,
and the length of the message in bits. -/
def pad (message : List UInt8) : List UInt8 :=
  message ++ 0x80 :: List.replicate ((119 - message.length % 64) % 64) 0 ++
    bigEndian 8 (8 * message.length)

/-- The bytes by fours as big-endian words. -/
def words : List UInt8 → List UInt32
  | a :: b :: c :: d :: rest =>
    ((a.toUInt32 <<< 24) ||| (b.toUInt32 <<< 16) ||| (c.toUInt32 <<< 8) ||| d.toUInt32) ::
      words rest
  | _ => []

/-- The words by sixteens. -/
def blocks (ws : List UInt32) : List (List UInt32) :=
  (List.range (ws.length / 16)).map fun i => (ws.drop (16 * i)).take 16

/-- Adds `n` words to a schedule that is carried newest word first. -/
def extendSchedule : Nat → List UInt32 → List UInt32
  | 0, newest => newest
  | n + 1, newest =>
    let x := newest.getD 1 0
    let y := newest.getD 14 0
    let low := turn y 7 ^^^ turn y 18 ^^^ (y >>> 3)
    let high := turn x 17 ^^^ turn x 19 ^^^ (x >>> 10)
    extendSchedule n ((high + newest.getD 6 0 + low + newest.getD 15 0) :: newest)

/-- The 64 words of a block's schedule, oldest first. -/
def schedule (block : List UInt32) : List UInt32 :=
  (extendSchedule 48 block.reverse).reverse

/-- One round, for the round's constant and its word of the schedule. -/
def round (s : Chain) (k w : UInt32) : Chain :=
  let choice := (s.e &&& s.f) ^^^ (~~~s.e &&& s.g)
  let majority := (s.a &&& s.b) ^^^ (s.a &&& s.c) ^^^ (s.b &&& s.c)
  let first := s.h + (turn s.e 6 ^^^ turn s.e 11 ^^^ turn s.e 25) + choice + k + w
  let second := (turn s.a 2 ^^^ turn s.a 13 ^^^ turn s.a 22) + majority
  ⟨first + second, s.a, s.b, s.c, s.d + first, s.e, s.f, s.g⟩

/-- Mixes one block into the chaining words. -/
def mix (s : Chain) (block : List UInt32) : Chain :=
  let t := (roundConstants.zip (schedule block)).foldl (fun t kw => round t kw.1 kw.2) s
  ⟨s.a + t.a, s.b + t.b, s.c + t.c, s.d + t.d, s.e + t.e, s.f + t.f, s.g + t.g, s.h + t.h⟩

/-- The chaining words as bytes. -/
def Chain.bytes (s : Chain) : List UInt8 :=
  [s.a, s.b, s.c, s.d, s.e, s.f, s.g, s.h].flatMap fun w => bigEndian 4 w.toNat

/-- The digest of a message. -/
def digest (message : List UInt8) : List UInt8 :=
  ((blocks (words (pad message))).foldl mix initial).bytes

theorem length_digest (message : List UInt8) : (digest message).length = 32 := by
  simp [digest, Chain.bytes]

end ObjectGraph.Digest.Sha256
