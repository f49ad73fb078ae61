import ObjectGraph.Digest.Sha256
import ObjectGraph.Value.Text

/-!
# Fingerprints

A fingerprint is the digest of a canonical encoding, so it is the same for the
same value everywhere. What is fed to the digest is a `Feed`: the name of a
domain and a list of parts. Byte strings and texts carry their length in front,
so no two lists of such parts run together; single bytes, numbers and
fingerprints have a fixed length of their own.
-/

namespace ObjectGraph

/-- A digest of 32 bytes. -/
structure Fingerprint where
  bytes : List UInt8
  length_eq : bytes.length = 32
deriving DecidableEq

namespace Fingerprint

/-- Fingerprints are ordered as strings of bytes. -/
def le (a b : Fingerprint) : Bool :=
  (compare a.bytes b.bytes).isLE

/-- The bytes in hexadecimal. -/
def hex (fp : Fingerprint) : String :=
  String.ofList (fp.bytes.flatMap hexByte)

/-- The form that names the type. -/
def debugText (fp : Fingerprint) : String :=
  "Fingerprint(" ++ fp.hex ++ ")"

def firstByte (fp : Fingerprint) : UInt8 :=
  fp.bytes.headD 0

end Fingerprint

namespace Digest

/-- The fingerprint of a byte string. -/
def hash (b : Bytes) : Fingerprint :=
  ⟨Sha256.digest b, Sha256.length_digest b⟩

/-- The UTF-8 form of a text. -/
def utf8 (s : String) : Bytes :=
  s.toUTF8.data.toList

/-- One step of a feed. -/
inductive Part where
  | text (s : String)
  | bytes (b : Bytes)
  | byte (n : UInt8)
  | word (n : UInt64)
  | fingerprint (fp : Fingerprint)
deriving DecidableEq

/-- A byte string after its length. -/
def block (b : Bytes) : Bytes :=
  littleEndian 8 b.length ++ b

/-- The bytes a part adds to a feed. -/
def Part.encode : Part → Bytes
  | text s => block (utf8 s)
  | bytes b => block b
  | byte n => [n]
  | word n => littleEndian 8 n.toNat
  | fingerprint fp => fp.bytes

/-- A domain name and the parts that follow it. -/
structure Feed where
  domain : String
  parts : List Part
deriving DecidableEq

namespace Feed

/-- The bytes of a feed: the domain is fed like a text. -/
def encode (feed : Feed) : Bytes :=
  Part.encode (.text feed.domain) ++ feed.parts.flatMap Part.encode

/-- The fingerprint of a feed. -/
def fingerprint (feed : Feed) : Fingerprint :=
  hash feed.encode

end Feed

end Digest

end ObjectGraph
