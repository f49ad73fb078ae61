import ObjectGraph.Digest.Fingerprint

/-!
# The canonical encoding of items

An item is encoded as a byte for its case followed by its data. Numbers and ids
are fed as byte strings of their little-endian form, floating-point values by
their bit patterns.
-/

namespace ObjectGraph

open Digest

namespace ObjectId

/-- Allocation, offset and flag word, each with its least significant byte
first. -/
def encode (id : ObjectId) : Bytes :=
  littleEndian 8 id.allocation.toNat ++ littleEndian 4 id.offset.toNat ++
    littleEndian 4 id.tag.flags.toNat

end ObjectId

namespace Item

/-- The byte that tells the cases of an item apart. -/
def caseByte : Item → UInt8
  | missing => 0
  | bool _ => 1
  | int32 _ => 2
  | int64 _ => 3
  | float32 _ => 4
  | float64 _ => 5
  | text _ => 6
  | bytes _ => 7
  | objectId _ => 8
  | dtype _ => 9
  | expr _ => 10

/-- What follows the case byte. -/
def dataParts : Item → List Part
  | missing => []
  | bool b => [.byte b.toNat.toUInt8]
  | int32 v => [.bytes (littleEndian 4 v.toUInt32.toNat)]
  | int64 v => [.bytes (littleEndian 8 v.toUInt64.toNat)]
  | float32 v => [.bytes (littleEndian 4 v.bits.toNat)]
  | float64 v => [.bytes (littleEndian 8 v.bits.toNat)]
  | text s => [.text s]
  | bytes b => [.bytes b]
  | objectId id => [.bytes id.encode]
  | dtype d => [.byte d.typeId]
  | expr e => [.text e.source]

/-- The parts of an item in a feed. -/
def parts (i : Item) : List Part :=
  .byte i.caseByte :: i.dataParts

/-- The bytes of an item in a feed. -/
def encode (i : Item) : Bytes :=
  i.parts.flatMap Part.encode

/-- The fingerprint of a single item. -/
def fingerprint (i : Item) : Fingerprint :=
  Feed.fingerprint ⟨"data_item", i.parts⟩

end Item

end ObjectGraph
