import ObjectGraph.Digest.Encoding
import ObjectGraph.Store.Basic

/-!
# The fingerprint of a store

Every attribute, every list and every entry of a dict is fed to the digest on its
own. The fingerprints of these entries are sorted, so the order of writes does
not matter, and fed to the digest once more. The digest is a parameter of
`fingerprintWith`; `fingerprint` takes SHA-256.
-/

namespace ObjectGraph.Store

open Digest

/-- The feed of an attribute. -/
def attrFeed (id : ObjectId) (name : String) (value : Item) : Feed :=
  ⟨"attr", (Item.objectId id).parts ++ .text name :: value.parts⟩

/-- The feed of a list. -/
def listFeed (id : ObjectId) (items : List Item) : Feed :=
  ⟨"list", (Item.objectId id).parts ++ .word (.ofNat items.length) :: items.flatMap Item.parts⟩

/-- The feed of one key of a dict, a tombstone being fed as a missing value. -/
def dictFeed (id : ObjectId) (key value : Item) : Feed :=
  ⟨"dict", (Item.objectId id).parts ++ key.parts ++ value.parts⟩

/-- The feeds of all entries of a store. -/
def entryFeeds (s : Store) : List Feed :=
  (s.attrs.toList.flatMap fun o => o.2.toList.map fun a => attrFeed o.1 a.1 a.2) ++
    (s.lists.toList.map fun l => listFeed l.1 l.2) ++
    (s.dicts.toList.flatMap fun d => d.2.entries.map fun e => dictFeed d.1 e.1 e.2)

/-- The feed of a store, from the fingerprints of its entries in any order. -/
def storeFeed (entries : List Fingerprint) : Feed :=
  ⟨"data_bag", .word (.ofNat entries.length) ::
    (entries.mergeSort Fingerprint.le).map .fingerprint⟩

/-- The fingerprint of a store under a digest. -/
def fingerprintWith (digest : Bytes → Fingerprint) (s : Store) : Fingerprint :=
  digest (storeFeed (s.entryFeeds.map fun feed => digest feed.encode)).encode

/-- The fingerprint of a store. -/
def fingerprint (s : Store) : Fingerprint :=
  s.fingerprintWith Digest.hash

end ObjectGraph.Store
