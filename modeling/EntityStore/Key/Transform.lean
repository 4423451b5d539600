/-
  EntityStore/Key/Transform.lean
  ==============================
  **Key transformers** — what a store does to the parts of a key before it
  encodes them.  Listing prefixes go through the same transformer as point keys.
-/
import EntityStore.Key.Basic
import EntityStore.Digest.Sha256
import EntityStore.Text.Utf8

namespace EntityStore

/-- A function from the caller's key to the stored one, which may refuse. -/
abbrev KeyTransformer := Key → Except StoreError Key

namespace KeyTransformer

/-- Leaves every part as it is. -/
def identity : KeyTransformer := .ok

/-- The lowercase hexadecimal SHA-256 digest of a part. -/
def digestPart (part : String) : String := (Sha256.digest (Utf8.encode part)).toHex

/-- Hides every part behind the namespace by its digest.  The namespace stays
    readable, so listings by namespace still work. -/
def hashed : KeyTransformer
  | ⟨[]⟩ => .error .emptyKey
  | ⟨name :: rest⟩ => .ok ⟨name :: rest.map digestPart⟩

end KeyTransformer

end EntityStore
