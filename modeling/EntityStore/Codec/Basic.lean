/-
  EntityStore/Codec/Basic.lean
  ============================
  **Codecs** — how the values of a type become payloads and are read back.  A
  codec is chosen for each call, so one stored payload can be read at several
  types.
-/
import EntityStore.Error
import EntityStore.Text.Utf8

namespace EntityStore

/-- The two directions between the values of a type and payloads. -/
structure Codec (α : Type) where
  encode : α → Except StoreError Bytes
  decode : Bytes → Except StoreError α

namespace Codec

/-- Payloads as they are. -/
def bytes : Codec Bytes where
  encode := .ok
  decode := .ok

/-- The text that a payload holds. -/
def decodeText (payload : Bytes) : Except StoreError String :=
  (Utf8.decode payload).mapError fun fault => .decode fault.message

/-- Text as its UTF-8 bytes. -/
def text : Codec String where
  encode s := .ok (Utf8.encode s)
  decode := decodeText

end Codec

end EntityStore
