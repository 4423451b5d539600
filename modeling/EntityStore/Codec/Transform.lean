/-
  EntityStore/Codec/Transform.lean
  ================================
  **Payload transformers** — a stage on bytes between the codec and the ledger,
  for envelopes, compression or encryption.
-/
import EntityStore.Error
import EntityStore.Digest.Sha256

namespace EntityStore

/-- What is done to encoded payloads, and undone before they are decoded. -/
structure PayloadTransformer where
  encode : Bytes → Except StoreError Bytes
  decode : Bytes → Except StoreError Bytes

namespace PayloadTransformer

/-- Leaves payloads as they are. -/
def identity : PayloadTransformer := ⟨.ok, .ok⟩

/-- The length of a SHA-256 digest. -/
def digestLength : Nat := 32

/-- Removes a digest in front of a payload, if it is the payload's own. -/
def openEnvelope (envelope : Bytes) : Except StoreError Bytes :=
  if envelope.length < digestLength then
    .error (.decode s!"envelope too short: {envelope.length} bytes")
  else
    let payload := envelope.drop digestLength
    if Sha256.digest payload = envelope.take digestLength then .ok payload
    else .error (.decode "envelope digest mismatch")

/-- Puts the SHA-256 digest of each payload in front of it and checks it on
    reading. -/
def digestEnvelope : PayloadTransformer where
  encode payload := .ok (Sha256.digest payload ++ payload)
  decode := openEnvelope

end PayloadTransformer

end EntityStore
