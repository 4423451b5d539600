/-
  EntityStore/Store/Basic.lean
  ============================
  **The store** — typed access to one ledger: an accessor, the two transformers,
  and a configuration.

  Every key argument goes through the same three stages: its source is asked for
  the key, the key is transformed, and the transformed parts are encoded.
-/
import EntityStore.Codec.Transform
import EntityStore.Codec.Basic
import EntityStore.Config.Basic
import EntityStore.Key.Transform
import EntityStore.Store.Action

namespace EntityStore

/-- A store over a ledger with state `σ`. -/
structure Store (σ : Type) where
  ledger : Accessor σ
  keys : KeyTransformer := KeyTransformer.identity
  payloads : PayloadTransformer := PayloadTransformer.identity
  config : Config := {}

/-- A key as the caller gave it, as it is stored, and as the ledger knows it. -/
structure ResolvedKey where
  origin : Key
  parts : Key
  encoded : String
deriving DecidableEq

namespace Store

variable {σ α : Type} (S : Store σ)

/-! ### Keys -/

/-- The key that a source stands for, in all three forms. -/
def resolve (source : KeySource) : Except StoreError ResolvedKey := do
  let origin ← source.normalize
  let parts ← S.keys origin
  let encoded ← parts.encodeWith S.ledger.joinKey
  return ⟨origin, parts, encoded⟩

/-- The object type and attributes under which a listing looks.  Its parts are
    checked here, so that a malformed one never reaches the ledger. -/
def listingPrefix (source : KeySource) : Except StoreError (String × List String) := do
  let origin ← source.normalize
  match (← S.keys origin).parts with
  | [] => .error .emptyKey
  | objectType :: attributes =>
    match Composite.encode objectType attributes with
    | .error error => .error error.toStoreError
    | .ok _ => .ok (objectType, attributes)

/-- The namespace that holds the key references. -/
def keyRefNamespace : String := "_idx"

/-- Refuses keys whose caller named the namespace of the key references. -/
def guardNamespace (key : ResolvedKey) : Except StoreError Unit :=
  if key.origin.namespace? = some keyRefNamespace then
    .error (.reservedNamespace keyRefNamespace)
  else .ok ()

/-! ### Payloads -/

/-- A payload of this length is too long. -/
def oversized (length limit : Nat) : String := s!"payload size {length} exceeds limit {limit}"

/-- The payload of a value: encoded, transformed, and within the bound. -/
def encodeValue (codec : Codec α) (value : α) : Except StoreError Bytes := do
  let payload ← S.payloads.encode (← codec.encode value)
  if S.config.maxValueBytes < payload.length then
    .error (.encode (oversized payload.length S.config.maxValueBytes))
  else .ok payload

/-- The value of a stored payload, the bound checked first. -/
def decodeValue (codec : Codec α) (payload : Bytes) : Except StoreError α :=
  if S.config.maxValueBytes < payload.length then
    .error (.decode (oversized payload.length S.config.maxValueBytes))
  else do codec.decode (← S.payloads.decode payload)

/-- The value of a row; the row's key is told when it has none. -/
def decodeRow (codec : Codec α) (key : String) (payload : Bytes) : Except StoreError α :=
  (S.decodeValue codec payload).mapError fun error =>
    .unexpected ("row " ++ Text.quoted key ++ ": " ++ error.message)

end Store

end EntityStore
