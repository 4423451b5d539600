/-
  EntityStore/KeyRef.lean
  =======================
  **Key references** — entries that lead from an attribute of an entity to the
  entity's primary key.

  A reference is identified by the entity's schema, the name of the index, and
  the attribute's value as a key; its payload is the primary key.  All references
  live in one namespace, which only they may write.
-/
import EntityStore.Codec.Document
import EntityStore.Store.Entry
import EntityStore.Store.Listing

namespace EntityStore

/-- What identifies a key reference. -/
structure KeyRefId where
  schema : String
  index : String
  refKey : Key
deriving DecidableEq

/-- A key reference and the primary key it leads to. -/
structure KeyRef where
  schema : String
  index : String
  refKey : Key
  primaryKey : Key
deriving DecidableEq

namespace KeyRefId

/-- A reference of an entity type. -/
def forEntity {ε : Type} (T : EntityType ε) (index : String) (refKey : Key) : KeyRefId :=
  ⟨T.schemaTag, index, refKey⟩

/-- The key under which the reference is stored. -/
def key (id : KeyRefId) : Except StoreError Key :=
  match id.refKey.parts with
  | [] => .error .emptyKey
  | _ => .ok (⟨[Store.keyRefNamespace, id.schema, id.index]⟩ ++ id.refKey)

/-- The identity as the source of its key. -/
def source (id : KeyRefId) : KeySource := .derived id.key

end KeyRefId

namespace KeyRef

def id (ref : KeyRef) : KeyRefId := ⟨ref.schema, ref.index, ref.refKey⟩

/-- The reference as a record. -/
def shape : RecordShape KeyRef where
  fields := [⟨"schema", .text⟩, ⟨"idx", .text⟩, ⟨"ref_key", .texts⟩, ⟨"pkey", .texts⟩]
  toValues ref :=
    [.text ref.schema, .text ref.index, .texts ref.refKey.parts, .texts ref.primaryKey.parts]
  ofValues?
    | [.text schema, .text index, .texts refKey, .texts primaryKey] =>
      some ⟨schema, index, ⟨refKey⟩, ⟨primaryKey⟩⟩
    | _ => none

end KeyRef

namespace Store

open EntityStore.Action

variable {σ α : Type} (S : Store σ)

/-- Stores a reference that nothing else claims. -/
def insertKeyRef (ref : KeyRef) : Action σ Unit :=
  observe .keyRef do
    let key ← ofExcept (S.resolve ref.id.source)
    S.insertAt .world key Codec.key ref.primaryKey

/-- Stores a reference, whatever it led to before. -/
def putKeyRef (ref : KeyRef) : Action σ Unit :=
  observe .keyRef do
    let key ← ofExcept (S.resolve ref.id.source)
    S.putAt .world key Codec.key ref.primaryKey

/-- Stores a reference that nothing else claims, and returns it. -/
def buildKeyRef (ref : KeyRef) : Action σ KeyRef := do
  S.insertKeyRef ref
  return ref

/-- The primary key that a reference leads to, if there is one. -/
def lookupKeyRef (id : KeyRefId) : Action σ (Option Key) :=
  observe .keyRef do return (← S.fetch .world id.source Codec.key).2

/-- The entity that a reference leads to. -/
def getByKeyRef (id : KeyRefId) (codec : Codec α) : Action σ α := do
  match ← S.lookupKeyRef id with
  | some primaryKey => S.get .world (.given primaryKey) codec
  | none =>
    let key ← ofExcept id.key
    observe .keyRef (fail (.notFound key.display))

/-- Removes a reference; succeeds whether or not it was there. -/
def deleteKeyRef (id : KeyRefId) : Action σ Unit :=
  observe .keyRef do
    let key ← ofExcept (S.resolve id.source)
    S.deleteAt .world key

/-- A reference from the ledger key of its row. -/
def keyRefOfRow (schema index : String) (row : String × Key) : Except StoreError KeyRef :=
  match S.ledger.splitKey row.1 with
  | .error error => .error error.toStoreError
  | .ok (_, _ :: _ :: part :: parts) => .ok ⟨schema, index, ⟨part :: parts⟩, row.2⟩
  | .ok _ => .error (.unexpected ("malformed key reference " ++ Text.quoted row.1))

/-- Every reference of an index, in the order of the encoded reference keys.  The
    keys are those of the ledger: transformed ones come back as they are stored. -/
def listKeyRefs (schema index : String) : Action σ (List KeyRef) :=
  observe .keyRef do
    let (objectType, attributes) ←
      ofExcept (S.listingPrefix (.given ⟨[keyRefNamespace, schema, index]⟩))
    let cursor ← call (S.ledger.scan .world objectType attributes)
    let rows ← drain S.ledger cursor none fun row =>
      ofExcept ((S.decodeRow Codec.key row.key row.payload).map fun key => (row.key, key))
    emit (.scan .keyRef objectType none rows.length)
    ofExcept (rows.mapM (S.keyRefOfRow schema index))

end Store

end EntityStore
