/-
  EntityStore/Store/Entry.lean
  ============================
  **Single entries** — reading, writing and removing the payload under one key, in
  the public state or in a private collection.

  An empty payload counts as no entry.  Writes under the namespace of the key
  references are refused.
-/
import EntityStore.Codec.Scalar
import EntityStore.Store.Basic

namespace EntityStore

/-- The values of a type that carry their own key. -/
structure EntityType (ε : Type) where
  /-- The parts that every key of the type begins with. -/
  namespaceParts : List String
  key : ε → Except StoreError Key
  codec : Codec ε

namespace EntityType

variable {ε : Type} (T : EntityType ε)

/-- The namespace as a key, for listings. -/
def namespaceKey : Key := ⟨T.namespaceParts⟩

/-- The tag under which key references to the type are kept. -/
def schemaTag : String := "-".intercalate T.namespaceParts

/-- An entity as the source of its key. -/
def source (entity : ε) : KeySource := .derived (T.key entity)

end EntityType

namespace Store

open EntityStore.Action

variable {σ α ε : Type} (S : Store σ)

/-! ### Reading -/

/-- The key of a source and the value under it, if there is one. -/
def fetch (p : Partition) (source : KeySource) (codec : Codec α) :
    Action σ (ResolvedKey × Option α) := do
  let key ← ofExcept (S.resolve source)
  let payload ← call (S.ledger.read p key.encoded)
  emit (.read .get key.encoded p.collection? !payload.isEmpty)
  if payload.isEmpty then return (key, none)
  else return (key, some (← ofExcept (S.decodeValue codec payload)))

/-- The value under a key, which must be there. -/
def get (p : Partition) (source : KeySource) (codec : Codec α) : Action σ α :=
  observe .get do
    match ← S.fetch p source codec with
    | (_, some value) => return value
    | (key, none) => fail (.notFound key.origin.display)

/-- The value under a key, if there is one. -/
def get? (p : Partition) (source : KeySource) (codec : Codec α) : Action σ (Option α) :=
  observe .get do return (← S.fetch p source codec).2

/-- The value under a key, or a default. -/
def getD (p : Partition) (source : KeySource) (codec : Codec α) (default : α) : Action σ α :=
  observe .get do return (← S.fetch p source codec).2.getD default

/-- The public integer under a key, or a default. -/
def getInt (source : KeySource) (default : Int64) : Action σ Int64 :=
  S.getD .world source Codec.int64 default

/-- The payload under a key is not empty. -/
def contains (p : Partition) (source : KeySource) : Action σ Bool :=
  observe .contains do
    let key ← ofExcept (S.resolve source)
    let payload ← call (S.ledger.read p key.encoded)
    emit (.read .contains key.encoded p.collection? !payload.isEmpty)
    return !payload.isEmpty

/-! ### Writing -/

/-- Fails if an insertion finds a payload under its key. -/
def checkVacant (p : Partition) (key : ResolvedKey) : Action σ Unit := do
  let payload ← call (S.ledger.read p key.encoded)
  if payload.isEmpty then return ()
  else do
    emit (.conflict .insert key.encoded)
    fail (.alreadyExists key.origin.display)

/-- Encodes a value and writes it under a resolved key. -/
def writeValue (p : Partition) (key : ResolvedKey) (codec : Codec α) (value : α)
    (op : Operation) : Action σ Unit := do
  let payload ← ofExcept (S.encodeValue codec value)
  call (S.ledger.write p key.encoded payload)
  emit (.write op key.encoded p.collection? payload.length)

/-- Writes a value under a resolved key, whatever was there. -/
def putAt (p : Partition) (key : ResolvedKey) (codec : Codec α) (value : α) : Action σ Unit :=
  S.writeValue p key codec value .put

/-- Writes a value under a resolved key that holds none. -/
def insertAt (p : Partition) (key : ResolvedKey) (codec : Codec α) (value : α) :
    Action σ Unit := do
  S.checkVacant p key
  S.writeValue p key codec value .insert

/-- Removes what is under a resolved key, if anything is. -/
def deleteAt (p : Partition) (key : ResolvedKey) : Action σ Unit := do
  call (S.ledger.delete p key.encoded)
  emit (.write .delete key.encoded p.collection? 0)

/-- The key of a source, outside the namespace of the key references. -/
def resolveWritable (source : KeySource) : Except StoreError ResolvedKey := do
  let key ← S.resolve source
  guardNamespace key
  return key

/-- Writes a value under a key, whatever was there. -/
def put (p : Partition) (source : KeySource) (codec : Codec α) (value : α) : Action σ Unit :=
  observe .put do
    let key ← ofExcept (S.resolveWritable source)
    S.putAt p key codec value

/-- Writes a value under a key that holds none. -/
def insert (p : Partition) (source : KeySource) (codec : Codec α) (value : α) : Action σ Unit :=
  observe .insert do
    let key ← ofExcept (S.resolveWritable source)
    S.insertAt p key codec value

/-- Removes what is under a key; succeeds whether or not anything was. -/
def delete (p : Partition) (source : KeySource) : Action σ Unit :=
  observe .delete do
    let key ← ofExcept (S.resolveWritable source)
    S.deleteAt p key

/-! ### Entities -/

/-- Writes an entity under its own key. -/
def putEntity (p : Partition) (T : EntityType ε) (entity : ε) : Action σ Unit :=
  S.put p (T.source entity) T.codec entity

/-- Writes an entity under its own key, which must hold none. -/
def insertEntity (p : Partition) (T : EntityType ε) (entity : ε) : Action σ Unit :=
  S.insert p (T.source entity) T.codec entity

/-- Writes under an entity's key: the entity, or the one value given instead. -/
def putWithValues (p : Partition) (T : EntityType ε) (entity : ε) (codec : Codec α)
    (values : List α) : Action σ Unit :=
  match values with
  | [] => S.putEntity p T entity
  | [value] => S.put p (T.source entity) codec value
  | values => observe .put (fail (.tooManyValues values.length))

/-- As `putWithValues`, under a key that holds no value. -/
def insertWithValues (p : Partition) (T : EntityType ε) (entity : ε) (codec : Codec α)
    (values : List α) : Action σ Unit :=
  match values with
  | [] => S.insertEntity p T entity
  | [value] => S.insert p (T.source entity) codec value
  | values => observe .insert (fail (.tooManyValues values.length))

end Store

end EntityStore
