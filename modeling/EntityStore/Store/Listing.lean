/-
  EntityStore/Store/Listing.lean
  ==============================
  **Listings** — all entries under a prefix, a page of them, and the history of a
  key.  A row that cannot be decoded fails the whole listing: part of a listing
  is never returned.
-/
import EntityStore.Store.Basic

namespace EntityStore

/-- A page of a listing.  The bookmark leads to the next page; it is empty behind
    the last. -/
structure Page (α : Type) where
  items : List α
  bookmark : String
  fetched : Nat

/-- No page follows. -/
def Page.isLast {α : Type} (page : Page α) : Bool := page.bookmark == ""

/-- A mutation of a key, with the value it wrote, if it wrote one. -/
structure HistoryEntry (α : Type) where
  txId : String
  timestamp : Int
  isDeleted : Bool
  value : Option α

namespace Store

open EntityStore.Action

variable {σ α : Type} (S : Store σ)

/-- The values of the rows of a cursor, at most `limit` of them. -/
def decodeRows (codec : Codec α) (cursor : Cursor Row) (limit : Option Nat) :
    Action σ (List α) :=
  drain S.ledger cursor limit fun row => ofExcept (S.decodeRow codec row.key row.payload)

/-- Every public entry under a prefix, in key order. -/
def list (source : KeySource) (codec : Codec α) : Action σ (List α) :=
  observe .list do
    let (objectType, attributes) ← ofExcept (S.listingPrefix source)
    let cursor ← call (S.ledger.scan .world objectType attributes)
    let items ← S.decodeRows codec cursor none
    emit (.scan .list objectType none items.length)
    return items

/-- One page of the public entries under a prefix. -/
def paginate (source : KeySource) (codec : Codec α) (pageSize : Nat) (bookmark : String) :
    Action σ (Page α) :=
  observe .paginate do
    let (objectType, attributes) ← ofExcept (S.listingPrefix source)
    let (cursor, info) ← call (S.ledger.scanPage objectType attributes pageSize bookmark)
    let items ← S.decodeRows codec cursor none
    emit (.scan .paginate objectType none items.length)
    return ⟨items, info.bookmark, info.fetched⟩

/-! ### Private collections -/

/-- The private value under a public key; it must be there. -/
def privateValueAt (collection : String) (codec : Codec α) (row : Row) : Action σ α := do
  let payload ← call (S.ledger.read (.collection collection) row.key)
  if payload.isEmpty then fail (.notFound row.key)
  else ofExcept (S.decodeRow codec row.key payload)

/-- The private values under a prefix, found in one of the two ways. -/
def privateItems (collection : String) (listing : PrivateListing) (objectType : String)
    (attributes : List String) (codec : Codec α) : Action σ (List α) :=
  match listing with
  | .privateIterator => do
    let cursor ← call (S.ledger.scan (.collection collection) objectType attributes)
    S.decodeRows codec cursor none
  | .publicKeys => do
    let cursor ← call (S.ledger.scan .world objectType attributes)
    drain S.ledger cursor none (S.privateValueAt collection codec)

/-- Every entry of a private collection under a prefix, listed in a given way. -/
def listPrivateWith (collection : String) (listing : PrivateListing) (source : KeySource)
    (codec : Codec α) : Action σ (List α) :=
  observe .list do
    let (objectType, attributes) ← ofExcept (S.listingPrefix source)
    let items ← S.privateItems collection listing objectType attributes codec
    emit (.scan .list objectType (some collection) items.length)
    return items

/-- Every entry of a private collection under a prefix, listed in the configured
    way. -/
def listPrivate (collection : String) (source : KeySource) (codec : Codec α) :
    Action σ (List α) :=
  S.listPrivateWith collection S.config.privateListing source codec

/-! ### History -/

/-- The entry of one mutation; a value that cannot be decoded is told with the key
    and the transaction. -/
def historyEntry (key : ResolvedKey) (codec : Codec α) (m : Modification) :
    Except StoreError (HistoryEntry α) :=
  if m.payload.isEmpty then .ok ⟨m.txId, m.timestamp, m.isDelete, none⟩
  else
    match S.decodeValue codec m.payload with
    | .ok value => .ok ⟨m.txId, m.timestamp, m.isDelete, some value⟩
    | .error error =>
      .error (.unexpected
        ("history of " ++ key.origin.display ++ " at tx " ++ m.txId ++ ": " ++ error.message))

/-- The mutations of a public key, the newest first. -/
def history (source : KeySource) (codec : Codec α) : Action σ (List (HistoryEntry α)) :=
  observe .history do
    let key ← ofExcept (S.resolve source)
    let cursor ← call (S.ledger.history key.encoded)
    let entries ← drain S.ledger cursor none fun m => ofExcept (S.historyEntry key codec m)
    emit (.scan .history key.encoded none entries.length)
    return entries

end Store

end EntityStore
