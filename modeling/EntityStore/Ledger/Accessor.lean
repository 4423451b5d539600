/-
  EntityStore/Ledger/Accessor.lean
  ================================
  **The accessor contract** — what the store asks of a ledger.

  A ledger has a state of its own, of any type, and every call on it answers and
  returns the next state.  Rows come through cursors, which hold the platform's
  resources until they are closed.
-/
import EntityStore.Key.Composite

namespace EntityStore

/-- The public state of a ledger, or one of its private collections. -/
inductive Partition where
  | world
  | collection (name : String)
deriving DecidableEq

/-- The name of the collection, for events. -/
def Partition.collection? : Partition → Option String
  | world => none
  | collection name => some name

/-- One entry of a listing or of a query's answer. -/
structure Row where
  key : String
  payload : Bytes
deriving DecidableEq

/-- One committed mutation of a key. -/
structure Modification where
  txId : String
  timestamp : Int
  isDelete : Bool
  payload : Bytes
deriving DecidableEq

/-- What comes with a page of rows: how many they are, and the bookmark at which the
    next page begins, empty behind the last. -/
structure PageInfo where
  fetched : Nat
  bookmark : String
deriving DecidableEq

/-! ### Cursors -/

/-- A cursor: its number, and what its reads will give, a row or a failure. -/
structure Cursor (ρ : Type) where
  id : Nat
  rows : List (Except LedgerError ρ)

/-- What one read gives, and the cursor behind it.  A cursor does not move past a
    failure, and gives nothing behind its last row. -/
def Cursor.next {ρ : Type} (cursor : Cursor ρ) : Option (Except LedgerError ρ) × Cursor ρ :=
  match cursor.rows with
  | [] => (none, cursor)
  | .error error :: _ => (some (.error error), cursor)
  | .ok row :: rest => (some (.ok row), { cursor with rows := rest })

/-! ### Accessors -/

/-- A call on a ledger whose state has type `σ`: its answer and the next state. -/
abbrev Call (σ α : Type) := σ → Except LedgerError α × σ

/-- A call that the ledger does not offer. -/
def unsupported {σ α : Type} (operation : String) : Call σ α :=
  fun state => (.error (.unsupported operation), state)

/-- A ledger as the store sees it.  An absent key reads as an empty payload. -/
structure Accessor (σ : Type) where
  read (partition : Partition) (key : String) : Call σ Bytes
  write (partition : Partition) (key : String) (payload : Bytes) : Call σ Unit
  delete (partition : Partition) (key : String) : Call σ Unit
  /-- The entries under a partial key, in key order. -/
  scan (partition : Partition) (objectType : String) (attributes : List String) :
    Call σ (Cursor Row)
  /-- One page of the public entries under a partial key. -/
  scanPage (objectType : String) (attributes : List String) (pageSize : Nat) (bookmark : String) :
    Call σ (Cursor Row × PageInfo)
  /-- The mutations of a public key, the newest first. -/
  history (key : String) : Call σ (Cursor Modification)
  /-- Whether a cursor may still be read; asked before every read of a row. -/
  touch (cursor : Nat) : Call σ Unit
  /-- Releases a cursor. -/
  close (cursor : Nat) : Call σ Unit
  /-- The public entries that a document query asks for. -/
  query (text : String) : Call σ (Cursor Row) := unsupported "rich query"
  /-- One page of the entries that a document query asks for. -/
  queryPage (text : String) (pageSize : Nat) (bookmark : String) :
    Call σ (Cursor Row × PageInfo) := unsupported "paginated rich query"
  /-- The composite key of an object type and attributes. -/
  joinKey : String → List String → Except CompositeError String := Composite.encode
  /-- The object type and attributes of a composite key. -/
  splitKey : String → Except CompositeError (String × List String) := Composite.split

/-- Reads a cursor once: the ledger may refuse, as it does for a closed cursor. -/
def Accessor.next {σ ρ : Type} (A : Accessor σ) (cursor : Cursor ρ) (state : σ) :
    Option (Except LedgerError ρ) × Cursor ρ × σ :=
  match A.touch cursor.id state with
  | (.error error, state) => (some (.error error), cursor, state)
  | (.ok (), state) => let (answer, cursor) := cursor.next; (answer, cursor, state)

end EntityStore
