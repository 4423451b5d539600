/-
  EntityStore/Error.lean
  ======================
  **Failures** — what can go wrong below the accessor (`LedgerError`) and what the
  store itself reports (`StoreError`).  Each constructor is a cause; the wording,
  the stable kind, the subsystem and the wire status are functions of it.
-/
import EntityStore.Text.Quoted

namespace EntityStore

/-- A failure raised by a ledger. -/
inductive LedgerError where
  /-- Reading, writing or understanding a request failed. -/
  | io (detail : String)
  /-- The ledger does not offer the operation. -/
  | unsupported (operation : String)
  /-- A cursor was used after it was closed. -/
  | iteratorClosed
deriving DecidableEq

def LedgerError.message : LedgerError → String
  | .io detail => "ledger io: " ++ detail
  | .unsupported operation => "operation not supported by this ledger: " ++ operation
  | .iteratorClosed => "iterator already closed"

/-- A failure of a store operation.  Callers never see a ledger's own error
    except inside `ledger`. -/
inductive StoreError where
  /-- A value could not supply its key. -/
  | invalidKeyShape (detail : String)
  /-- A key without parts. -/
  | emptyKey
  /-- A key part that the encoding cannot hold. -/
  | invalidKeyPart (part reason : String)
  /-- A write to the namespace kept for key references. -/
  | reservedNamespace (name : String)
  | encode (detail : String)
  | decode (detail : String)
  | notFound (key : String)
  | alreadyExists (key : String)
  /-- More payloads were given for one entity than the one it may have. -/
  | tooManyValues (count : Nat)
  /-- A query that constrains nothing. -/
  | noSelector
  /-- A sort token that is not a field, a colon and a direction. -/
  | invalidSort (token : String)
  | ledger (error : LedgerError)
  | unexpected (detail : String)
deriving DecidableEq

namespace StoreError

/-- The text shown to a caller. -/
def message : StoreError → String
  | invalidKeyShape detail => "unable to create state key: " ++ detail
  | emptyKey => "key parts length must be greater than zero"
  | invalidKeyPart part reason =>
    "invalid composite key part " ++ Text.quoted part ++ ": " ++ reason
  | reservedNamespace name => "namespace '" ++ name ++ "' is reserved for key references"
  | encode detail => "value encode failed: " ++ detail
  | decode detail => "value decode failed: " ++ detail
  | notFound key => "state entry not found: " ++ key
  | alreadyExists key => "state key already exists: " ++ key
  | tooManyValues count => s!"allow only one value, got {count}"
  | noSelector => "no selector provided for rich query"
  | invalidSort token => "invalid syntax for sort query: '" ++ token ++ "'"
  | ledger error => "set/get error: " ++ error.message
  | unexpected detail => "unexpected error: " ++ detail

end StoreError

/-! ### Kind, origin and status -/

/-- The kind of a failure, independent of any message text. -/
inductive ErrorKind where
  | invalidKeyShape
  | emptyKey
  | invalidKeyPart
  | reservedNamespace
  | encode
  | decode
  | notFound
  | alreadyExists
  | tooManyValues
  | noSelector
  | invalidSort
  | ledger
  | unexpected
deriving DecidableEq

def ErrorKind.name : ErrorKind → String
  | invalidKeyShape => "invalid_key_shape"
  | emptyKey => "empty_key"
  | invalidKeyPart => "invalid_key_part"
  | reservedNamespace => "reserved_namespace"
  | encode => "encode"
  | decode => "decode"
  | notFound => "not_found"
  | alreadyExists => "already_exists"
  | tooManyValues => "too_many_values"
  | noSelector => "no_selector"
  | invalidSort => "invalid_sort_syntax"
  | ledger => "underlying_io"
  | unexpected => "unexpected"

/-- The subsystem in which a failure arises. -/
inductive ErrorOrigin where
  | key
  | codec
  | store
  | index
  | query
  | ledger
deriving DecidableEq

def ErrorOrigin.name : ErrorOrigin → String
  | key => "key"
  | codec => "codec"
  | store => "store"
  | index => "index"
  | query => "query"
  | ledger => "ledger"

namespace StoreError

def kind : StoreError → ErrorKind
  | invalidKeyShape _ => .invalidKeyShape
  | emptyKey => .emptyKey
  | invalidKeyPart _ _ => .invalidKeyPart
  | reservedNamespace _ => .reservedNamespace
  | encode _ => .encode
  | decode _ => .decode
  | notFound _ => .notFound
  | alreadyExists _ => .alreadyExists
  | tooManyValues _ => .tooManyValues
  | noSelector => .noSelector
  | invalidSort _ => .invalidSort
  | ledger _ => .ledger
  | unexpected _ => .unexpected

def origin : StoreError → ErrorOrigin
  | invalidKeyShape _ | emptyKey | invalidKeyPart _ _ | tooManyValues _ => .key
  | reservedNamespace _ => .index
  | encode _ | decode _ => .codec
  | notFound _ | alreadyExists _ | unexpected _ => .store
  | noSelector | invalidSort _ => .query
  | ledger _ => .ledger

/-- The status that an invocation boundary reports. -/
def status (error : StoreError) : Nat :=
  match error.kind with
  | .alreadyExists => 401
  | .notFound => 402
  | .ledger => 500
  | .noSelector | .invalidSort => 400
  | _ => 599

def isNotFound : StoreError → Bool
  | notFound _ => true
  | _ => false

/-- The message behind its origin and kind. -/
def labelled (error : StoreError) : String :=
  error.origin.name ++ ":" ++ error.kind.name ++ ": " ++ error.message

end StoreError

end EntityStore
