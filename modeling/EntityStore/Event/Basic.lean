/-
  EntityStore/Event/Basic.lean
  ============================
  **Events** — what a store operation reports while it runs.  The store itself
  writes no log: sinks make counters or records of the events.
-/
import EntityStore.Error

namespace EntityStore

/-- The kind of operation that an event belongs to. -/
inductive Operation where
  | get
  | contains
  | put
  | insert
  | delete
  | list
  | paginate
  | history
  | query
  | keyRef
deriving DecidableEq

namespace Operation

def name : Operation → String
  | get => "get"
  | contains => "exists"
  | put => "put"
  | insert => "insert"
  | delete => "delete"
  | list => "list"
  | paginate => "paginate"
  | history => "history"
  | query => "query"
  | keyRef => "key_ref"

/-- Every operation, in the order of declaration. -/
def all : List Operation :=
  [get, contains, put, insert, delete, list, paginate, history, query, keyRef]

end Operation

/-- One report.  The target is an encoded key, the object type of a listing, or the
    text of a query; the collection is that of a private operation. -/
inductive Event where
  | read (op : Operation) (target : String) (collection : Option String) (found : Bool)
  | write (op : Operation) (target : String) (collection : Option String) (bytes : Nat)
  | scan (op : Operation) (target : String) (collection : Option String) (rows : Nat)
  | conflict (op : Operation) (target : String)
  | failure (op : Operation) (error : StoreError)
deriving DecidableEq

/-- The operation that an event belongs to. -/
def Event.op : Event → Operation
  | read op _ _ _ => op
  | write op _ _ _ => op
  | scan op _ _ _ => op
  | conflict op _ => op
  | failure op _ => op

end EntityStore
