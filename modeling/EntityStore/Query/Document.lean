/-
  EntityStore/Query/Document.lean
  ===============================
  **Document queries** — a selector, an order for the matching rows, and how many
  of them to pass over and to keep.
-/
import EntityStore.Error
import EntityStore.Json.Reader
import EntityStore.Query.Selector

namespace EntityStore

/-- A query as a ledger runs it. -/
structure DocumentQuery where
  selector : List (String × Json)
  /-- Fields to sort by, the first one first, and whether larger values come first. -/
  sort : List (String × Bool)
  limit : Option Nat
  skip : Nat

namespace DocumentQuery

/-! ### Reading -/

/-- The failure to understand a query. -/
def invalid (reason : String) : LedgerError := .io ("invalid rich query: " ++ reason)

/-- The fields of one sort entry: a name, or an object of names and directions.
    Only the direction `desc` reverses. -/
def sortFields : Json → Except LedgerError (List (String × Bool))
  | .str field => .ok [(field, false)]
  | .obj members => .ok (members.map fun member => (member.1, member.2.text? == some "desc"))
  | _ => .error (invalid "sort entries must be strings or objects")

/-- The fields of all sort entries. -/
def sortList : List Json → Except LedgerError (List (String × Bool))
  | [] => .ok []
  | entry :: rest =>
    match sortFields entry with
    | .error error => .error error
    | .ok fields => (sortList rest).map (fields ++ ·)

/-- The query that a value describes.  Members of the wrong kind other than the
    selector are passed over. -/
def ofJson (value : Json) : Except LedgerError DocumentQuery :=
  match value with
  | .obj root =>
    match Assoc.get? "selector" root with
    | some (.obj selector) =>
      let sort :=
        match Assoc.get? "sort" root with
        | some (.arr entries) => sortList entries
        | _ => .ok []
      sort.map fun sort =>
        { selector
          sort
          limit := (Assoc.get? "limit" root).bind Json.count?
          skip := ((Assoc.get? "skip" root).bind Json.count?).getD 0 }
    | _ => .error (invalid "missing selector object")
  | _ => .error (invalid "query must be a JSON object")

/-- The query that a text describes. -/
def ofText (text : String) : Except LedgerError DocumentQuery :=
  match Json.ofText? text with
  | some value => ofJson value
  | none => .error (invalid "malformed JSON document")

/-! ### Running -/

/-- The document is one of those asked for. -/
def accepts (query : DocumentQuery) (document : Json) : Bool :=
  Query.matchesSelector document query.selector

/-- How two documents stand by one field: a missing field stands first, and values
    that do not compare stand equal. -/
def compareField (a b : Json) (field : String × Bool) : Ordering :=
  let ordering :=
    match Query.field? a field.1, Query.field? b field.1 with
    | some x, some y => (Query.compare? x y).getD .eq
    | none, some _ => .lt
    | some _, none => .gt
    | none, none => .eq
  if field.2 then ordering.swap else ordering

/-- How two documents stand by the first field that tells them apart. -/
def compareBy (sort : List (String × Bool)) (a b : Json) : Ordering :=
  match sort with
  | [] => .eq
  | field :: rest =>
    match compareField a b field with
    | .eq => compareBy rest a b
    | ordering => ordering

variable {α : Type}

/-- Puts a row at its place among rows that are held in reverse: before every row,
    counted from the end, that it stands strictly before. -/
def place (less : α → α → Bool) (row : α) : List α → List α
  | [] => [row]
  | last :: before =>
    if less row last then last :: place less row before else row :: last :: before

/-- Arranges rows by inserting one after the other; equal rows keep their order. -/
def arrange (less : α → α → Bool) (rows : List α) : List α :=
  (rows.foldl (fun reversed row => place less row reversed) []).reverse

/-- The rows in the order that the query asks for, by insertion.  This is exact for up to
    twenty rows and where the values of each sorted field line up.  Elsewhere a sort may
    leave the rows in another order or stop; `DocumentQuery.orderBy?` leaves that to the
    sort. -/
def order (query : DocumentQuery) (rows : List (α × Json)) : List (α × Json) :=
  arrange (fun a b => compareBy query.sort a.2 b.2 == .lt) rows

/-- The rows that the query asks for out of all rows with their documents: the
    matching ones in order, less those to pass over. -/
def select (query : DocumentQuery) (rows : List (α × Json)) : List α :=
  ((query.order (rows.filter fun row => query.accepts row.2)).map Prod.fst).drop query.skip

end DocumentQuery

end EntityStore
