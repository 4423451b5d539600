/-
  EntityStore/Proofs/Store/Scan.lean
  ==================================
  **Everything that reads a cursor is one program.**  Listings, pages, histories and
  queries differ in the cursor they open, in what they make of a row, and in what they
  make of the values.  `Scan` describes these differences and nothing of a ledger;
  `Scan.run` is the program.  Each of the requests runs its description
  (`ScanRequest.perform_eq`), so what is proved of the one program holds of them all.
-/
import EntityStore.KeyRef
import EntityStore.Proofs.Ledger.Recorded
import EntityStore.Store.RichQuery

namespace EntityStore

open EntityStore.Action

variable {σ α β γ ρ : Type}

/-! ### The program -/

/-- A call that opens a cursor over rows of type `ρ`, and answers with a `γ`. -/
inductive Opening : Type → Type → Type where
  | scan (p : Partition) (objectType : String) (attributes : List String) :
    Opening (Cursor Row) Row
  | scanPage (objectType : String) (attributes : List String) (pageSize : Nat)
    (bookmark : String) : Opening (Cursor Row × PageInfo) Row
  | history (key : String) : Opening (Cursor Modification) Modification
  | query (text : String) : Opening (Cursor Row) Row
  | queryPage (text : String) (pageSize : Nat) (bookmark : String) :
    Opening (Cursor Row × PageInfo) Row

namespace Opening

def call (A : Accessor σ) : Opening γ ρ → Call σ γ
  | scan p objectType attributes => A.scan p objectType attributes
  | scanPage objectType attributes pageSize bookmark =>
    A.scanPage objectType attributes pageSize bookmark
  | history key => A.history key
  | query text => A.query text
  | queryPage text pageSize bookmark => A.queryPage text pageSize bookmark

/-- The cursor in the answer. -/
def cursor : Opening γ ρ → γ → Cursor ρ
  | scan .., opened | history .., opened | query .., opened => opened
  | scanPage .., opened | queryPage .., opened => opened.1

theorem call_recorded (A : Accessor σ) (opening : Opening γ ρ) :
    opening.call A.recorded = Recorded.noting
      (fun answer => .opened (answer.map fun opened => (opening.cursor opened).id))
      (opening.call A) := by
  cases opening <;> rfl

theorem calls {F : Frame σ} {A : Accessor σ} (hA : F.Reads A) (opening : Opening γ ρ) :
    F.Calls (opening.call A) := by
  cases opening with
  | scan p objectType attributes => exact hA.scan p objectType attributes
  | scanPage objectType attributes pageSize bookmark =>
    exact hA.scanPage objectType attributes pageSize bookmark
  | history key => exact hA.history key
  | query text => exact hA.query text
  | queryPage text pageSize bookmark => exact hA.queryPage text pageSize bookmark

end Opening

/-- What is done behind the check of the arguments: a cursor is opened, each row is made
    a value, for which the row may need a payload from elsewhere, and the values are
    made the result. -/
structure Scan (β : Type) where
  {γ ρ α : Type}
  opening : Opening γ ρ
  limit : Option Nat := none
  /-- Where the payload is that a row needs. -/
  place : ρ → Option (Partition × String) := fun _ => none
  /-- The value of a row; the payload is empty for rows that need none. -/
  make : ρ → Bytes → Except StoreError α
  finish : γ → List α → Except StoreError β
  /-- What is reported as scanned. -/
  target : String
  collection : Option String := none

namespace Scan

def each (A : Accessor σ) (scan : Scan β) (row : scan.ρ) : Action σ scan.α :=
  match scan.place row with
  | none => ofExcept (scan.make row [])
  | some (p, key) => do
    let payload ← Action.call (A.read p key)
    ofExcept (scan.make row payload)

def run (A : Accessor σ) (op : Operation) (scan : Scan β) : Action σ β := do
  let opened ← Action.call (scan.opening.call A)
  let values ← drain A (scan.opening.cursor opened) scan.limit (scan.each A)
  emit (.scan op scan.target scan.collection values.length)
  ofExcept (scan.finish opened values)

end Scan

theorem Scan.within_run {F : Frame σ} {A : Accessor σ} (hA : F.Reads A) (op : Operation)
    (scan : Scan β) : Within F (scan.run A op) := by
  have heach (row : scan.ρ) : Within F (scan.each A row) := by
    unfold Scan.each
    split
    · exact within_ofExcept _
    · exact within_bind (within_call (hA.read _ _)) fun _ => within_ofExcept _
  refine within_bind (within_call (scan.opening.calls hA)) fun opened => ?_
  refine within_bind (within_drain hA _ _ heach) fun values => ?_
  exact within_bind (within_emit _) fun _ => within_ofExcept _

theorem Scan.mirrors_run (A : Accessor σ) (op : Operation) (scan : Scan β) :
    Mirrors (scan.run A.recorded op) (scan.run A op) := by
  have heach (row : scan.ρ) : Mirrors (scan.each A.recorded row) (scan.each A row) := by
    unfold Scan.each
    split
    · exact mirrors_ofExcept _
    · exact mirrors_bind (mirrors_call _ _) fun _ => mirrors_ofExcept _
  unfold Scan.run
  rw [Opening.call_recorded]
  refine mirrors_bind (mirrors_call _ _) fun opened => ?_
  refine mirrors_bind (mirrors_drain _ _ heach) fun values => ?_
  exact mirrors_bind (mirrors_emit _) fun _ => mirrors_ofExcept _

/-- Runs what the arguments ask for, unless they are refused; a failure is reported. -/
def scanning (A : Accessor σ) (op : Operation) (scan : Except StoreError (Scan β)) :
    Action σ β :=
  observe op <| match scan with
    | .ok scan => scan.run A op
    | .error error => fail error

theorem scanning_map {δ : Type} (A : Accessor σ) (op : Operation) (arguments : Except StoreError δ)
    (scan : δ → Scan β) :
    scanning A op (arguments.map scan) =
      observe op (ofExcept arguments >>= fun found => (scan found).run A op) := by
  cases arguments <;> rfl

/-! ### Requests -/

/-- An operation that reads a cursor, and the type of its answer. -/
inductive ScanRequest : Type → Type 1 where
  | list {α : Type} (source : KeySource) (codec : Codec α) : ScanRequest (List α)
  | paginate {α : Type} (source : KeySource) (codec : Codec α) (pageSize : Nat)
    (bookmark : String) : ScanRequest (Page α)
  | listPrivate {α : Type} (collection : String) (listing : PrivateListing) (source : KeySource)
    (codec : Codec α) : ScanRequest (List α)
  | history {α : Type} (source : KeySource) (codec : Codec α) : ScanRequest (List (HistoryEntry α))
  | richQuery {α : Type} (text : String) (limit : Nat) (codec : Codec α) : ScanRequest (List α)
  | richQueryPage {α : Type} (text : String) (pageSize : Nat) (bookmark : String)
    (codec : Codec α) : ScanRequest (Page α)
  | query {α : Type} (builder : QueryBuilder) (codec : Codec α) : ScanRequest (List α)
  | keyRefs (schema index : String) : ScanRequest (List KeyRef)

namespace ScanRequest

def perform (S : Store σ) : ScanRequest β → Action σ β
  | .list source codec => S.list source codec
  | .paginate source codec pageSize bookmark => S.paginate source codec pageSize bookmark
  | .listPrivate collection listing source codec =>
    S.listPrivateWith collection listing source codec
  | .history source codec => S.history source codec
  | .richQuery text limit codec => S.richQuery text limit codec
  | .richQueryPage text pageSize bookmark codec => S.richQueryPage text pageSize bookmark codec
  | .query builder codec => S.query builder codec
  | .keyRefs schema index => S.listKeyRefs schema index

def op : ScanRequest β → Operation
  | .list .. | .listPrivate .. => .list
  | .paginate .. => .paginate
  | .history .. => .history
  | .richQuery .. | .richQueryPage .. | .query .. => .query
  | .keyRefs .. => .keyRef

end ScanRequest

namespace Store

variable (S : Store σ)

/-- The scan that makes each row its value. -/
def rowScan (codec : Codec α) (opening : Opening γ Row) (finish : γ → List α → β)
    (target : String) : Scan β where
  opening := opening
  make row _ := S.decodeRow codec row.key row.payload
  finish opened items := .ok (finish opened items)
  target := target

/-- The scan of a query for at most `limit` rows. -/
def queryScan (codec : Codec α) (limit : Nat) (text : String) : Scan (List α) :=
  { S.rowScan codec (.query text) (fun _ items => items) text with limit := some limit }

/-- The scan of the private values under a prefix, found in one of the two ways. -/
def privateScan (collection : String) (codec : Codec α) (objectType : String)
    (attributes : List String) : PrivateListing → Scan (List α)
  | .privateIterator =>
    { S.rowScan codec (.scan (.collection collection) objectType attributes)
        (fun _ items => items) objectType with
      collection := some collection }
  | .publicKeys =>
    { opening := .scan .world objectType attributes
      place := fun row => some (.collection collection, row.key)
      make := fun row payload =>
        if payload.isEmpty then .error (.notFound row.key)
        else S.decodeRow codec row.key payload
      finish := fun _ items => .ok items
      target := objectType
      collection := some collection }

theorem each_privateScan (collection : String) (codec : Codec α) (objectType : String)
    (attributes : List String) :
    (S.privateScan collection codec objectType attributes .publicKeys).each S.ledger =
      S.privateValueAt collection codec := by
  funext row
  have hmake (payload : Bytes) :
      ofExcept (if payload.isEmpty then .error (.notFound row.key)
        else S.decodeRow codec row.key payload) =
      (if payload.isEmpty then fail (.notFound row.key)
        else ofExcept (S.decodeRow codec row.key payload) : Action σ α) := by
    split <;> rfl
  unfold privateValueAt
  simp only [← hmake]
  rfl

theorem run_privateScan (collection : String) (listing : PrivateListing) (objectType : String)
    (attributes : List String) (codec : Codec α) :
    (S.privateScan collection codec objectType attributes listing).run S.ledger .list = (do
      let items ← S.privateItems collection listing objectType attributes codec
      emit (.scan .list objectType (some collection) items.length)
      return items) := by
  cases listing with
  | privateIterator =>
    rw [privateItems, bind_assoc]
    rfl
  | publicKeys =>
    rw [privateItems, bind_assoc, ← each_privateScan]
    rfl

end Store

/-- What a request does behind the check of its arguments. -/
def ScanRequest.scan (S : Store σ) : ScanRequest β → Except StoreError (Scan β)
  | .list source codec =>
    (S.listingPrefix source).map fun (objectType, attributes) =>
      S.rowScan codec (.scan .world objectType attributes) (fun _ items => items) objectType
  | .paginate source codec pageSize bookmark =>
    (S.listingPrefix source).map fun (objectType, attributes) =>
      S.rowScan codec (.scanPage objectType attributes pageSize bookmark)
        (fun opened items => ⟨items, opened.2.bookmark, opened.2.fetched⟩) objectType
  | .listPrivate collection listing source codec =>
    (S.listingPrefix source).map fun (objectType, attributes) =>
      S.privateScan collection codec objectType attributes listing
  | .history source codec =>
    (S.resolve source).map fun key =>
      { opening := .history key.encoded
        make := fun m _ => S.historyEntry key codec m
        finish := fun _ entries => .ok entries
        target := key.encoded }
  | .richQuery text limit codec => .ok (S.queryScan codec limit text)
  | .richQueryPage text pageSize bookmark codec =>
    .ok (S.rowScan codec (.queryPage text pageSize bookmark)
      (fun opened items => ⟨items, opened.2.bookmark, opened.2.fetched⟩) text)
  | .query builder codec =>
    builder.build.map
      (S.queryScan codec ((builder.limit.map UInt64.toNat).getD S.config.queryPageSize))
  | .keyRefs schema index =>
    (S.listingPrefix (.given ⟨[Store.keyRefNamespace, schema, index]⟩)).map
      fun (objectType, attributes) =>
        { opening := .scan .world objectType attributes
          make := fun row _ =>
            (S.decodeRow Codec.key row.key row.payload).map fun key => (row.key, key)
          finish := fun _ rows => rows.mapM (S.keyRefOfRow schema index)
          target := objectType }

namespace ScanRequest

variable (S : Store σ)

theorem perform_eq (request : ScanRequest β) :
    request.perform S = scanning S.ledger request.op (request.scan S) := by
  -- The description repeats the body of the request, up to where the prefix is computed.
  cases request with
  | list source codec =>
    rw [scan, scanning_map]
    rfl
  | paginate source codec pageSize bookmark =>
    rw [scan, scanning_map]
    rfl
  | listPrivate collection listing source codec =>
    rw [scan, scanning_map, op]
    simp only [Store.run_privateScan]
    rfl
  | history source codec =>
    rw [scan, scanning_map]
    rfl
  | richQuery text limit codec => rfl
  | richQueryPage text pageSize bookmark codec => rfl
  | query builder codec =>
    rw [scan, scanning_map]
    rfl
  | keyRefs schema index =>
    rw [scan, scanning_map]
    rfl

/-- The description says nothing of the ledger. -/
theorem scan_recorded (request : ScanRequest β) : request.scan S.recorded = request.scan S := by
  cases request <;> rfl

/-- A request does the same on a ledger that keeps a record. -/
theorem mirrors_perform (request : ScanRequest β) :
    Mirrors (request.perform S.recorded) (request.perform S) := by
  rw [perform_eq, perform_eq, scan_recorded]
  refine mirrors_observe request.op ?_
  cases request.scan S with
  | ok scan => exact scan.mirrors_run S.ledger request.op
  | error error => exact mirrors_fail error

/-- A request stays within whatever frame holds the reading calls of its ledger. -/
theorem within_perform {S : Store σ} {F : Frame σ} (hS : F.Reads S.ledger)
    (request : ScanRequest β) : Within F (request.perform S) := by
  rw [perform_eq]
  refine within_observe request.op ?_
  cases request.scan S with
  | ok scan => exact scan.within_run hS request.op
  | error error => exact within_fail error

end ScanRequest

end EntityStore
