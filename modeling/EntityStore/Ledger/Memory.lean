/-
  EntityStore/Ledger/Memory.lean
  ==============================
  **The ledger in memory** — key spaces in the order of their encoded keys, with a
  history of every mutation of the public one.

  Writes apply at once.  A cursor holds the rows of the moment at which it was
  opened, and counts as open until it is closed.  Reads and cursors can be told
  to fail, to see how the store behaves when they do.
-/
import EntityStore.Codec.Scalar
import EntityStore.Ledger.Accessor
import EntityStore.OrderedMap
import EntityStore.Query.RowSort

namespace EntityStore

/-- The state of a ledger in memory. -/
structure Memory where
  world : OrderedMap Bytes := ∅
  collections : OrderedMap (OrderedMap Bytes) := ∅
  /-- The mutations of each key, the newest first. -/
  history : OrderedMap (List Modification) := ∅
  txId : String := "tx-0"
  timestamp : Int := 0
  richQueries : Bool := true
  /-- The numbers of the open cursors. -/
  openCursors : List Nat := []
  /-- The number of the next cursor. -/
  nextCursor : Nat := 0
  /-- How many of the next reads will fail. -/
  failingReads : Nat := 0
  /-- How many rows the next cursor gives before it fails. -/
  failingRow : Option Nat := none

namespace Memory

/-- An empty ledger. -/
def empty : Memory := {}

/-- An empty ledger whose database knows no document queries. -/
def withoutRichQueries : Memory := { richQueries := false }

/-- Starts a transaction: later mutations are recorded under it. -/
def beginTx (m : Memory) (txId : String) (timestamp : Int) : Memory :=
  { m with txId, timestamp }

/-- Makes the next point reads and openings of cursors fail. -/
def failNextReads (m : Memory) (count : Nat) : Memory := { m with failingReads := count }

/-- Makes the next cursor fail behind some rows. -/
def failIterationAfter (m : Memory) (rows : Nat) : Memory := { m with failingRow := some rows }

/-- The number of public entries. -/
def size (m : Memory) : Nat := m.world.size

/-- The entries of a partition. -/
def entries (m : Memory) : Partition → OrderedMap Bytes
  | .world => m.world
  | .collection name => (m.collections.get? name).getD ∅

/-- The stored payload of a key, as it is. -/
def stored? (m : Memory) (partition : Partition) (key : String) : Option Bytes :=
  (m.entries partition).get? key

/-! ### Reading -/

/-- A read that fails if it was told to. -/
def reading {α : Type} (body : Call Memory α) : Call Memory α := fun m =>
  match m.failingReads with
  | 0 => body m
  | count + 1 => (.error (.io "injected read failure"), { m with failingReads := count })

def read (partition : Partition) (key : String) : Call Memory Bytes :=
  reading fun m => (.ok ((m.stored? partition key).getD []), m)

/-- The rows of a cursor that fails behind some of them.  One that is to fail
    behind more rows than there are never does. -/
def failingAfter {ρ : Type} (rows : List ρ) : Option Nat → List (Except LedgerError ρ)
  | none => rows.map .ok
  | some count =>
    if count ≤ rows.length then
      (rows.take count).map .ok ++ [.error (.io "injected iteration failure")]
    else rows.map .ok

/-- Opens a cursor over rows. -/
def openCursor {ρ : Type} (m : Memory) (rows : List ρ) : Cursor ρ × Memory :=
  (⟨m.nextCursor, failingAfter rows m.failingRow⟩,
    { m with
      openCursors := m.nextCursor :: m.openCursors
      nextCursor := m.nextCursor + 1
      failingRow := none })

/-- The rows of a partition with `start ≤ key < stop`, in key order. -/
def rowsBetween (m : Memory) (partition : Partition) (start stop : String) : List Row :=
  ((m.entries partition).between start stop).map fun entry => ⟨entry.1, entry.2⟩

def scan (partition : Partition) (objectType : String) (attributes : List String) :
    Call Memory (Cursor Row) :=
  reading fun m =>
    match Composite.range objectType attributes with
    | .error error => (.error (.io error.message), m)
    | .ok (start, stop) =>
      let (cursor, m) := m.openCursor (m.rowsBetween partition start stop)
      (.ok cursor, m)

/-- The failure to accept a bookmark. -/
def invalidBookmark (bookmark : String) : LedgerError :=
  .io ("invalid bookmark " ++ Text.quoted bookmark)

/-- The first key of a page: that of the range, or a bookmark inside it. -/
def pageStart (start stop bookmark : String) : Except LedgerError String :=
  if bookmark = "" then .ok start
  else if Composite.isComposite bookmark ∧ start ≤ bookmark ∧ bookmark < stop then .ok bookmark
  else .error (invalidBookmark bookmark)

/-- The largest count of rows that is reported. -/
def fetchedLimit : Nat := UInt32.size - 1

/-- The first page of rows, and the key of the first row behind it.  Size zero is no
    bound. -/
def firstPage (pageSize : Nat) (rows : List Row) : List Row × PageInfo :=
  let page := if pageSize = 0 then rows else rows.take pageSize
  let behind := if pageSize = 0 then none else rows[pageSize]?
  (page, ⟨min page.length fetchedLimit, (behind.map Row.key).getD ""⟩)

def scanPage (objectType : String) (attributes : List String) (pageSize : Nat)
    (bookmark : String) : Call Memory (Cursor Row × PageInfo) :=
  reading fun m =>
    match Composite.range objectType attributes with
    | .error error => (.error (.io error.message), m)
    | .ok (start, stop) =>
      match pageStart start stop bookmark with
      | .error error => (.error error, m)
      | .ok start =>
        let (page, info) := firstPage pageSize (m.rowsBetween .world start stop)
        let (cursor, m) := m.openCursor page
        (.ok (cursor, info), m)

def historyOf (key : String) : Call Memory (Cursor Modification) :=
  reading fun m =>
    let (cursor, m) := m.openCursor ((m.history.get? key).getD [])
    (.ok cursor, m)

/-! ### Writing -/

/-- Refuses the empty key. -/
def writing (key : String) (body : Memory → Memory) : Call Memory Unit := fun m =>
  if key = "" then (.error (.io "key must not be empty"), m) else (.ok (), body m)

/-- Records a mutation of a public key under the current transaction. -/
def record (m : Memory) (key : String) (isDelete : Bool) (payload : Bytes) : Memory :=
  let modification := ⟨m.txId, m.timestamp, isDelete, payload⟩
  { m with history := m.history.insert key (modification :: (m.history.get? key).getD []) }

def write (partition : Partition) (key : String) (payload : Bytes) : Call Memory Unit :=
  writing key fun m =>
    match partition with
    | .world =>
      let m := m.record key false payload
      { m with world := m.world.insert key payload }
    | .collection name =>
      { m with
        collections := m.collections.insert name ((m.entries partition).insert key payload) }

def delete (partition : Partition) (key : String) : Call Memory Unit :=
  writing key fun m =>
    match partition with
    | .world =>
      let m := m.record key true []
      { m with world := m.world.erase key }
    | .collection name =>
      match m.collections.get? name with
      | some entries => { m with collections := m.collections.insert name (entries.erase key) }
      | none => m

/-! ### Document queries -/

/-- The public rows whose payload is a JSON object, each with its document. -/
def documents (m : Memory) : List (Row × Json) :=
  m.world.entries.filterMap fun entry =>
    match Json.ofBytes? entry.2 with
    | some document => if document.isObj then some (⟨entry.1, entry.2⟩, document) else none
    | none => none

/-- Runs a document query: the query, and the rows it asks for before any limit, put in
    order by insertion. -/
def runQuery {α : Type} (text : String)
    (body : DocumentQuery → List Row → Call Memory α) : Call Memory α := fun m =>
  if m.richQueries then
    reading (fun m =>
      match DocumentQuery.ofText text with
      | .error error => (.error error, m)
      | .ok query => body query (query.select m.documents) m) m
  else (.error (.unsupported "rich query"), m)

/-- Opens a cursor over the rows of a query, up to its limit. -/
def openRows (query : DocumentQuery) (rows : List Row) : Call Memory (Cursor Row) := fun m =>
  let rows :=
    match query.limit with
    | some limit => rows.take limit
    | none => rows
  let (cursor, m) := m.openCursor rows
  (.ok cursor, m)

def query (text : String) : Call Memory (Cursor Row) := runQuery text openRows

/-- The number of rows that a bookmark passes over. -/
def pageOffset (bookmark : String) : Except LedgerError Nat :=
  if bookmark = "" then .ok 0
  else
    match Scalar.readInteger 0 (UInt64.size - 1) bookmark.toList with
    | .ok offset => .ok offset.toNat
    | .error _ => .error (invalidBookmark bookmark)

/-- The page of rows behind an offset, and the offset of the next one.  Size zero is
    no bound. -/
def pageAt (pageSize offset : Nat) (rows : List Row) : List Row × PageInfo :=
  let behind := rows.drop offset
  let page := if pageSize = 0 then behind else behind.take pageSize
  let consumed := offset + page.length
  let bookmark :=
    if consumed < rows.length then String.ofList (Decimal.digitChars consumed) else ""
  (page, ⟨min page.length fetchedLimit, bookmark⟩)

/-- Opens a cursor over one page of the rows of a query, if the bookmark is an offset. -/
def openPage (pageSize : Nat) (bookmark : String) (rows : List Row) :
    Call Memory (Cursor Row × PageInfo) := fun m =>
  match pageOffset bookmark with
  | .error error => (.error error, m)
  | .ok offset =>
    let (page, info) := pageAt pageSize offset rows
    let (cursor, m) := m.openCursor page
    (.ok (cursor, info), m)

def queryPage (text : String) (pageSize : Nat) (bookmark : String) :
    Call Memory (Cursor Row × PageInfo) :=
  runQuery text fun _ rows => openPage pageSize bookmark rows

/-! ### Document queries with a sort that may stop -/

/-- A call as one that never stops: it always gives an answer or a failure. -/
def unstopped {α : Type} (call : Call Memory α) : Call Memory (Option α) := fun m =>
  ((call m).1.map some, (call m).2)

/-- Runs a document query on the rows as a sort arranges them.  Where the sort stops, so
    does the call, with nothing opened. -/
def runQueryBy {α : Type} (sort : RowSort) (text : String)
    (body : DocumentQuery → List Row → Call Memory α) : Call Memory (Option α) := fun m =>
  if m.richQueries then
    reading (fun m =>
      match DocumentQuery.ofText text with
      | .error error => (.error error, m)
      | .ok query =>
        match query.selectBy? sort m.documents with
        | none => (.ok none, m)
        | some rows => unstopped (body query rows) m) m
  else (.error (.unsupported "rich query"), m)

def queryBy (sort : RowSort) (text : String) : Call Memory (Option (Cursor Row)) :=
  runQueryBy sort text openRows

def queryPageBy (sort : RowSort) (text : String) (pageSize : Nat) (bookmark : String) :
    Call Memory (Option (Cursor Row × PageInfo)) :=
  runQueryBy sort text fun _ rows => openPage pageSize bookmark rows

/-! ### Cursors -/

/-- An open cursor may be read, a closed one not. -/
def touch (cursor : Nat) : Call Memory Unit := fun m =>
  if cursor ∈ m.openCursors then (.ok (), m) else (.error .iteratorClosed, m)

/-- A cursor is closed once. -/
def close (cursor : Nat) : Call Memory Unit := fun m =>
  if cursor ∈ m.openCursors then
    (.ok (), { m with openCursors := m.openCursors.erase cursor })
  else (.error .iteratorClosed, m)

/-- The ledger in memory as an accessor; the rows of a query are put in order by insertion. -/
def accessor : Accessor Memory where
  read := read
  write := write
  delete := delete
  scan := scan
  scanPage := scanPage
  history := historyOf
  touch := touch
  close := close
  query := query
  queryPage := queryPage

end Memory

end EntityStore
