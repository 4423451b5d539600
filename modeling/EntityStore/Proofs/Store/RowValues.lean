/-
  EntityStore/Proofs/Store/RowValues.lean
  =======================================
  **Scans for values answer the values of the rows that they read.**

  Listings, pages and queries differ in the rows that their cursor gives.  While no failure
  is pending, these are rows that the ledger holds (`Opening.opens`), and the answer
  is their values, one by one, or the failure of the first that has none
  (`ValueScan.values_eq`).
-/
import EntityStore.Proofs.Ledger.Queries
import EntityStore.Proofs.Query.Sorting
import EntityStore.Proofs.Store.Effect

namespace EntityStore

open EntityStore.Action

variable {S : Store Memory} {m : Memory} {α β γ δ ρ : Type}

/-! ### Cursors over stored rows -/

namespace Memory

variable {pageSize : Nat} {text bookmark objectType : String} {attributes : List String}

/-- A call on a ledger has opened a cursor over rows, each of which is held there, and changed
    nothing else. -/
def Opens (m : Memory) (holds : ρ → Prop) (cursor : Cursor ρ) (next : Memory) : Prop :=
  ∃ rows, cursor = ⟨m.nextCursor, rows.map .ok⟩ ∧ next = (m.openCursor rows).2 ∧
    ∀ row ∈ rows, holds row

/-- The row is an entry of a partition. -/
def HoldsRow (m : Memory) (p : Partition) (row : Row) : Prop :=
  m.stored? p row.key = some row.payload

theorem opens_of_isQuiet {holds : ρ → Prop} {rows : List ρ} (hm : m.IsQuiet)
    (h : ∀ row ∈ rows, holds row) :
    m.Opens holds (m.openCursor rows).1 (m.openCursor rows).2 :=
  ⟨rows, openCursor_of_isQuiet hm rows, rfl, h⟩

theorem holdsRow_of_mem_rowsBetween {p : Partition} {start stop : String} :
    ∀ row ∈ m.rowsBetween p start stop, m.HoldsRow p row :=
  fun _ hrow => (mem_rowsBetween.mp hrow).1

theorem holdsRow_of_mem_firstPage {rows : List Row} (h : ∀ row ∈ rows, m.HoldsRow .world row) :
    ∀ row ∈ (firstPage pageSize rows).1, m.HoldsRow .world row := by
  intro row hrow
  unfold firstPage at hrow
  split at hrow
  · exact h row hrow
  · exact h row (List.mem_of_mem_take hrow)

theorem opens_scan (hm : m.IsQuiet) {p : Partition} {cursor : Cursor Row}
    (h : (scan p objectType attributes m).1 = .ok cursor) :
    m.Opens (m.HoldsRow p) cursor (scan p objectType attributes m).2 := by
  unfold scan reading at h ⊢
  simp only [hm.reads] at h ⊢
  split at h
  · cases h
  · next start stop hrange =>
    cases h
    exact opens_of_isQuiet hm holdsRow_of_mem_rowsBetween

theorem opens_scanPage (hm : m.IsQuiet) {opened : Cursor Row × PageInfo}
    (h : (scanPage objectType attributes pageSize bookmark m).1 = .ok opened) :
    m.Opens (m.HoldsRow .world) opened.1
      (scanPage objectType attributes pageSize bookmark m).2 := by
  unfold scanPage reading at h ⊢
  simp only [hm.reads] at h ⊢
  split at h
  · cases h
  · next start stop hrange =>
    split at h
    · cases h
    · next first hfirst =>
      cases h
      exact opens_of_isQuiet hm (holdsRow_of_mem_firstPage holdsRow_of_mem_rowsBetween)

theorem opens_historyOf (hm : m.IsQuiet) {key : String} {cursor : Cursor Modification}
    (h : (historyOf key m).1 = .ok cursor) :
    m.Opens (· ∈ m.log key) cursor (historyOf key m).2 := by
  unfold historyOf reading at h ⊢
  simp only [hm.reads] at h ⊢
  cases h
  exact opens_of_isQuiet hm fun _ hmodification => hmodification

theorem opens_query (hm : m.IsQuiet) {cursor : Cursor Row} (h : (query text m).1 = .ok cursor) :
    m.Opens (m.HoldsRow .world) cursor (query text m).2 := by
  unfold query at h ⊢
  obtain ⟨found, hfound⟩ := runQuery_eq_ok h
  rw [hfound] at h ⊢
  cases h
  refine opens_of_isQuiet hm fun row hrow => ?_
  split at hrow
  · exact (holdsObject_of_mem_select (List.mem_of_mem_take hrow)).1
  · exact (holdsObject_of_mem_select hrow).1

theorem opens_queryPage (hm : m.IsQuiet) {opened : Cursor Row × PageInfo}
    (h : (queryPage text pageSize bookmark m).1 = .ok opened) :
    m.Opens (m.HoldsRow .world) opened.1 (queryPage text pageSize bookmark m).2 := by
  unfold queryPage at h ⊢
  obtain ⟨found, hfound⟩ := runQuery_eq_ok h
  rw [hfound] at h ⊢
  unfold openPage at h ⊢
  cases hoffset : pageOffset bookmark with
  | error error =>
    simp only [hoffset] at h
    cases h
  | ok offset =>
    simp only [hoffset] at h ⊢
    cases h
    refine opens_of_isQuiet hm fun row hrow => ?_
    unfold pageAt at hrow
    split at hrow
    · exact (holdsObject_of_mem_select (List.mem_of_mem_drop hrow)).1
    · exact (holdsObject_of_mem_select (List.mem_of_mem_drop (List.mem_of_mem_take hrow))).1

end Memory

/-! ### What a call finds -/

namespace Opening

/-- What a call on a ledger in memory finds: the rows of the cursor that it opens. -/
def found (m : Memory) (opening : Opening γ ρ) : Except StoreError (List ρ) := do
  let opened ← (opening.call Memory.accessor m).1.mapError .ledger
  (opening.cursor opened).rows.mapM fun row => row.mapError .ledger

/-- The ledger holds a row where a call looks for rows. -/
def Holds (m : Memory) : Opening γ ρ → ρ → Prop
  | scan p _ _ => m.HoldsRow p
  | scanPage .. | query .. | queryPage .. => m.HoldsRow .world
  | history key => (· ∈ m.log key)

/-- **A call that succeeds on a quiet ledger opens a cursor over rows that the ledger
    holds.** -/
theorem opens (hm : m.IsQuiet) (opening : Opening γ ρ) {opened : γ}
    (hopen : (opening.call Memory.accessor m).1 = .ok opened) :
    m.Opens (opening.Holds m) (opening.cursor opened) (opening.call Memory.accessor m).2 := by
  cases opening with
  | scan p objectType attributes => exact Memory.opens_scan hm hopen
  | scanPage objectType attributes pageSize bookmark => exact Memory.opens_scanPage hm hopen
  | history key => exact Memory.opens_historyOf hm hopen
  | query text => exact Memory.opens_query hm hopen
  | queryPage text pageSize bookmark => exact Memory.opens_queryPage hm hopen

theorem found_eq {opening : Opening γ ρ} {opened : γ} {rows : List ρ}
    (hopen : (opening.call Memory.accessor m).1 = .ok opened)
    (hrows : opening.cursor opened = ⟨m.nextCursor, rows.map .ok⟩) :
    opening.found m = .ok rows := by
  rw [found, hopen]
  show (opening.cursor opened).rows.mapM _ = _
  rw [hrows, List.mapM_map]
  exact (mapM_eq_ok_map fun _ _ => rfl).trans (congrArg Except.ok (List.map_id _))

theorem holds_of_found (hm : m.IsQuiet) {opening : Opening γ ρ} {rows : List ρ}
    (hfound : opening.found m = .ok rows) : ∀ row ∈ rows, opening.Holds m row := by
  obtain ⟨opened, hopen, -⟩ := bind_eq_ok_iff.mp hfound
  rw [mapError_eq_ok_iff] at hopen
  obtain ⟨held, hcursor, -, hheld⟩ := opening.opens hm hopen
  rw [found_eq hopen hcursor] at hfound
  cases hfound
  exact hheld

/-- The rows of a range of keys. -/
theorem found_scan (hm : m.IsQuiet) (p : Partition) {objectType : String}
    {attributes : List String}
    (hplain : ∀ part ∈ objectType :: attributes, Composite.IsPlain part) :
    (Opening.scan p objectType attributes).found m =
      .ok (m.rowsBetween p (Composite.rangeStart objectType attributes)
        (Composite.rangeStop objectType attributes)) := by
  have hscan := Memory.scan_of_isQuiet hm p (Composite.range_eq hplain)
  exact found_eq (congrArg Prod.fst hscan) rfl

end Opening

/-- A scan that needs no payload from elsewhere answers what it makes of the rows that its
    call finds, up to its limit. -/
theorem Scan.answer_found (hm : m.IsQuiet) (scan : Scan β) (op : Operation)
    (hplace : ∀ row, scan.place row = none) {items : β → List scan.α}
    (hitems : ∀ opened values, (scan.finish opened values).map items = .ok values) :
    ((scan.run Memory.accessor op).answer m).1.map items =
      (scan.opening.found m).map (Memory.upTo scan.limit) >>=
        List.mapM fun row => scan.make row [] := by
  rcases hcall : scan.opening.call Memory.accessor m with ⟨error | opened, next⟩
  · have hfound : scan.opening.found m = .error (.ledger error) := by
      rw [Opening.found, hcall]
      rfl
    have hopen : (call (scan.opening.call Memory.accessor)).answer m =
        (.error (.ledger error), next) := by
      rw [answer_call, hcall]
      rfl
    rw [Scan.run, answer_bind_of_error hopen, hfound]
    rfl
  · -- The call opens a cursor on rows that are all there, so the rows are read to the end.
    obtain ⟨rows, hrows, hnext, -⟩ := scan.opening.opens hm (congrArg Prod.fst hcall)
    have hopen : (call (scan.opening.call Memory.accessor)).answer m = (.ok opened, next) := by
      rw [answer_call, hcall]
      rfl
    have hcursor : m.nextCursor ∈ next.openCursors := by
      rw [hcall] at hnext
      rw [show next = _ from hnext]
      exact List.mem_cons_self
    rw [Scan.answer_run hplace hopen hrows hcursor,
      Opening.found_eq (congrArg Prod.fst hcall) hrows]
    show _ = (Memory.upTo scan.limit rows).mapM _
    cases (Memory.upTo scan.limit rows).mapM fun row => scan.make row [] with
    | error error => rfl
    | ok values => exact hitems opened values

/-! ### Scans for values -/

/-- The value of a row; the row's key is told when it has none. -/
def Store.readRow (S : Store Memory) (codec : Codec α) (row : Row) : Except StoreError α :=
  S.decodeRow codec row.key row.payload

/-- A scan for the values of rows, at a shape that is chosen with it: a listing, a page, or
    a query. -/
inductive ValueScan where
  | list (root : KeySource)
  | page (root : KeySource) (pageSize : Nat) (bookmark : String)
  | listPrivate (collection : String) (root : KeySource)
  | query (text : String) (limit : Nat)
  | queryPage (text : String) (pageSize : Nat) (bookmark : String)
  | built (builder : QueryBuilder)

namespace ValueScan

/-- The partition whose rows a scan reads. -/
def partition : ValueScan → Partition
  | listPrivate collection _ => .collection collection
  | list .. | page .. | query .. | queryPage .. | built .. => .world

/-- The rows that a scan reads. -/
def rows (S : Store Memory) (m : Memory) : ValueScan → Except StoreError (List Row)
  | list root => do
    let (objectType, attributes) ← S.listingPrefix root
    (Opening.scan .world objectType attributes).found m
  | page root pageSize bookmark => do
    let (objectType, attributes) ← S.listingPrefix root
    (Opening.scanPage objectType attributes pageSize bookmark).found m
  | listPrivate collection root => do
    let (objectType, attributes) ← S.listingPrefix root
    (Opening.scan (.collection collection) objectType attributes).found m
  | query text limit => ((Opening.query text).found m).map (List.take limit)
  | queryPage text pageSize bookmark => (Opening.queryPage text pageSize bookmark).found m
  | built builder => do
    let text ← builder.build
    ((Opening.query text).found m).map
      (List.take ((builder.limit.map UInt64.toNat).getD S.config.queryPageSize))

/-- The values that a scan answers. -/
def values (S : Store Memory) (codec : Codec α) (m : Memory) :
    ValueScan → Except StoreError (List α)
  | list root => ((S.list root codec).answer m).1
  | page root pageSize bookmark =>
    ((S.paginate root codec pageSize bookmark).answer m).1.map Page.items
  | listPrivate collection root =>
    ((S.listPrivateWith collection .privateIterator root codec).answer m).1
  | query text limit => ((S.richQuery text limit codec).answer m).1
  | queryPage text pageSize bookmark =>
    ((S.richQueryPage text pageSize bookmark codec).answer m).1.map Page.items
  | built builder => ((S.query builder codec).answer m).1

/-- What a scan answers that makes rows their values. -/
theorem answer_rowScan (hm : m.IsQuiet) (codec : Codec α) (op : Operation) (opening : Opening γ Row)
    {finish : γ → List α → β} {items : β → List α}
    (hitems : ∀ opened values, items (finish opened values) = values) (target : String)
    (limit : Option Nat) (collection : Option String) {rows : Except StoreError (List Row)}
    (hrows : (opening.found m).map (Memory.upTo limit) = rows) :
    ((Scan.run Memory.accessor op
      { S.rowScan codec opening finish target with limit, collection }).answer m).1.map items =
        rows >>= List.mapM (S.readRow codec) := by
  rw [← hrows]
  exact Scan.answer_found hm { S.rowScan codec opening finish target with limit, collection } op
    (fun _ => rfl) fun opened values => congrArg Except.ok (hitems opened values)

theorem answer_scanning (arguments : Except StoreError δ) {op : Operation} {scan : δ → Scan β}
    {items : β → List α} {rows : δ → Except StoreError (List Row)}
    {read : Row → Except StoreError α}
    (h : ∀ found, (((scan found).run Memory.accessor op).answer m).1.map items =
      rows found >>= List.mapM read) :
    ((scanning Memory.accessor op (arguments.map scan)).answer m).1.map items =
      (arguments >>= rows) >>= List.mapM read := by
  unfold scanning
  rw [answer_observe]
  cases arguments with
  | error error => rfl
  | ok found => exact h found

/-- **A scan for values answers the values of the rows that it reads**, or fails with the
    first that has none. -/
theorem values_eq (hS : S.ledger = Memory.accessor) (hm : m.IsQuiet) (codec : Codec α)
    (scan : ValueScan) :
    scan.values S codec m = scan.rows S m >>= List.mapM (S.readRow codec) := by
  -- Only pages give more than values; for the other scans the values are the whole answer.
  have hid (answer : Except StoreError (List α)) : answer.map id = answer := by
    cases answer <;> rfl
  have hall (found : Except StoreError (List Row)) : found.map (Memory.upTo none) = found := by
    cases found <;> rfl
  cases scan with
  | list root =>
    have hperform : S.list root codec = _ := (ScanRequest.list root codec).perform_eq S
    rw [values, ← hid (Prod.fst _), hperform, hS]
    exact answer_scanning (S.listingPrefix root) fun (_, _) =>
      answer_rowScan hm codec .list _ (fun _ _ => rfl) _ none none (hall _)
  | page root pageSize bookmark =>
    have hperform : S.paginate root codec pageSize bookmark = _ :=
      (ScanRequest.paginate root codec pageSize bookmark).perform_eq S
    rw [values, hperform, hS]
    exact answer_scanning (S.listingPrefix root) fun (_, _) =>
      answer_rowScan hm codec .paginate _ (fun _ _ => rfl) _ none none (hall _)
  | listPrivate collection root =>
    have hperform : S.listPrivateWith collection .privateIterator root codec = _ :=
      (ScanRequest.listPrivate collection .privateIterator root codec).perform_eq S
    rw [values, ← hid (Prod.fst _), hperform, hS]
    exact answer_scanning (S.listingPrefix root) fun (_, _) =>
      answer_rowScan hm codec .list _ (fun _ _ => rfl) _ none (some collection) (hall _)
  | query text limit =>
    have hperform : S.richQuery text limit codec = _ :=
      (ScanRequest.richQuery text limit codec).perform_eq S
    rw [values, ← hid (Prod.fst _), hperform, hS]
    unfold scanning
    rw [answer_observe]
    exact answer_rowScan hm codec .query _ (fun _ _ => rfl) _ (some limit) none rfl
  | queryPage text pageSize bookmark =>
    have hperform : S.richQueryPage text pageSize bookmark codec = _ :=
      (ScanRequest.richQueryPage text pageSize bookmark codec).perform_eq S
    rw [values, hperform, hS]
    unfold scanning
    rw [answer_observe]
    exact answer_rowScan hm codec .query _ (fun _ _ => rfl) _ none none (hall _)
  | built builder =>
    have hperform : S.query builder codec = _ := (ScanRequest.query builder codec).perform_eq S
    rw [values, ← hid (Prod.fst _), hperform, hS]
    exact answer_scanning builder.build fun _ =>
      answer_rowScan hm codec .query _ (fun _ _ => rfl) _ (some _) none rfl

/-- The rows that a scan reads are stored. -/
theorem stored_of_mem_rows (hm : m.IsQuiet) {scan : ValueScan} {found : List Row}
    (hfound : scan.rows S m = .ok found) {row : Row} (hrow : row ∈ found) :
    m.stored? scan.partition row.key = some row.payload := by
  cases scan with
  | list _ | page _ _ _ | listPrivate _ _ =>
    obtain ⟨_, -, hfound⟩ := bind_eq_ok_iff.mp hfound
    exact Opening.holds_of_found hm hfound row hrow
  | query text limit =>
    obtain ⟨all, hall, rfl⟩ := map_eq_ok_iff.mp hfound
    exact Opening.holds_of_found hm hall row (List.mem_of_mem_take hrow)
  | queryPage text pageSize bookmark => exact Opening.holds_of_found hm hfound row hrow
  | built builder =>
    obtain ⟨_, -, hfound⟩ := bind_eq_ok_iff.mp hfound
    obtain ⟨all, hall, rfl⟩ := map_eq_ok_iff.mp hfound
    exact Opening.holds_of_found hm hall row (List.mem_of_mem_take hrow)

end ValueScan

end EntityStore
