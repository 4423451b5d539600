/-
  EntityStore/Proofs/Store/Cursor.lean
  ====================================
  **Cursors are released, and nothing is returned in part.**

  A request that reads a cursor is watched on a ledger that keeps a record.  Whatever
  fails on the way, the record shows that the cursor was closed once and never read
  behind that (`Released`); if the request succeeds, it shows no failure, and the
  answer is made of all rows in order (`ScanRequest.Returns`).  So a request leaves the
  ledger in memory with the cursors open that were open before.
-/
import EntityStore.Proofs.Ledger.Reading
import EntityStore.Proofs.Store.Run
import EntityStore.Proofs.Store.Scan

namespace EntityStore

open EntityStore.Action

variable {σ α β ρ : Type}

/-! ### What a record may show of cursors -/

/-- A call that is made while a cursor is open: a read of it, or a point read. -/
inductive LedgerCall.WhileOpen (cursor : Nat) : LedgerCall → Prop
  | touched (answer : Except LedgerError Unit) : WhileOpen cursor (.touched cursor answer)
  | read (p : Partition) (key : String) (answer : Except LedgerError Bytes) :
    WhileOpen cursor (.read p key answer)

/-- No cursor was opened, or the ledger refused to open one, or one was opened, read for
    a while, and closed. -/
inductive Released : List LedgerCall → Prop
  | unopened : Released []
  | refused (error : LedgerError) : Released [.opened (.error error)]
  | closed (cursor : Nat) (body : List LedgerCall) (answer : Except LedgerError Unit)
    (h : ∀ call ∈ body, call.WhileOpen cursor) :
    Released (.opened (.ok cursor) :: (body ++ [.closed cursor answer]))

/-- The rows that are read under a limit. -/
def takeRows (limit : Option Nat) (rows : List ρ) : List ρ :=
  match limit with
  | some limit => rows.take limit
  | none => rows

/-! ### What a request returns -/

/-- Rows without a failure among them, made values one by one. -/
def Store.Decodes (S : Store σ) (codec : Codec α) (rows : List (Except LedgerError Row))
    (values : List α) : Prop :=
  ∃ found : List Row, rows = found.map .ok ∧
    found.mapM (fun row => S.decodeRow codec row.key row.payload) = .ok values

/-- What a request returns, in terms of the cursor that the ledger opens for it and, for
    a private listing along public keys, of the payloads that it fetched. -/
def ScanRequest.Returns (S : Store σ) (state : σ) (calls : List LedgerCall) :
    ScanRequest β → β → Prop
  | .list source codec, values =>
    ∃ objectType attributes cursor, S.listingPrefix source = .ok (objectType, attributes) ∧
      (S.ledger.scan .world objectType attributes state).1 = .ok cursor ∧
      S.Decodes codec cursor.rows values
  | .paginate source codec pageSize bookmark, page =>
    ∃ objectType attributes cursor info,
      S.listingPrefix source = .ok (objectType, attributes) ∧
      (S.ledger.scanPage objectType attributes pageSize bookmark state).1 = .ok (cursor, info) ∧
      S.Decodes codec cursor.rows page.items ∧
      page.bookmark = info.bookmark ∧ page.fetched = info.fetched
  | .listPrivate collection .privateIterator source codec, values =>
    ∃ objectType attributes cursor, S.listingPrefix source = .ok (objectType, attributes) ∧
      (S.ledger.scan (.collection collection) objectType attributes state).1 = .ok cursor ∧
      S.Decodes codec cursor.rows values
  | .listPrivate collection .publicKeys source codec, values =>
    ∃ objectType attributes cursor, S.listingPrefix source = .ok (objectType, attributes) ∧
      (S.ledger.scan .world objectType attributes state).1 = .ok cursor ∧
      ∃ found : List (Row × Bytes), cursor.rows = found.map (fun entry => .ok entry.1) ∧
        fetches calls = found.map (fun entry => (.collection collection, entry.1.key, entry.2)) ∧
        (∀ entry ∈ found, entry.2 ≠ []) ∧
        found.mapM (fun entry => S.decodeRow codec entry.1.key entry.2) = .ok values
  | .history source codec, entries =>
    ∃ key cursor, S.resolve source = .ok key ∧
      (S.ledger.history key.encoded state).1 = .ok cursor ∧
      ∃ found : List Modification, cursor.rows = found.map .ok ∧
        found.mapM (fun m =>
          if m.payload = [] then .ok ⟨m.txId, m.timestamp, m.isDelete, none⟩
          else (S.decodeValue codec m.payload).map fun value =>
            ⟨m.txId, m.timestamp, m.isDelete, some value⟩) = .ok entries
  | .richQuery text limit codec, values =>
    ∃ cursor, (S.ledger.query text state).1 = .ok cursor ∧
      S.Decodes codec (cursor.rows.take limit) values
  | .richQueryPage text pageSize bookmark codec, page =>
    ∃ cursor info, (S.ledger.queryPage text pageSize bookmark state).1 = .ok (cursor, info) ∧
      S.Decodes codec cursor.rows page.items ∧
      page.bookmark = info.bookmark ∧ page.fetched = info.fetched
  | .query builder codec, values =>
    ∃ text cursor, builder.build = .ok text ∧ (S.ledger.query text state).1 = .ok cursor ∧
      S.Decodes codec
        (cursor.rows.take ((builder.limit.map UInt64.toNat).getD S.config.queryPageSize)) values
  | .keyRefs schema index, refs =>
    ∃ objectType attributes cursor,
      S.listingPrefix (.given ⟨[Store.keyRefNamespace, schema, index]⟩) =
        .ok (objectType, attributes) ∧
      (S.ledger.scan .world objectType attributes state).1 = .ok cursor ∧
      ∃ found : List Row, cursor.rows = found.map .ok ∧
        found.mapM (fun row => do
          let key ← S.decodeRow Codec.key row.key row.payload
          S.keyRefOfRow schema index (row.key, key)) = .ok refs

/-! ### Watching the reading of rows -/

namespace Scan

/-- Rows without a failure among them, made values one by one, from the payloads that
    were fetched for them. -/
def Gathers (scan : Scan β) (rows : List (Except LedgerError scan.ρ)) (calls : List LedgerCall)
    (values : List scan.α) : Prop :=
  ∃ found : List (scan.ρ × Bytes), rows = found.map (fun entry => .ok entry.1) ∧
    fetches calls = found.filterMap
      (fun entry => (scan.place entry.1).map fun (p, key) => (p, key, entry.2)) ∧
    found.mapM (fun entry => scan.make entry.1 entry.2) = .ok values

section

variable {scan : Scan β}

theorem gathers_nil {calls : List LedgerCall} (h : fetches calls = []) :
    scan.Gathers [] calls [] := ⟨[], rfl, h, rfl⟩

theorem gathers_append {rows behind : List (Except LedgerError scan.ρ)}
    {calls more : List LedgerCall} {values others : List scan.α}
    (h : scan.Gathers rows calls values) (hbehind : scan.Gathers behind more others) :
    scan.Gathers (rows ++ behind) (calls ++ more) (values ++ others) := by
  obtain ⟨found, hrows, hfetched, hvalues⟩ := h
  obtain ⟨later, hlater, hfetched', hothers⟩ := hbehind
  refine ⟨found ++ later, ?_, ?_, ?_⟩
  · rw [hrows, hlater, List.map_append]
  · rw [fetches_append, hfetched, hfetched', List.filterMap_append]
  · rw [List.mapM_append, hvalues, hothers]
    rfl

end

variable (A : Accessor σ) (op : Operation) (scan : Scan β)

theorem records_each (cursor : Nat) (row : scan.ρ) :
    Records (LedgerCall.WhileOpen cursor)
      (fun calls value => scan.Gathers [.ok row] calls [value]) (scan.each A.recorded row) := by
  -- the row with the payload that was read for it, if there is one, and what was made of both
  have gathers {calls : List LedgerCall} {payload : Bytes} {value : scan.α}
      (hfetched : fetches calls =
        ((scan.place row).map fun (p, key) => (p, key, payload)).toList)
      (hvalue : scan.make row payload = .ok value) : scan.Gathers [.ok row] calls [value] := by
    refine ⟨[(row, payload)], rfl, ?_, ?_⟩
    · rw [hfetched]
      cases hplace : scan.place row <;> simp [hplace]
    · rw [List.mapM_cons, hvalue]
      rfl
  unfold each
  split
  · next hplace =>
    refine (records_ofExcept _).imp ?_
    rintro calls value ⟨rfl, hvalue⟩
    exact gathers (by rw [hplace]; rfl) hvalue
  · next p key hplace =>
    -- a payload under the row's place is read while the cursor is open
    have hread : Records (LedgerCall.WhileOpen cursor)
        (fun calls payload => calls = [.read p key (.ok payload)])
        (call (A.recorded.read p key)) :=
      records_call (A.read p key) (fun answer => .read p key answer) fun payload => ⟨payload, rfl⟩
    refine (records_bind hread fun payload => records_ofExcept _).imp ?_
    rintro calls value ⟨payload, before, behind, rfl, rfl, rfl, hvalue⟩
    exact gathers (by rw [hplace]; rfl) hvalue

theorem records_rows (cursor : Nat) (limit : Option Nat)
    (rows : List (Except LedgerError scan.ρ)) :
    Records (LedgerCall.WhileOpen cursor)
      (fun calls values => scan.Gathers (takeRows limit rows) calls values)
      (readRows A.recorded cursor (scan.each A.recorded) limit rows) := by
  have htouch : Records (LedgerCall.WhileOpen cursor)
      (fun calls value => calls = [.touched cursor (.ok value)])
      (call (A.recorded.touch cursor)) :=
    records_call (A.touch cursor) (fun answer => .touched answer) fun _ => rfl
  -- along the loop: what was gathered of the first row goes in front of the rest
  fun_induction readRows A.recorded cursor (scan.each A.recorded) limit rows with
  | case1 =>
    refine (records_pure []).imp ?_
    rintro calls values ⟨rfl, rfl⟩
    exact gathers_nil rfl
  | case2 limit hlimit =>
    refine (records_bind htouch fun _ => records_pure []).imp ?_
    rintro calls values ⟨_, before, behind, rfl, rfl, rfl, rfl⟩
    have hnone : takeRows limit ([] : List (Except LedgerError scan.ρ)) = [] := by
      cases limit <;> simp [takeRows]
    rw [hnone]
    exact gathers_nil rfl
  | case3 limit error =>
    have hfail : Records (LedgerCall.WhileOpen cursor) (fun _ _ => False)
        (fail (.ledger error) : Action (Recorded σ) (List scan.α)) := records_fail _
    refine (records_bind htouch fun _ => hfail).imp ?_
    rintro calls values ⟨_, _, _, _, _, hfalse⟩
    exact hfalse.elim
  | case4 limit row rest hlimit ih =>
    refine (records_bind htouch fun _ => records_bind (records_each A scan cursor row) fun value =>
      records_bind ih fun values => records_pure (value :: values)).imp ?_
    rintro calls result
      ⟨_, _, _, rfl, rfl, value, here, _, rfl, hvalue, values, later, _, rfl, hvalues, rfl, rfl⟩
    have htaken : takeRows limit (.ok row :: rest) =
        .ok row :: takeRows (limit.map (· - 1)) rest := by
      rcases limit with _ | _ | limit
      · rfl
      · exact absurd rfl hlimit
      · rfl
    have htouched : scan.Gathers [] [.touched cursor (.ok ())] [] := gathers_nil rfl
    rw [htaken, List.append_nil]
    exact gathers_append htouched (gathers_append hvalue hvalues)

/-- The value that a scan returns, in terms of the cursor that the ledger opens for it. -/
def Finishes (A : Accessor σ) (state : σ) (calls : List LedgerCall) (scan : Scan β) (value : β) :
    Prop :=
  ∃ opened values, (scan.opening.call A state).1 = .ok opened ∧
    scan.Gathers (takeRows scan.limit (scan.opening.cursor opened).rows) calls values ∧
    scan.finish opened values = .ok value

/-- What is done behind the opening of the cursor. -/
def collect (opened : scan.γ) : Action σ β := do
  let values ← drain A (scan.opening.cursor opened) scan.limit (scan.each A)
  emit (.scan op scan.target scan.collection values.length)
  ofExcept (scan.finish opened values)

theorem ledger_collect (opened : scan.γ) (state : σ) :
    ((scan.collect A op opened).answer state).2 =
      ((drain A (scan.opening.cursor opened) scan.limit (scan.each A)).answer state).2 := by
  rw [collect, answer_bind]
  rcases (drain A (scan.opening.cursor opened) scan.limit (scan.each A)).answer state with
    ⟨error | values, next⟩
  · rfl
  · rfl

theorem collect_eq_ok {opened : scan.γ} {state : σ} {value : β}
    (h : ((scan.collect A op opened).answer state).1 = .ok value) :
    ∃ values, ((drain A (scan.opening.cursor opened) scan.limit (scan.each A)).answer state).1 =
      .ok values ∧ scan.finish opened values = .ok value := by
  rw [collect, answer_bind] at h
  rcases hdrain : (drain A (scan.opening.cursor opened) scan.limit (scan.each A)).answer state with
    ⟨error | values, next⟩ <;> rw [hdrain] at h
  · cases h
  · exact ⟨values, rfl, h⟩

/-- Behind its opening a cursor is read for a while and closed. -/
theorem records_collect (opened : scan.γ) (state : Recorded σ) :
    ∃ body answer, ((scan.collect A.recorded op opened).answer state).2.calls =
        state.calls ++ (body ++ [.closed (scan.opening.cursor opened).id answer]) ∧
      (∀ call ∈ body, call.WhileOpen (scan.opening.cursor opened).id) ∧
      ∀ value, ((scan.collect A.recorded op opened).answer state).1 = .ok value →
        (∀ call ∈ body, call.Succeeded) ∧ answer = .ok () ∧
        ∃ values, scan.Gathers (takeRows scan.limit (scan.opening.cursor opened).rows) body values ∧
          scan.finish opened values = .ok value := by
  obtain ⟨body, hbody, hkind, hgives⟩ := records_rows A scan (scan.opening.cursor opened).id
    scan.limit (scan.opening.cursor opened).rows state
  let next := ((readRows A.recorded (scan.opening.cursor opened).id (scan.each A.recorded)
    scan.limit (scan.opening.cursor opened).rows).answer state).2
  refine ⟨body, (A.close (scan.opening.cursor opened).id next.inner).1, ?_, hkind, ?_⟩
  · -- closing comes last, whether the rows were read to the end or not
    rw [ledger_collect, drain, ledger_closing, ← List.append_assoc, ← hbody]
    rfl
  · intro value hvalue
    obtain ⟨values, hvalues, hfinish⟩ := collect_eq_ok A.recorded op scan hvalue
    obtain ⟨hrows, hclosed⟩ := closing_eq_ok_iff.mp hvalues
    obtain ⟨hsucceeded, hgathers⟩ := hgives values hrows
    exact ⟨hsucceeded, hclosed, values, hgathers, hfinish⟩

/-- The opening of the cursor comes first, and the record keeps its answer. -/
theorem answer_run_recorded (state : Recorded σ) :
    (scan.run A.recorded op).answer state =
      match scan.opening.call A state.inner with
      | (.error error, next) =>
        (.error (.ledger error), ⟨next, state.calls ++ [.opened (.error error)]⟩)
      | (.ok opened, next) =>
        (scan.collect A.recorded op opened).answer
          ⟨next, state.calls ++ [.opened (.ok (scan.opening.cursor opened).id)]⟩ := by
  have hrun : scan.run A.recorded op =
      Action.call (scan.opening.call A.recorded) >>= scan.collect A.recorded op := rfl
  rw [hrun, answer_bind, Opening.call_recorded, answer_call, Recorded.noting]
  rcases scan.opening.call A state.inner with ⟨error | opened, next⟩ <;> rfl

/-- **A scan releases its cursor**, and if it succeeds, every call did and the value is
    made of all rows. -/
theorem run_released (state : Recorded σ) :
    ∃ calls, ((scan.run A.recorded op).answer state).2.calls = state.calls ++ calls ∧
      Released calls ∧
      ∀ value, ((scan.run A.recorded op).answer state).1 = .ok value →
        (∀ call ∈ calls, call.Succeeded) ∧ scan.Finishes A state.inner calls value := by
  rw [answer_run_recorded]
  rcases hanswer : scan.opening.call A state.inner with ⟨error | opened, next⟩
  · exact ⟨[.opened (.error error)], rfl, .refused error, nofun⟩
  · obtain ⟨body, answer, hcalls, hkind, hgives⟩ := records_collect A op scan opened
      ⟨next, state.calls ++ [.opened (.ok (scan.opening.cursor opened).id)]⟩
    refine ⟨.opened (.ok (scan.opening.cursor opened).id) ::
      (body ++ [.closed (scan.opening.cursor opened).id answer]),
      hcalls.trans (List.append_assoc _ _ _), .closed _ body answer hkind, ?_⟩
    intro value hvalue
    obtain ⟨hsucceeded, rfl, values, ⟨found, hrows, hfetched, hvalues⟩, hfinish⟩ :=
      hgives value hvalue
    constructor
    · intro call hcall
      rcases List.mem_cons.mp hcall with rfl | hbehind
      · exact ⟨_, rfl⟩
      · rcases List.mem_append.mp hbehind with hbody | hclosed
        · exact hsucceeded call hbody
        · rw [List.mem_singleton.mp hclosed]
          rfl
    · refine ⟨opened, values, congrArg Prod.fst hanswer, ⟨found, hrows, ?_, hvalues⟩, hfinish⟩
      -- opening and closing fetch nothing
      show fetches (body ++ [.closed _ (.ok ())]) = _
      rw [fetches_append, hfetched]
      exact List.append_nil _

/-- Whatever comes of it, a scan asks the ledger to open a cursor. -/
theorem run_opens (state : Recorded σ) :
    ∃ answer behind, ((scan.run A.recorded op).answer state).2.calls =
      state.calls ++ .opened answer :: behind := by
  rw [answer_run_recorded]
  rcases scan.opening.call A state.inner with ⟨error | opened, next⟩
  · exact ⟨.error error, [], rfl⟩
  · obtain ⟨body, answer, hcalls, -, -⟩ := records_collect A op scan opened
      ⟨next, state.calls ++ [.opened (.ok (scan.opening.cursor opened).id)]⟩
    exact ⟨_, body ++ [.closed (scan.opening.cursor opened).id answer],
      hcalls.trans (List.append_assoc _ _ _)⟩

end Scan

/-! ### Requests -/

namespace ScanRequest

variable (S : Store σ)

theorem perform_released (request : ScanRequest β) (state : Recorded σ) :
    ∃ calls, ((request.perform S.recorded).answer state).2.calls = state.calls ++ calls ∧
      Released calls ∧
      ∀ value, ((request.perform S.recorded).answer state).1 = .ok value →
        (∀ call ∈ calls, call.Succeeded) ∧
        ∃ scan, request.scan S = .ok scan ∧ scan.Finishes S.ledger state.inner calls value := by
  rw [perform_eq, scan_recorded]
  unfold scanning
  rw [answer_observe]
  rcases hscan : request.scan S with error | scan
  · exact ⟨[], (List.append_nil _).symm, .unopened, nofun⟩
  · obtain ⟨calls, hcalls, hreleased, hgives⟩ := scan.run_released S.ledger request.op state
    refine ⟨calls, hcalls, hreleased, ?_⟩
    intro value hvalue
    obtain ⟨hsucceeded, hfinishes⟩ := hgives value hvalue
    exact ⟨hsucceeded, scan, rfl, hfinishes⟩

theorem found_of_gathers {make : ρ → Except StoreError α} {rows : List (Except LedgerError ρ)}
    {values : List α} {found : List (ρ × Bytes)} (hrows : rows = found.map fun entry => .ok entry.1)
    (hvalues : found.mapM (fun entry => make entry.1) = .ok values) :
    ∃ found : List ρ, rows = found.map .ok ∧ found.mapM make = .ok values := by
  refine ⟨found.map Prod.fst, ?_, ?_⟩
  · rw [hrows, List.map_map]
    rfl
  · rw [List.mapM_map]
    exact hvalues

/-- A mutation has a value exactly if its payload is not empty. -/
theorem value_of_historyEntry {key : ResolvedKey} {codec : Codec α} {m : Modification}
    {entry : HistoryEntry α} (h : S.historyEntry key codec m = .ok entry) :
    (if m.payload = [] then .ok ⟨m.txId, m.timestamp, m.isDelete, none⟩
      else (S.decodeValue codec m.payload).map fun value =>
        ⟨m.txId, m.timestamp, m.isDelete, some value⟩ : Except StoreError (HistoryEntry α)) =
      .ok entry := by
  unfold Store.historyEntry at h
  by_cases hempty : m.payload = []
  · simpa [hempty] using h
  · rw [if_neg (by simpa using hempty)] at h
    rw [if_neg hempty]
    cases hvalue : S.decodeValue codec m.payload with
    | ok value =>
      rw [hvalue] at h
      exact h
    | error error =>
      rw [hvalue] at h
      cases h

/-- A row of the private values under public keys has a payload, and is decoded from it. -/
theorem value_of_privateRow {collection objectType : String} {attributes : List String}
    {codec : Codec α} {row : Row} {payload : Bytes} {value : α}
    (h : (S.privateScan collection codec objectType attributes .publicKeys).make row payload =
      .ok value) : payload ≠ [] ∧ S.decodeRow codec row.key payload = .ok value := by
  simp only [Store.privateScan] at h
  split at h
  · cases h
  · next hempty => exact ⟨by simpa using hempty, h⟩

/-- **What a scan finishes with is what its request returns.** -/
theorem returns_of_finishes {request : ScanRequest β} {scan : Scan β} {state : σ}
    {calls : List LedgerCall} {value : β} (hscan : request.scan S = .ok scan)
    (h : scan.Finishes S.ledger state calls value) : request.Returns S state calls value := by
  -- `found` pairs each row with the payload read for it, in the order of the rows
  obtain ⟨opened, values, hopened, ⟨found, hrows, hfetched, hvalues⟩, hfinish⟩ := h
  -- each scan names the prefix it opened, and its rows are decoded as the request says
  cases request with
  | list source codec =>
    obtain ⟨⟨objectType, attributes⟩, hprefix, rfl⟩ := map_eq_ok_iff.mp hscan
    cases hfinish
    exact ⟨objectType, attributes, opened, hprefix, hopened, found_of_gathers hrows hvalues⟩
  | paginate source codec pageSize bookmark =>
    obtain ⟨⟨objectType, attributes⟩, hprefix, rfl⟩ := map_eq_ok_iff.mp hscan
    cases hfinish
    exact ⟨objectType, attributes, opened.1, opened.2, hprefix, hopened,
      found_of_gathers hrows hvalues, rfl, rfl⟩
  | listPrivate collection listing source codec =>
    obtain ⟨⟨objectType, attributes⟩, hprefix, rfl⟩ := map_eq_ok_iff.mp hscan
    cases listing with
    | privateIterator =>
      cases hfinish
      exact ⟨objectType, attributes, opened, hprefix, hopened, found_of_gathers hrows hvalues⟩
    | publicKeys =>
      cases hfinish
      -- here the payloads are not those of the rows, but were read under the rows' keys
      refine ⟨objectType, attributes, opened, hprefix, hopened, found, hrows, ?_, ?_, ?_⟩
      · rw [hfetched]
        exact congrFun List.filterMap_eq_map' found
      · intro entry hentry
        obtain ⟨value, hvalue⟩ := exists_ok_of_mapM hvalues entry hentry
        exact (value_of_privateRow S hvalue).1
      · refine mapM_eq_ok_of_imp ?_ hvalues
        intro entry value hvalue
        exact (value_of_privateRow S hvalue).2
  | history source codec =>
    obtain ⟨key, hkey, rfl⟩ := map_eq_ok_iff.mp hscan
    cases hfinish
    refine ⟨key, opened, hkey, hopened, found_of_gathers hrows ?_⟩
    refine mapM_eq_ok_of_imp ?_ hvalues
    intro entry result hresult
    exact value_of_historyEntry S hresult
  | richQuery text limit codec =>
    cases hscan
    cases hfinish
    exact ⟨opened, hopened, found_of_gathers hrows hvalues⟩
  | richQueryPage text pageSize bookmark codec =>
    cases hscan
    cases hfinish
    exact ⟨opened.1, opened.2, hopened, found_of_gathers hrows hvalues, rfl, rfl⟩
  | query builder codec =>
    obtain ⟨text, htext, rfl⟩ := map_eq_ok_iff.mp hscan
    cases hfinish
    exact ⟨text, opened, htext, hopened, found_of_gathers hrows hvalues⟩
  | keyRefs schema index =>
    obtain ⟨⟨objectType, attributes⟩, hprefix, rfl⟩ := map_eq_ok_iff.mp hscan
    refine ⟨objectType, attributes, opened, hprefix, hopened, found_of_gathers hrows ?_⟩
    -- the keys are decoded row by row and then made references; a reference comes of each row
    have hrefs := mapM_bind_eq_ok hvalues hfinish
    refine mapM_eq_ok_of_imp ?_ hrefs
    intro entry ref href
    obtain ⟨pair, hpair, href⟩ := bind_eq_ok_iff.mp href
    obtain ⟨key, hkey, rfl⟩ := map_eq_ok_iff.mp hpair
    exact bind_eq_ok_iff.mpr ⟨key, hkey, href⟩

end ScanRequest

/-! ### The cursors of a ledger in memory -/

theorem foldl_track_whileOpen {cursor : Nat} {body : List LedgerCall}
    (h : ∀ call ∈ body, call.WhileOpen cursor) (cursors : List Nat) :
    body.foldl LedgerCall.track cursors = cursors := by
  induction body with
  | nil => rfl
  | cons call rest ih =>
    obtain ⟨hcall, hrest⟩ := List.forall_mem_cons.mp h
    have hsame : LedgerCall.track cursors call = cursors := by cases hcall <;> rfl
    rw [List.foldl_cons, hsame, ih hrest]

theorem Released.foldl_track {calls : List LedgerCall} (h : Released calls) (cursors : List Nat) :
    calls.foldl LedgerCall.track cursors = cursors := by
  cases h with
  | unopened => rfl
  | refused error => rfl
  | closed cursor body answer hbody =>
    rw [List.foldl_cons, List.foldl_append, foldl_track_whileOpen hbody]
    exact List.erase_cons_head cursor cursors

/-! ### Every request -/

/-- **Cursors are released, and nothing is returned in part.**  On any ledger, watched or
    not, a request does the same; it closes the cursor that it opened once, and does not
    read it behind that.  If it succeeds, so did every call, and the answer is made of all
    rows in order.  On a ledger in memory the cursors that were open before are those that
    are open behind. -/
theorem scans_release_cursors (request : ScanRequest β) :
    (∀ {σ : Type} (S : Store σ) (state : σ),
      let plain := request.perform S state
      let watched := request.perform S.recorded ⟨state, []⟩
      let calls := watched.ledger.calls
      watched.forget = plain ∧ Released calls ∧
        ∀ value, plain.result = .ok value →
          (∀ call ∈ calls, call.Succeeded) ∧ request.Returns S state calls value) ∧
    ∀ (keys : KeyTransformer) (payloads : PayloadTransformer) (config : Config) (m : Memory),
      (request.perform (Store.inMemory keys payloads config) m).ledger.openCursors =
        m.openCursors := by
  constructor
  · intro σ S state plain watched calls
    have hmirrors : watched.forget = plain := request.mirrors_perform S ⟨state, []⟩
    obtain ⟨made, hmade, hreleased, hgives⟩ := request.perform_released S ⟨state, []⟩
    have hcalls : calls = made := hmade
    rw [hcalls]
    refine ⟨hmirrors, hreleased, ?_⟩
    intro value hvalue
    rw [← hmirrors] at hvalue
    obtain ⟨hsucceeded, scan, hscan, hfinishes⟩ := hgives value hvalue
    exact ⟨hsucceeded, request.returns_of_finishes S hscan hfinishes⟩
  · intro keys payloads config m
    let S := Store.inMemory keys payloads config
    obtain ⟨calls, hcalls, hreleased, -⟩ := request.perform_released S ⟨m, []⟩
    have hreads : (Memory.tracking m.openCursors).Reads S.recorded.ledger :=
      Memory.reads_tracking m.openCursors
    -- the open cursors are those that the record tells of, and the record closes what it opened
    have htracked : (request.perform S.recorded ⟨m, []⟩).ledger.inner.openCursors =
        (request.perform S.recorded ⟨m, []⟩).ledger.calls.foldl LedgerCall.track m.openCursors :=
      request.within_perform hreads ⟨m, []⟩ rfl
    have hsame : (request.perform S.recorded ⟨m, []⟩).ledger.calls = calls := hcalls
    rw [← request.mirrors_perform S ⟨m, []⟩]
    exact htracked.trans (hsame ▸ hreleased.foldl_track m.openCursors)

end EntityStore
