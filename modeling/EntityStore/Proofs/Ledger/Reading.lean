/-
  EntityStore/Proofs/Ledger/Reading.lean
  ======================================
  **What reading does to a ledger in memory**: it opens and closes cursors, uses up
  pending failures, and leaves everything else alone.  Each reading call has one lemma
  here; what follows for the data (`Memory.reads_keeping_data`) and for the open cursors
  (`Memory.reads_tracking`) are frames, so they hold of whole operations.  Where no
  failure is pending, reading leaves none pending (`Memory.reads_preserving_quiet`).
-/
import EntityStore.Proofs.Ledger.Memory
import EntityStore.Proofs.Ledger.Recorded

namespace EntityStore

/-- The open cursors behind a call. -/
def LedgerCall.track (cursors : List Nat) : LedgerCall → List Nat
  | opened (.ok cursor) => cursor :: cursors
  | closed cursor _ => cursors.erase cursor
  | _ => cursors

namespace Memory

variable {α τ : Type}

/-- What a ledger holds, apart from cursors and pending failures. -/
def data (m : Memory) : Memory :=
  { m with openCursors := [], nextCursor := 0, failingReads := 0, failingRow := none }

/-- Whatever is read off the data is the same on ledgers with the same data. -/
theorem eq_of_data (part : Memory → τ) (hpart : ∀ m : Memory, part m.data = part m)
    {m n : Memory} (h : m.data = n.data) : part m = part n := by
  rw [← hpart m, h, hpart n]

/-- A call that changes no data, and the open cursors as its note tells. -/
def IsReading (note : Except LedgerError α → LedgerCall) (request : Call Memory α) : Prop :=
  ∀ m : Memory, (request m).2.data = m.data ∧
    (request m).2.openCursors = LedgerCall.track m.openCursors (note (request m).1)

/-! ### Call by call -/

theorem isReading_reading {note : Except LedgerError α → LedgerCall} {body : Call Memory α}
    (hrefused : ∀ error cursors, LedgerCall.track cursors (note (.error error)) = cursors)
    (h : IsReading note body) : IsReading note (reading body) := by
  intro m
  unfold reading
  split
  · exact h m
  · exact ⟨rfl, (hrefused _ _).symm⟩

theorem isReading_read (p : Partition) (key : String) :
    IsReading (.read p key) (read p key) :=
  isReading_reading (fun _ _ => rfl) fun _ => ⟨rfl, rfl⟩

theorem isReading_scan (p : Partition) (objectType : String) (attributes : List String) :
    IsReading (fun answer => .opened (answer.map Cursor.id)) (scan p objectType attributes) := by
  refine isReading_reading (fun _ _ => rfl) fun m => ?_
  split <;> exact ⟨rfl, rfl⟩

theorem isReading_scanPage (objectType : String) (attributes : List String) (pageSize : Nat)
    (bookmark : String) :
    IsReading (fun answer => .opened (answer.map fun page => page.1.id))
      (scanPage objectType attributes pageSize bookmark) := by
  refine isReading_reading (fun _ _ => rfl) fun m => ?_
  split
  · exact ⟨rfl, rfl⟩
  · split <;> exact ⟨rfl, rfl⟩

theorem isReading_historyOf (key : String) :
    IsReading (fun answer => .opened (answer.map Cursor.id)) (historyOf key) :=
  isReading_reading (fun _ _ => rfl) fun _ => ⟨rfl, rfl⟩

theorem isReading_runQuery {note : Except LedgerError α → LedgerCall} (text : String)
    {body : DocumentQuery → List Row → Call Memory α}
    (hrefused : ∀ error cursors, LedgerCall.track cursors (note (.error error)) = cursors)
    (h : ∀ query rows, IsReading note (body query rows)) : IsReading note (runQuery text body) := by
  intro m
  unfold runQuery
  split
  · refine isReading_reading hrefused (fun m => ?_) m
    split
    · exact ⟨rfl, (hrefused _ _).symm⟩
    · exact h _ _ m
  · exact ⟨rfl, (hrefused _ _).symm⟩

theorem isReading_query (text : String) :
    IsReading (fun answer => .opened (answer.map Cursor.id)) (query text) :=
  isReading_runQuery text (fun _ _ => rfl) fun _ _ _ => ⟨rfl, rfl⟩

theorem isReading_queryPage (text : String) (pageSize : Nat) (bookmark : String) :
    IsReading (fun answer => .opened (answer.map fun page => page.1.id))
      (queryPage text pageSize bookmark) := by
  refine isReading_runQuery text (fun _ _ => rfl) fun query rows m => ?_
  unfold openPage
  split <;> exact ⟨rfl, rfl⟩

theorem isReading_touch (cursor : Nat) : IsReading (.touched cursor) (touch cursor) := by
  intro m
  unfold touch
  split <;> exact ⟨rfl, rfl⟩

theorem isReading_close (cursor : Nat) : IsReading (.closed cursor) (close cursor) := by
  intro m
  unfold close
  split
  · exact ⟨rfl, rfl⟩
  · next hclosed => exact ⟨rfl, (List.erase_of_not_mem hclosed).symm⟩

/-! ### What follows for operations -/

/-- Reading keeps every part of the data. -/
theorem reads_keeping_data (part : Memory → τ) :
    (Frame.keeping fun m => part m.data).Reads accessor where
  read p key m := congrArg part (isReading_read p key m).1
  scan p objectType attributes m := congrArg part (isReading_scan p objectType attributes m).1
  scanPage objectType attributes pageSize bookmark m :=
    congrArg part (isReading_scanPage objectType attributes pageSize bookmark m).1
  history key m := congrArg part (isReading_historyOf key m).1
  query text m := congrArg part (isReading_query text m).1
  queryPage text pageSize bookmark m :=
    congrArg part (isReading_queryPage text pageSize bookmark m).1
  touch cursor m := congrArg part (isReading_touch cursor m).1
  close cursor m := congrArg part (isReading_close cursor m).1

/-! ### Quiet ledgers -/

theorem isQuiet_reading {body : Call Memory α} (h : ∀ m, m.IsQuiet → (body m).2.IsQuiet)
    {m : Memory} (hm : m.IsQuiet) : (reading body m).2.IsQuiet := by
  unfold reading
  rw [hm.reads]
  exact h m hm

theorem isQuiet_runQuery (text : String) {body : DocumentQuery → List Row → Call Memory α}
    (h : ∀ query rows m, m.IsQuiet → (body query rows m).2.IsQuiet) {m : Memory}
    (hm : m.IsQuiet) : (runQuery text body m).2.IsQuiet := by
  unfold runQuery
  split
  · refine isQuiet_reading ?_ hm
    intro m hm
    split
    · exact hm
    · exact h _ _ m hm
  · exact hm

/-- Reading a ledger in which no failure is pending leaves none pending. -/
theorem reads_preserving_quiet : (Frame.preserving IsQuiet).Reads accessor where
  read _ _ _ := isQuiet_reading fun _ hm => hm
  scan _ _ _ _ := by
    refine isQuiet_reading fun m hm => ?_
    split
    · exact hm
    · exact ⟨hm.reads, rfl⟩
  scanPage _ _ _ _ _ := by
    refine isQuiet_reading fun m hm => ?_
    split
    · exact hm
    · split
      · exact hm
      · exact ⟨hm.reads, rfl⟩
  history _ _ := isQuiet_reading fun _ hm => ⟨hm.reads, rfl⟩
  query text _ := isQuiet_runQuery text fun _ _ _ hm => ⟨hm.reads, rfl⟩
  queryPage text _ _ _ := by
    refine isQuiet_runQuery text fun _ _ m hm => ?_
    unfold openPage
    split
    · exact hm
    · exact ⟨hm.reads, rfl⟩
  -- Touching and closing only look at the open cursors.
  touch cursor m hm := by
    show (touch cursor m).2.IsQuiet
    unfold touch
    split <;> exact hm
  close cursor m hm := by
    show (close cursor m).2.IsQuiet
    unfold close
    split
    · exact ⟨hm.reads, hm.rows⟩
    · exact hm

/-! ### Open cursors -/

/-- The open cursors are those that the record tells of. -/
def tracking (start : List Nat) : Frame (Recorded Memory) :=
  .preserving fun state => state.inner.openCursors = state.calls.foldl LedgerCall.track start

theorem IsReading.tracked {note : Except LedgerError α → LedgerCall} {request : Call Memory α}
    (h : IsReading note request) (start : List Nat) :
    (tracking start).Calls (Recorded.noting note request) := by
  intro state hstate
  show (request state.inner).2.openCursors =
    (state.calls ++ [note (request state.inner).1]).foldl LedgerCall.track start
  rw [List.foldl_append, ← hstate]
  exact (h state.inner).2

theorem reads_tracking (start : List Nat) : (tracking start).Reads accessor.recorded where
  read p key := (isReading_read p key).tracked start
  scan p objectType attributes := (isReading_scan p objectType attributes).tracked start
  scanPage objectType attributes pageSize bookmark :=
    (isReading_scanPage objectType attributes pageSize bookmark).tracked start
  history key := (isReading_historyOf key).tracked start
  query text := (isReading_query text).tracked start
  queryPage text pageSize bookmark := (isReading_queryPage text pageSize bookmark).tracked start
  touch cursor := (isReading_touch cursor).tracked start
  close cursor := (isReading_close cursor).tracked start

end Memory

end EntityStore
