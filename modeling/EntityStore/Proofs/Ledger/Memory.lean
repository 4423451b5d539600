/-
  EntityStore/Proofs/Ledger/Memory.lean
  =====================================
  **The ledger in memory, call by call.**  What a write or a deletion leaves under
  every key of every partition, and what a read gives while no failure is pending.
-/
import EntityStore.Ledger.Memory
import EntityStore.Proofs.Key.Range
import EntityStore.Proofs.OrderedMap

namespace EntityStore.Memory

/-- No read and no cursor has been told to fail. -/
structure IsQuiet (m : Memory) : Prop where
  reads : m.failingReads = 0
  rows : m.failingRow = none

variable {m : Memory} {p q : Partition} {key other : String} {payload : Bytes}

theorem read_of_isQuiet (h : m.IsQuiet) (p : Partition) (key : String) :
    read p key m = (.ok ((m.stored? p key).getD []), m) := by
  simp [read, reading, h.reads]

/-! ### Writing -/

/-- The ledger behind a write under a key that is not empty. -/
def written (m : Memory) (p : Partition) (key : String) (payload : Bytes) : Memory :=
  (write p key payload m).2

/-- The ledger behind the deletion of a key that is not empty. -/
def deleted (m : Memory) (p : Partition) (key : String) : Memory := (delete p key m).2

/-- The failure to write under the empty key. -/
def emptyKeyError : LedgerError := .io "key must not be empty"

theorem write_of_empty (m : Memory) (p : Partition) (payload : Bytes) :
    write p "" payload m = (.error emptyKeyError, m) := rfl

theorem delete_of_empty (m : Memory) (p : Partition) :
    delete p "" m = (.error emptyKeyError, m) := rfl

theorem write_of_ne (h : key ≠ "") :
    write p key payload m = (.ok (), m.written p key payload) := by
  simp [written, write, writing, h]

theorem delete_of_ne (h : key ≠ "") : delete p key m = (.ok (), m.deleted p key) := by
  simp [deleted, delete, writing, h]

/-- A write sets the payload under its key and leaves every other entry alone. -/
theorem stored?_written (h : key ≠ "") :
    (m.written p key payload).stored? q other =
      if p = q ∧ key = other then some payload else m.stored? q other := by
  simp only [written, write, writing, if_neg h]
  cases p with
  | world => cases q <;> simp [stored?, entries, record]
  | collection name =>
    cases q with
    | world => simp [stored?, entries]
    | collection name' =>
      by_cases hname : name = name'
      · subst hname
        simp [stored?, entries]
      · simp [stored?, entries, hname]

theorem stored?_deleted (h : key ≠ "") :
    (m.deleted p key).stored? q other =
      if p = q ∧ key = other then none else m.stored? q other := by
  simp only [deleted, delete, writing, if_neg h]
  cases p with
  | world => cases q <;> simp [stored?, entries, record]
  | collection name =>
    cases hentries : m.collections.get? name with
    | none =>
      -- a collection that was never written to has nothing under any key
      simp only [hentries]
      cases q with
      | world => simp
      | collection name' =>
        by_cases hname : name = name'
        · subst hname
          simp [stored?, entries, hentries]
        · simp [hname]
    | some entries =>
      simp only [hentries]
      cases q with
      | world => simp [stored?, Memory.entries]
      | collection name' =>
        by_cases hname : name = name'
        · subst hname
          simp [stored?, Memory.entries, hentries]
        · simp [stored?, Memory.entries, hname]

/-- Everything about a ledger but its entries and the record of their mutations. -/
def setting (m : Memory) : Memory :=
  { m with world := ∅, collections := ∅, history := ∅ }

/-- A write changes entries and their record only. -/
theorem setting_written (m : Memory) (p : Partition) (key : String) (payload : Bytes) :
    (m.written p key payload).setting = m.setting := by
  unfold written write writing
  split
  · rfl
  · cases p <;> rfl

theorem setting_deleted (m : Memory) (p : Partition) (key : String) :
    (m.deleted p key).setting = m.setting := by
  unfold deleted delete writing
  split
  · rfl
  · cases p with
    | world => rfl
    | collection name =>
      cases hentries : m.collections.get? name with
      | none => simp only [hentries]
      | some entries =>
        simp only [hentries]
        rfl

theorem IsQuiet.of_setting {n : Memory} (h : m.IsQuiet) (hsame : n.setting = m.setting) :
    n.IsQuiet where
  reads := (congrArg failingReads hsame :).trans h.reads
  rows := (congrArg failingRow hsame :).trans h.rows

theorem IsQuiet.written (h : m.IsQuiet) : (m.written p key payload).IsQuiet :=
  h.of_setting (setting_written m p key payload)

theorem IsQuiet.deleted (h : m.IsQuiet) : (m.deleted p key).IsQuiet :=
  h.of_setting (setting_deleted m p key)

/-! ### What is recorded -/

/-- The recorded mutations of a ledger key, the newest first. -/
def log (m : Memory) (key : String) : List Modification := (m.history.get? key).getD []

/-- A mutation is recorded under its own key. -/
theorem log_record (m : Memory) (key other : String) (isDelete : Bool) (payload : Bytes) :
    (m.record key isDelete payload).log other =
      if key = other then ⟨m.txId, m.timestamp, isDelete, payload⟩ :: m.log other
      else m.log other := by
  by_cases hsame : key = other
  · subst hsame
    simp [log, record]
  · simp [log, record, hsame]

/-- A write is recorded under its key if it is public, and nothing else is. -/
theorem log_written (h : key ≠ "") :
    (m.written p key payload).log other =
      if p = .world ∧ key = other then ⟨m.txId, m.timestamp, false, payload⟩ :: m.log other
      else m.log other := by
  simp only [written, write, writing, if_neg h]
  cases p with
  | world =>
    simp only [true_and]
    exact log_record m key other false payload
  | collection name => simp [log]

theorem log_deleted (h : key ≠ "") :
    (m.deleted p key).log other =
      if p = .world ∧ key = other then ⟨m.txId, m.timestamp, true, []⟩ :: m.log other
      else m.log other := by
  simp only [deleted, delete, writing, if_neg h]
  cases p with
  | world =>
    simp only [true_and]
    exact log_record m key other true []
  | collection name => cases hentries : m.collections.get? name <;> simp [log, hentries]

/-! ### Rows in key order -/

theorem mem_rowsBetween {start stop : String} {row : Row} :
    row ∈ m.rowsBetween p start stop ↔
      m.stored? p row.key = some row.payload ∧ start ≤ row.key ∧ row.key < stop := by
  unfold rowsBetween stored?
  rw [List.mem_map, ← OrderedMap.mem_between_iff]
  constructor
  · rintro ⟨entry, hentry, rfl⟩
    exact hentry
  · intro h
    exact ⟨(row.key, row.payload), h, rfl⟩

theorem sorted_rowsBetween (m : Memory) (p : Partition) (start stop : String) :
    (m.rowsBetween p start stop).Pairwise fun a b => a.key < b.key := by
  unfold rowsBetween
  rw [List.pairwise_map]
  exact (m.entries p).sorted_between start stop

/-- The public entries under a partial key. -/
def rowsUnder (objectType : String) (attributes : List String) (m : Memory) : List Row :=
  match Composite.range objectType attributes with
  | .ok (start, stop) => m.rowsBetween .world start stop
  | .error _ => []

theorem rowsUnder_eq {objectType : String} {attributes : List String}
    (hplain : ∀ part ∈ objectType :: attributes, Composite.IsPlain part) (m : Memory) :
    rowsUnder objectType attributes m = m.rowsBetween .world
      (Composite.rangeStart objectType attributes) (Composite.rangeStop objectType attributes) := by
  rw [rowsUnder, Composite.range_eq hplain]

/-! ### Cursors -/

/-- The first rows, up to a limit if there is one. -/
def upTo {ρ : Type} (limit : Option Nat) (rows : List ρ) : List ρ :=
  match limit with
  | some count => rows.take count
  | none => rows

@[simp] theorem upTo_none {ρ : Type} (rows : List ρ) : upTo none rows = rows := rfl

/-- While no failure is pending, a cursor gives all its rows. -/
theorem openCursor_of_isQuiet {ρ : Type} (h : m.IsQuiet) (rows : List ρ) :
    (m.openCursor rows).1 = ⟨m.nextCursor, rows.map .ok⟩ := by
  rw [openCursor, h.rows]
  rfl

theorem IsQuiet.openCursor {ρ : Type} (h : m.IsQuiet) (rows : List ρ) :
    (m.openCursor rows).2.IsQuiet := ⟨h.reads, rfl⟩

/-- While no failure is pending, a scan opens a cursor over all rows of its range. -/
theorem scan_of_isQuiet (h : m.IsQuiet) (p : Partition) {objectType start stop : String}
    {attributes : List String}
    (hrange : Composite.range objectType attributes = .ok (start, stop)) :
    scan p objectType attributes m =
      (.ok ⟨m.nextCursor, (m.rowsBetween p start stop).map .ok⟩,
        (m.openCursor (m.rowsBetween p start stop)).2) := by
  unfold scan reading
  simp only [h.reads, hrange, openCursor_of_isQuiet h]

end EntityStore.Memory
