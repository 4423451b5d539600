/-
  EntityStore/Proofs/Event/Metrics.lean
  =====================================
  **What counters say of the events.**  A counter adds up the weights that events of its
  operation have for it, and stays at the limit once it is there.  So from empty metrics on
  it is the exact sum, cut at the limit (`Metrics.Tallies.counter_recordAll`), and the order
  of the events is of no account (`Metrics.counters_are_cut_sums`).  The failures of all
  operations together are then the number of failure events, as long as these are not more
  than a counter can tell (`Metrics.totalFailures_recordAll`).
-/
import Mathlib.Algebra.GroupWithZero.Nat
import EntityStore.Event.Metrics

namespace EntityStore

namespace Event

/-- The event reports that a read, a write or a scan was carried out. -/
def isCall : Event → Bool
  | read .. | write .. | scan .. => true
  | conflict .. | failure .. => false

/-- The event reports a read that found nothing. -/
def isMiss : Event → Bool
  | read _ _ _ found => !found
  | write .. | scan .. | conflict .. | failure .. => false

/-- The event reports an entry in the way of an insertion. -/
def isConflict : Event → Bool
  | conflict _ _ => true
  | read .. | write .. | scan .. | failure .. => false

/-- The event reports a failure. -/
def isFailure : Event → Bool
  | failure _ _ => true
  | read .. | write .. | scan .. | conflict .. => false

/-- The rows that were scanned. -/
def scannedRows : Event → Nat
  | scan _ _ _ rows => rows
  | read .. | write .. | conflict .. | failure .. => 0

/-- The bytes that were written. -/
def writtenBytes : Event → Nat
  | write _ _ _ bytes => bytes
  | read .. | scan .. | conflict .. | failure .. => 0

end Event

namespace Metrics

/-! ### One counter -/

/-- The sum of the weights of the events of an operation. -/
def tally (weight : Event → Nat) (op : Operation) : List Event → Nat
  | [] => 0
  | event :: rest => (if event.op = op then weight event else 0) + tally weight op rest

/-- A counter adds up the weights of the events that it is shown. -/
def Tallies (counter : Counters → Nat) (weight : Event → Nat) : Prop :=
  counter {} = 0 ∧ ∀ c event, counter c ≤ counterLimit →
    counter (c.record event) = addCounts (counter c) (weight event)

variable {counter : Counters → Nat} {weight : Event → Nat}

/-- At each event a counter may add the weight, or stay as it is where there is none. -/
theorem tallies_of_record (hzero : counter {} = 0)
    (h : ∀ c event, counter (c.record event) = addCounts (counter c) (weight event) ∨
      counter (c.record event) = counter c ∧ weight event = 0) : Tallies counter weight := by
  refine ⟨hzero, fun c event hle => ?_⟩
  rcases h c event with hadded | ⟨hkept, hnone⟩
  · exact hadded
  · rw [hkept, hnone]
    exact (Nat.min_eq_left hle).symm

theorem tallies_calls : Tallies Counters.calls fun event => event.isCall.toNat := by
  refine tallies_of_record rfl fun c event => ?_
  cases event with
  | read _ _ _ _ | write _ _ _ _ | scan _ _ _ _ => exact .inl rfl
  | conflict _ _ | failure _ _ => exact .inr ⟨rfl, rfl⟩

theorem tallies_misses : Tallies Counters.misses fun event => event.isMiss.toNat := by
  refine tallies_of_record rfl fun c event => ?_
  cases event with
  | read op target collection found =>
    cases found with
    | true => exact .inr ⟨rfl, rfl⟩
    | false => exact .inl rfl
  | write _ _ _ _ | scan _ _ _ _ | conflict _ _ | failure _ _ => exact .inr ⟨rfl, rfl⟩

theorem tallies_rows : Tallies Counters.rows Event.scannedRows := by
  refine tallies_of_record rfl fun c event => ?_
  cases event with
  | scan _ _ _ _ => exact .inl rfl
  | read _ _ _ _ | write _ _ _ _ | conflict _ _ | failure _ _ => exact .inr ⟨rfl, rfl⟩

theorem tallies_bytesWritten : Tallies Counters.bytesWritten Event.writtenBytes := by
  refine tallies_of_record rfl fun c event => ?_
  cases event with
  | write _ _ _ _ => exact .inl rfl
  | read _ _ _ _ | scan _ _ _ _ | conflict _ _ | failure _ _ => exact .inr ⟨rfl, rfl⟩

theorem tallies_conflicts : Tallies Counters.conflicts fun event => event.isConflict.toNat := by
  refine tallies_of_record rfl fun c event => ?_
  cases event with
  | conflict _ _ => exact .inl rfl
  | read _ _ _ _ | write _ _ _ _ | scan _ _ _ _ | failure _ _ => exact .inr ⟨rfl, rfl⟩

theorem tallies_failures : Tallies Counters.failures fun event => event.isFailure.toNat := by
  refine tallies_of_record rfl fun c event => ?_
  cases event with
  | failure _ _ => exact .inl rfl
  | read _ _ _ _ | write _ _ _ _ | scan _ _ _ _ | conflict _ _ => exact .inr ⟨rfl, rfl⟩

theorem counters_record (m : Metrics) (event : Event) (op : Operation) :
    (m.record event).counters op =
      if event.op = op then (m.counters op).record event else m.counters op := by
  simp only [record, eq_comm]

theorem Tallies.counter_recordAll_from (h : Tallies counter weight) (op : Operation)
    (events : List Event) {m : Metrics} (hle : counter (m.counters op) ≤ counterLimit) :
    counter ((m.recordAll events).counters op) =
      min (counter (m.counters op) + tally weight op events) counterLimit := by
  induction events generalizing m with
  | nil => exact (Nat.min_eq_left hle).symm
  | cons event rest ih =>
    have hrest : m.recordAll (event :: rest) = (m.record event).recordAll rest := rfl
    by_cases hop : event.op = op
    · have hcounter : counter ((m.record event).counters op) =
          addCounts (counter (m.counters op)) (weight event) := by
        rw [counters_record, if_pos hop]
        exact h.2 _ event hle
      rw [hrest, ih (by rw [hcounter]; exact Nat.min_le_right _ _), hcounter, tally, if_pos hop]
      simp only [addCounts]
      omega
    · have hcounter : (m.record event).counters op = m.counters op := by
        rw [counters_record, if_neg hop]
      rw [hrest, ih (by rw [hcounter]; exact hle), hcounter, tally, if_neg hop, Nat.zero_add]

/-- **From empty metrics on, a counter is the exact sum, cut at the limit.** -/
theorem Tallies.counter_recordAll (h : Tallies counter weight) (op : Operation)
    (events : List Event) :
    counter ((empty.recordAll events).counters op) = min (tally weight op events) counterLimit := by
  have hzero : counter (empty.counters op) = 0 := h.1
  rw [h.counter_recordAll_from op events (by rw [hzero]; exact Nat.zero_le _), hzero, Nat.zero_add]

/-! ### All counters of an operation -/

/-- The events of an operation, in their order. -/
def ofOperation (op : Operation) (events : List Event) : List Event :=
  events.filter fun event => event.op = op

theorem tally_eq_sum (weight : Event → Nat) (op : Operation) (events : List Event) :
    tally weight op events = ((ofOperation op events).map weight).sum := by
  induction events with
  | nil => rfl
  | cons event rest ih =>
    by_cases hop : event.op = op
    · simp [tally, ofOperation, hop, ih]
    · simp [tally, ofOperation, hop, ih]

theorem tally_eq_countP (p : Event → Bool) (op : Operation) (events : List Event) :
    tally (fun event => (p event).toNat) op events = (ofOperation op events).countP p := by
  rw [tally_eq_sum]
  induction ofOperation op events with
  | nil => rfl
  | cons event rest ih =>
    rw [List.map_cons, List.sum_cons, ih, List.countP_cons, Nat.add_comm]
    cases p event <;> rfl

/-- **All counters of an operation are the exact counts of its events, cut at the limit.** -/
theorem counters_recordAll (events : List Event) (op : Operation) :
    (empty.recordAll events).counters op =
      { calls := min ((ofOperation op events).countP Event.isCall) counterLimit
        misses := min ((ofOperation op events).countP Event.isMiss) counterLimit
        rows := min ((ofOperation op events).map Event.scannedRows).sum counterLimit
        bytesWritten := min ((ofOperation op events).map Event.writtenBytes).sum counterLimit
        conflicts := min ((ofOperation op events).countP Event.isConflict) counterLimit
        failures := min ((ofOperation op events).countP Event.isFailure) counterLimit } := by
  have hcalls := tallies_calls.counter_recordAll op events
  have hmisses := tallies_misses.counter_recordAll op events
  have hrows := tallies_rows.counter_recordAll op events
  have hbytes := tallies_bytesWritten.counter_recordAll op events
  have hconflicts := tallies_conflicts.counter_recordAll op events
  have hfailures := tallies_failures.counter_recordAll op events
  rw [tally_eq_countP] at hcalls hmisses hconflicts hfailures
  rw [tally_eq_sum] at hrows hbytes
  rw [← hcalls, ← hmisses, ← hrows, ← hbytes, ← hconflicts, ← hfailures]

/-- **Metrics do not tell in which order the events came.** -/
theorem recordAll_perm {events others : List Event} (h : others.Perm events) :
    empty.recordAll others = empty.recordAll events := by
  refine congrArg Metrics.mk (funext fun op => ?_)
  have hown : (ofOperation op others).Perm (ofOperation op events) := h.filter _
  show (empty.recordAll others).counters op = (empty.recordAll events).counters op
  rw [counters_recordAll, counters_recordAll, hown.countP_eq, hown.countP_eq, hown.countP_eq,
    hown.countP_eq, (hown.map _).sum_nat, (hown.map _).sum_nat]

/-- **Counters are exact sums, cut at the limit.**  Behind any events, the counters of an
    operation are the smaller of the largest number of sixty-four bits and what the events of
    this operation add up to: its calls, its reads that found nothing, the rows scanned, the
    bytes written, its conflicts and its failures.  An event of another operation leaves them
    as they are, and the same events in another order make the same metrics. -/
theorem counters_are_cut_sums (events : List Event) (op : Operation) :
    let counters := (empty.recordAll events).counters op
    let own := events.filter fun event => event.op = op
    counters.calls = min (2 ^ 64 - 1) (own.countP Event.isCall) ∧
      counters.misses = min (2 ^ 64 - 1) (own.countP Event.isMiss) ∧
      counters.rows = min (2 ^ 64 - 1) (own.map Event.scannedRows).sum ∧
      counters.bytesWritten = min (2 ^ 64 - 1) (own.map Event.writtenBytes).sum ∧
      counters.conflicts = min (2 ^ 64 - 1) (own.countP Event.isConflict) ∧
      counters.failures = min (2 ^ 64 - 1) (own.countP Event.isFailure) ∧
      (∀ event : Event, event.op ≠ op →
        ((empty.recordAll events).record event).counters op = counters) ∧
      ∀ others : List Event, others.Perm events →
        empty.recordAll others = empty.recordAll events := by
  intro counters own
  have hcounters : counters = _ := counters_recordAll events op
  have hother (event : Event) (h : event.op ≠ op) :
      ((empty.recordAll events).record event).counters op = counters := by
    rw [counters_record, if_neg h]
  have hlimit (n : Nat) : min n counterLimit = min (2 ^ 64 - 1) n := Nat.min_comm n counterLimit
  refine ⟨?_, ?_, ?_, ?_, ?_, ?_, hother, fun others h => recordAll_perm h⟩
  all_goals
    rw [hcounters]
    exact hlimit _

/-- Two scans that take the count of rows over its limit, and a miss of another operation
    between them, in two orders. -/
theorem counters_are_cut_sums_full :
    let events : List Event :=
      [.scan .list "BOOK" none (2 ^ 64 - 2), .read .get "owner" none false,
        .scan .list "BOOK" (some "prices") 5]
    let m := empty.recordAll events
    (m.counters .list).calls = 2 ∧ (m.counters .list).rows = 2 ^ 64 - 1 ∧
      (m.record (.read .get "owner" none true)).counters .list = m.counters .list ∧
      empty.recordAll events.reverse = m := by
  intro events m
  obtain ⟨hcalls, -, hrows, -, -, -, hother, hperm⟩ := counters_are_cut_sums events .list
  refine ⟨hcalls.trans (by decide), hrows.trans (by decide), ?_, hperm _ events.reverse_perm⟩
  exact hother (.read .get "owner" none true) nofun

/-! ### All operations together -/

/-- A sum over the operations. -/
def sumOperations (f : Operation → Nat) : Nat :=
  Operation.all.foldl (fun total op => total + f op) 0

theorem sumOperations_add (f g : Operation → Nat) :
    sumOperations (fun op => f op + g op) = sumOperations f + sumOperations g := by
  simp only [sumOperations, Operation.all, List.foldl_cons, List.foldl_nil]
  omega

theorem sumOperations_single (op : Operation) (n : Nat) :
    sumOperations (fun other => if op = other then n else 0) = n := by
  cases op <;> simp [sumOperations, Operation.all]

/-- A failure counts for one operation. -/
theorem sumOperations_failures (events : List Event) :
    sumOperations (tally (fun event => event.isFailure.toNat) · events) =
      events.countP Event.isFailure := by
  induction events with
  | nil => rfl
  | cons event rest ih =>
    simp only [tally, sumOperations_add, sumOperations_single, ih, List.countP_cons]
    cases event.isFailure <;> simp [Nat.add_comm]

theorem tally_failures_le (op : Operation) (events : List Event) :
    tally (fun event => event.isFailure.toNat) op events ≤ events.countP Event.isFailure := by
  rw [tally_eq_countP]
  exact List.filter_sublist.countP_le

/-- From empty metrics on, the total is the number of failures, as long as a counter can
    tell it. -/
theorem totalFailures_recordAll {events : List Event}
    (h : events.countP Event.isFailure ≤ counterLimit) :
    (empty.recordAll events).totalFailures = events.countP Event.isFailure := by
  have hcounter (op : Operation) : ((empty.recordAll events).counters op).failures =
      tally (fun event => event.isFailure.toNat) op events := by
    rw [tallies_failures.counter_recordAll op events]
    exact Nat.min_eq_left (Nat.le_trans (tally_failures_le op events) h)
  rw [← sumOperations_failures, totalFailures, sumOperations]
  simp only [hcounter]

end Metrics

end EntityStore
