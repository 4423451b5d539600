/-
  EntityStore/Event/Metrics.lean
  ==============================
  **Metrics** — counters for each operation, made from its events.  A counter that
  has reached its limit stays there.
-/
import EntityStore.Event.Basic

namespace EntityStore

/-- The largest value of a counter. -/
def counterLimit : Nat := UInt64.size - 1

/-- The sum of two counts, at most the limit. -/
def addCounts (a b : Nat) : Nat := min (a + b) counterLimit

/-- The counters of one operation. -/
structure Counters where
  calls : Nat := 0
  misses : Nat := 0
  rows : Nat := 0
  bytesWritten : Nat := 0
  conflicts : Nat := 0
  failures : Nat := 0
deriving DecidableEq

/-- The counters behind an event. -/
def Counters.record (c : Counters) : Event → Counters
  | .read _ _ _ found =>
    { c with
      calls := addCounts c.calls 1
      misses := if found then c.misses else addCounts c.misses 1 }
  | .write _ _ _ bytes =>
    { c with
      calls := addCounts c.calls 1
      bytesWritten := addCounts c.bytesWritten bytes }
  | .scan _ _ _ rows =>
    { c with
      calls := addCounts c.calls 1
      rows := addCounts c.rows rows }
  | .conflict _ _ => { c with conflicts := addCounts c.conflicts 1 }
  | .failure _ _ => { c with failures := addCounts c.failures 1 }

/-- The counters of every operation. -/
structure Metrics where
  counters : Operation → Counters

namespace Metrics

def empty : Metrics := ⟨fun _ => {}⟩

/-- An event counts for its own operation. -/
def record (m : Metrics) (event : Event) : Metrics :=
  ⟨fun op => if op = event.op then (m.counters op).record event else m.counters op⟩

/-- The metrics behind a sequence of events. -/
def recordAll (m : Metrics) (events : List Event) : Metrics := events.foldl record m

/-- The failures of all operations together. -/
def totalFailures (m : Metrics) : Nat :=
  Operation.all.foldl (fun total op => total + (m.counters op).failures) 0

end Metrics

end EntityStore
