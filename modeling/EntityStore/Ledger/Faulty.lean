/-
  EntityStore/Ledger/Faulty.lean
  ==============================
  **A ledger that fails on request** — any accessor behind one that can be told to
  fail writes, private reads and closings, and that offers no document queries.
-/
import EntityStore.Ledger.Accessor

namespace EntityStore

/-- The state of the ledger behind, and the failures still to come. -/
structure Faulty (σ : Type) where
  inner : σ
  /-- How many of the next writes and deletions fail without reaching the ledger. -/
  failingWrites : Nat := 0
  /-- How many of the next private reads fail without reaching the ledger. -/
  failingPrivateReads : Nat := 0
  /-- How many of the next closings are reported as failed, though they take place. -/
  failingCloses : Nat := 0
  /-- How many times a cursor was closed. -/
  closeCalls : Nat := 0

namespace Faulty

variable {σ α : Type}

/-- A call passed on to the ledger behind. -/
def pass (call : Call σ α) : Call (Faulty σ) α := fun f =>
  let (answer, inner) := call f.inner
  (answer, { f with inner })

/-- A write that fails if it was told to. -/
def writing (call : Call σ Unit) : Call (Faulty σ) Unit := fun f =>
  match f.failingWrites with
  | 0 => pass call f
  | count + 1 => (.error (.io "injected write failure"), { f with failingWrites := count })

/-- A private read that fails if it was told to; public reads pass. -/
def reading (partition : Partition) (call : Call σ Bytes) : Call (Faulty σ) Bytes := fun f =>
  match partition, f.failingPrivateReads with
  | .collection _, count + 1 =>
    (.error (.io "injected private read failure"), { f with failingPrivateReads := count })
  | _, _ => pass call f

/-- A closing that takes place and is then reported as failed if it was told to.  One
    that fails by itself reports its own failure. -/
def closing (call : Call σ Unit) : Call (Faulty σ) Unit := fun f =>
  let (answer, inner) := call f.inner
  let f := { f with inner, closeCalls := f.closeCalls + 1 }
  match answer, f.failingCloses with
  | .ok (), count + 1 =>
    (.error (.io "injected close failure"), { f with failingCloses := count })
  | answer, _ => (answer, f)

/-- The accessor in front of another one. -/
def accessor (A : Accessor σ) : Accessor (Faulty σ) where
  read partition key := reading partition (A.read partition key)
  write partition key payload := writing (A.write partition key payload)
  delete partition key := writing (A.delete partition key)
  scan partition objectType attributes := pass (A.scan partition objectType attributes)
  scanPage objectType attributes pageSize bookmark :=
    pass (A.scanPage objectType attributes pageSize bookmark)
  history key := pass (A.history key)
  touch cursor := pass (A.touch cursor)
  close cursor := closing (A.close cursor)
  joinKey := A.joinKey
  splitKey := A.splitKey

end Faulty

end EntityStore
