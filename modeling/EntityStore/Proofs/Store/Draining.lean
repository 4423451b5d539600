/-
  EntityStore/Proofs/Store/Draining.lean
  ======================================
  **Reading a cursor of the ledger in memory to its limit or end.**

  If no step on a row changes the ledger or reports anything, reading the cursor makes
  of its first rows what the steps make of them, up to the first row that fails, and
  leaves only the cursor closed behind it (`drain_rows`).
-/
import EntityStore.Proofs.Ledger.Memory
import EntityStore.Proofs.Store.Answer

namespace EntityStore

open EntityStore.Action EntityStore.Memory

variable {m : Memory} {cursor : Nat} {σ ρ α : Type}

/-! ### Accessors with the same cursors -/

section Cursors

variable {A B : Accessor σ} (htouch : A.touch = B.touch)

include htouch in
theorem readRows_congr (cursor : Nat) (each : ρ → Action σ α) (limit : Option Nat)
    (rows : List (Except LedgerError ρ)) :
    readRows A cursor each limit rows = readRows B cursor each limit rows := by
  induction rows generalizing limit with
  | nil =>
    by_cases hzero : limit = some 0
    · subst hzero
      rfl
    · rw [readRows, readRows, htouch] <;> exact hzero
  | cons row rest ih =>
    by_cases hzero : limit = some 0
    · subst hzero
      rfl
    · cases row with
      | error error => rw [readRows, readRows, htouch] <;> exact hzero
      | ok row => rw [readRows, readRows, htouch, ih] <;> exact hzero

include htouch in
/-- Reading a cursor asks the accessor for nothing but to touch it and to close it. -/
theorem drain_congr (hclose : A.close = B.close) (cursor : Cursor ρ) (limit : Option Nat)
    (each : ρ → Action σ α) : drain A cursor limit each = drain B cursor limit each := by
  unfold drain closing
  rw [readRows_congr htouch, hclose]

end Cursors

/-! ### Cursors of the ledger in memory -/

theorem upTo_cons {limit : Option Nat} (h : limit ≠ some 0) (row : ρ) (rows : List ρ) :
    upTo limit (row :: rows) = row :: upTo (limit.map (· - 1)) rows := by
  rcases limit with _ | _ | count
  · rfl
  · exact absurd rfl h
  · rfl

theorem call_touch (h : cursor ∈ m.openCursors) :
    call (Memory.accessor.touch cursor) m = ⟨.ok (), m, []⟩ :=
  call_of_ok (if_pos h)

theorem readRows_rows (h : cursor ∈ m.openCursors) {each : ρ → Action Memory α}
    {make : ρ → Except StoreError α} {rows : List ρ}
    (heach : ∀ row ∈ rows, each row m = ⟨make row, m, []⟩) (limit : Option Nat) :
    readRows Memory.accessor cursor each limit (rows.map .ok) m =
      ⟨(upTo limit rows).mapM make, m, []⟩ := by
  induction rows generalizing limit with
  | nil =>
    by_cases hzero : limit = some 0
    · subst hzero
      rfl
    · have hnone : upTo limit ([] : List ρ) = [] := by
        cases limit <;> simp [upTo]
      rw [List.map_nil, readRows, bind_of_silent (call_touch h), hnone]
      · rfl
      · exact hzero
  | cons row rows ih =>
    by_cases hzero : limit = some 0
    · subst hzero
      rfl
    · have hrow := heach row List.mem_cons_self
      have hrest := ih (fun other hother => heach other (List.mem_cons_of_mem _ hother))
        (limit.map (· - 1))
      rw [List.map_cons, readRows, bind_of_silent (call_touch h), upTo_cons hzero, List.mapM_cons]
      · -- The first row that gives no value ends the reading, with its own failure.
        cases hmade : make row with
        | error error =>
          rw [hmade] at hrow
          exact bind_of_error hrow
        | ok value =>
          rw [hmade] at hrow
          rw [bind_of_silent hrow]
          cases hvalues : (upTo (limit.map (· - 1)) rows).mapM make with
          | error error =>
            rw [hvalues] at hrest
            exact bind_of_error hrest
          | ok values =>
            rw [hvalues] at hrest
            exact bind_of_silent hrest
      · exact hzero

/-- **A cursor over all its rows**, read with steps that leave the ledger alone, and
    closed. -/
theorem drain_rows (h : cursor ∈ m.openCursors) {each : ρ → Action Memory α}
    {make : ρ → Except StoreError α} {rows : List ρ}
    (heach : ∀ row ∈ rows, each row m = ⟨make row, m, []⟩) (limit : Option Nat) :
    drain Memory.accessor ⟨cursor, rows.map .ok⟩ limit each m =
      ⟨(upTo limit rows).mapM make, { m with openCursors := m.openCursors.erase cursor }, []⟩ := by
  have hclose : Memory.accessor.close cursor m =
      (.ok (), { m with openCursors := m.openCursors.erase cursor }) := if_pos h
  unfold drain closing
  simp only [readRows_rows h heach limit, hclose]
  cases (upTo limit rows).mapM make <;> rfl

theorem answer_drain (h : cursor ∈ m.openCursors) (each : ρ → Except StoreError α)
    (rows : List ρ) (limit : Option Nat) :
    (drain Memory.accessor ⟨cursor, rows.map .ok⟩ limit (fun row => ofExcept (each row))).answer m =
      ((upTo limit rows).mapM each, { m with openCursors := m.openCursors.erase cursor }) := by
  rw [answer, drain_rows h (fun _ _ => rfl) limit]

end EntityStore
