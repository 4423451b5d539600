/-
  EntityStore/Proofs/Store/Answer.lean
  ====================================
  **Actions without their events.**  Most laws of the store are about what an action
  answers and the ledger it leaves.  `Action.answer` is that pair; each way of
  building an action has one equation here, so that later proofs run an operation
  step by step and never open the sequencing of actions.  Where the events count as
  well, the last section has the same steps for whole outcomes.
-/
import EntityStore.Store.Action

namespace EntityStore.Action

variable {σ α β ρ : Type}

/-- What an action answers, and the state it leaves. -/
def answer (action : Action σ α) (state : σ) : Except StoreError α × σ :=
  ((action state).result, (action state).ledger)

@[simp] theorem answer_pure (value : α) (state : σ) :
    (pure value : Action σ α).answer state = (.ok value, state) := rfl

@[simp] theorem answer_fail (error : StoreError) (state : σ) :
    (fail error : Action σ α).answer state = (.error error, state) := rfl

@[simp] theorem answer_ofExcept (result : Except StoreError α) (state : σ) :
    (ofExcept result).answer state = (result, state) := rfl

@[simp] theorem answer_emit (event : Event) (state : σ) :
    (emit event).answer state = (.ok (), state) := rfl

@[simp] theorem answer_call (request : Call σ α) (state : σ) :
    (call request).answer state = ((request state).1.mapError .ledger, (request state).2) := rfl

/-- Reporting a failure changes neither the answer nor the state. -/
@[simp] theorem answer_observe (op : Operation) (action : Action σ α) (state : σ) :
    (observe op action).answer state = action.answer state := by
  unfold answer observe
  cases h : (action state).result <;> simp [h]

theorem answer_bind_of_ok {first : Action σ α} {second : α → Action σ β} {state next : σ}
    {value : α} (h : first.answer state = (.ok value, next)) :
    (first >>= second).answer state = (second value).answer next := by
  obtain ⟨hresult, hledger⟩ := Prod.mk.inj h
  rw [bind_eq, answer, andThen_of_ok hresult, hledger]
  rfl

theorem answer_bind_of_error {first : Action σ α} {second : α → Action σ β} {state next : σ}
    {error : StoreError} (h : first.answer state = (.error error, next)) :
    (first >>= second).answer state = (.error error, next) := by
  obtain ⟨hresult, hledger⟩ := Prod.mk.inj h
  rw [bind_eq, answer, andThen_of_error hresult, hledger]

theorem answer_bind (first : Action σ α) (second : α → Action σ β) (state : σ) :
    (first >>= second).answer state =
      match first.answer state with
      | (.ok value, next) => (second value).answer next
      | (.error error, next) => (.error error, next) := by
  rcases h : first.answer state with ⟨error | value, next⟩
  · exact answer_bind_of_error h
  · exact answer_bind_of_ok h

@[simp] theorem answer_ofExcept_bind (result : Except StoreError α) (second : α → Action σ β)
    (state : σ) :
    (ofExcept result >>= second).answer state =
      match result with
      | .ok value => (second value).answer state
      | .error error => (.error error, state) := by
  cases result with
  | ok value => exact answer_bind_of_ok rfl
  | error error => exact answer_bind_of_error rfl

@[simp] theorem answer_emit_bind (event : Event) (second : Unit → Action σ β) (state : σ) :
    (emit event >>= second).answer state = (second ()).answer state :=
  answer_bind_of_ok rfl

/-! ### Closing a cursor -/

@[simp] theorem ledger_closing (A : Accessor σ) (cursor : Nat) (body : Action σ α) (state : σ) :
    ((closing A cursor body).answer state).2 = (A.close cursor (body.answer state).2).2 := rfl

/-- The cursor is closed behind the body, whether or not the body succeeds, and both have
    to succeed. -/
theorem closing_eq_ok_iff {A : Accessor σ} {cursor : Nat} {body : Action σ α} {state : σ}
    {value : α} :
    ((closing A cursor body).answer state).1 = .ok value ↔
      (body.answer state).1 = .ok value ∧ (A.close cursor (body.answer state).2).1 = .ok () := by
  rcases hbody : body state with ⟨error | found, next, events⟩
  · simp [closing, answer, hbody]
  · rcases hclose : A.close cursor next with ⟨error | ⟨⟩, last⟩
    · simp [closing, answer, hbody, hclose]
    · simp [closing, answer, hbody, hclose]

/-! ### Outcomes step by step -/

variable {first : Action σ α} {second : α → Action σ β} {state behind : σ} {value : α}
  {error : StoreError} {events : List Event}

theorem bind_of_silent (h : first state = ⟨.ok value, behind, []⟩) :
    (first >>= second) state = second value behind := by
  rw [bind_eq, andThen, h]
  rfl

theorem bind_of_error (h : first state = ⟨.error error, behind, events⟩) :
    (first >>= second) state = ⟨.error error, behind, events⟩ := by
  rw [bind_eq, andThen, h]

theorem ofExcept_ok_bind (value : α) (second : α → Action σ β) :
    (ofExcept (.ok value) >>= second) = second value := rfl

theorem observe_of_ok (op : Operation) (h : first state = ⟨.ok value, behind, events⟩) :
    observe op first state = ⟨.ok value, behind, events⟩ := by
  simp only [observe, h]

theorem observe_of_error (op : Operation) (h : first state = ⟨.error error, behind, events⟩) :
    observe op first state = ⟨.error error, behind, events ++ [.failure op error]⟩ := by
  simp only [observe, h]

theorem call_of_ok {request : Call σ α} (h : request state = (.ok value, behind)) :
    call request state = ⟨.ok value, behind, []⟩ := by
  rw [call, h]
  rfl

theorem call_of_error {request : Call σ α} {error : LedgerError}
    (h : request state = (.error error, behind)) :
    call request state = ⟨.error (.ledger error), behind, []⟩ := by
  rw [call, h]
  rfl

end EntityStore.Action
