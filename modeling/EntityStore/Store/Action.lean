/-
  EntityStore/Store/Action.lean
  =============================
  **Actions** — what a store operation does: it runs on a ledger's state, and
  leaves a result, the next state, and the events it reported on the way.

  A failing step ends an action.  What the ledger has already done stays done,
  and the events already reported stay reported.
-/
import EntityStore.Event.Basic
import EntityStore.Ledger.Accessor

namespace EntityStore

/-- What an action leaves. -/
@[ext]
structure Outcome (σ α : Type) where
  result : Except StoreError α
  ledger : σ
  /-- The events reported, in order. -/
  events : List Event

/-- A computation over a ledger with state `σ`. -/
def Action (σ α : Type) := σ → Outcome σ α

namespace Action

variable {σ α β ρ : Type}

/-- Runs an action on a state. -/
def run (action : Action σ α) (state : σ) : Outcome σ α := action state

/-- Leaves a value and does nothing else. -/
def succeed (value : α) : Action σ α := fun state => ⟨.ok value, state, []⟩

/-- Fails and does nothing else. -/
def fail (error : StoreError) : Action σ α := fun state => ⟨.error error, state, []⟩

/-- One action and then the one that its value calls for. -/
def andThen (first : Action σ α) (second : α → Action σ β) : Action σ β := fun state =>
  match first state with
  | ⟨.ok value, state, events⟩ =>
    let outcome := second value state
    ⟨outcome.result, outcome.ledger, events ++ outcome.events⟩
  | ⟨.error error, state, events⟩ => ⟨.error error, state, events⟩

instance : Monad (Action σ) where
  pure := succeed
  bind := andThen

theorem bind_eq (first : Action σ α) (second : α → Action σ β) :
    first >>= second = andThen first second := rfl

/-- Behind a value comes what the value calls for. -/
theorem andThen_of_ok {first : Action σ α} {second : α → Action σ β} {state : σ} {value : α}
    (h : (first state).result = .ok value) :
    andThen first second state
      = ⟨(second value (first state).ledger).result, (second value (first state).ledger).ledger,
          (first state).events ++ (second value (first state).ledger).events⟩ := by
  rcases hf : first state with ⟨result, ledger, events⟩
  rw [hf] at h
  subst h
  simp [andThen, hf]

/-- Behind a failure comes nothing. -/
theorem andThen_of_error {first : Action σ α} {second : α → Action σ β} {state : σ}
    {error : StoreError} (h : (first state).result = .error error) :
    andThen first second state = ⟨.error error, (first state).ledger, (first state).events⟩ := by
  rcases hf : first state with ⟨result, ledger, events⟩
  rw [hf] at h
  subst h
  simp [andThen, hf]

theorem succeed_andThen (value : α) (second : α → Action σ β) :
    andThen (succeed value) second = second value := by
  funext state
  rfl

theorem andThen_succeed (action : Action σ α) : andThen action succeed = action := by
  funext state
  cases h : (action state).result with
  | ok value => rw [andThen_of_ok h]; ext1 <;> simp [succeed, h]
  | error error => rw [andThen_of_error h]; ext1 <;> simp [h]

theorem andThen_assoc {γ : Type} (first : Action σ α) (second : α → Action σ β)
    (third : β → Action σ γ) :
    andThen (andThen first second) third
      = andThen first fun value => andThen (second value) third := by
  funext state
  cases h : (first state).result with
  | error error =>
    rw [andThen_of_error h]
    have h' : (andThen first second state).result = .error error := by rw [andThen_of_error h]
    rw [andThen_of_error h', andThen_of_error h]
  | ok value =>
    rw [andThen_of_ok h]
    cases hs : (second value (first state).ledger).result with
    | error error =>
      have h' : (andThen first second state).result = .error error := by
        rw [andThen_of_ok h, hs]
      rw [andThen_of_error h', andThen_of_ok h, andThen_of_error hs]
    | ok middle =>
      have h' : (andThen first second state).result = .ok middle := by
        rw [andThen_of_ok h, hs]
      rw [andThen_of_ok h', andThen_of_ok h, andThen_of_ok hs]
      simp [List.append_assoc]

instance : LawfulMonad (Action σ) :=
  LawfulMonad.mk' (Action σ) andThen_succeed succeed_andThen andThen_assoc

/-- A pure step that may fail. -/
def ofExcept (result : Except StoreError α) : Action σ α := fun state => ⟨result, state, []⟩

/-- A call on the ledger. -/
def call (request : Call σ α) : Action σ α := fun state =>
  let (answer, state) := request state
  ⟨answer.mapError .ledger, state, []⟩

/-- Reports an event. -/
def emit (event : Event) : Action σ Unit := fun state => ⟨.ok (), state, [event]⟩

/-- Reports a failure of the action as its last event; the result stays the same. -/
def observe (op : Operation) (action : Action σ α) : Action σ α := fun state =>
  let outcome := action state
  match outcome.result with
  | .ok _ => outcome
  | .error error => { outcome with events := outcome.events ++ [.failure op error] }

/-! ### Cursors -/

/-- Runs an action that reads a cursor, and closes the cursor behind it.  If the
    action succeeds, a failure to close it is a failure; if it fails, its own
    failure is the one that counts. -/
def closing (A : Accessor σ) (cursor : Nat) (body : Action σ α) : Action σ α := fun state =>
  let outcome := body state
  let (closed, ledger) := A.close cursor outcome.ledger
  let result :=
    match outcome.result, closed with
    | .ok _, .error error => .error (.ledger error)
    | result, _ => result
  ⟨result, ledger, outcome.events⟩

/-- Reads the rows of a cursor one by one, at most `limit` of them if there is a
    limit, and collects what is made of each.  The first failure ends the reading. -/
def readRows (A : Accessor σ) (cursor : Nat) (each : ρ → Action σ α) :
    (limit : Option Nat) → List (Except LedgerError ρ) → Action σ (List α)
  | some 0, _ => succeed []
  | _, [] => do
    call (A.touch cursor)
    return []
  | _, .error error :: _ => do
    call (A.touch cursor)
    fail (.ledger error)
  | limit, .ok row :: rest => do
    call (A.touch cursor)
    let value ← each row
    let values ← readRows A cursor each (limit.map (· - 1)) rest
    return value :: values

/-- Reads a cursor to its limit or end, and closes it. -/
def drain (A : Accessor σ) (cursor : Cursor ρ) (limit : Option Nat) (each : ρ → Action σ α) :
    Action σ (List α) :=
  closing A cursor.id (readRows A cursor.id each limit cursor.rows)

end Action

end EntityStore
