/-
  EntityStore/Proofs/Ledger/Recorded.lean
  =======================================
  **Watching a ledger.**  `Accessor.recorded` is a ledger that answers as another one does
  and keeps a record of the calls that it answered.  An action cannot tell the two
  apart (`Action.Mirrors`), so what the record says of the one run is what happens in
  the other.  `Action.Records` says what an action leaves in the record, put together
  from what its steps leave there.
-/
import EntityStore.Proofs.Except
import EntityStore.Proofs.Store.Answer
import EntityStore.Proofs.Store.Frame

namespace EntityStore

open EntityStore.Action

/-! ### Records -/

/-- A call that a ledger answered.  Of a cursor that was opened the record keeps the
    number. -/
inductive LedgerCall where
  | read (p : Partition) (key : String) (answer : Except LedgerError Bytes)
  | write (p : Partition) (key : String) (payload : Bytes) (answer : Except LedgerError Unit)
  | delete (p : Partition) (key : String) (answer : Except LedgerError Unit)
  | opened (answer : Except LedgerError Nat)
  | touched (cursor : Nat) (answer : Except LedgerError Unit)
  | closed (cursor : Nat) (answer : Except LedgerError Unit)

/-- The state of a ledger, and the calls that it answered, the oldest first. -/
structure Recorded (σ : Type) where
  inner : σ
  calls : List LedgerCall

namespace LedgerCall

/-- The ledger did what it was asked to do. -/
def Succeeded : LedgerCall → Prop
  | read _ _ answer => ∃ payload, answer = .ok payload
  | opened answer => ∃ cursor, answer = .ok cursor
  | write _ _ _ answer | delete _ _ answer | touched _ answer | closed _ answer => answer = .ok ()

/-- Where a point read looked, and the payload that it gave. -/
def fetched? : LedgerCall → Option (Partition × String × Bytes)
  | read p key (.ok payload) => some (p, key, payload)
  | _ => none

end LedgerCall

/-- The payloads that point reads gave. -/
def fetches (calls : List LedgerCall) : List (Partition × String × Bytes) :=
  calls.filterMap LedgerCall.fetched?

@[simp] theorem fetches_append (calls more : List LedgerCall) :
    fetches (calls ++ more) = fetches calls ++ fetches more := List.filterMap_append

/-! ### The ledger that keeps a record -/

variable {σ α β ρ : Type}

/-- A call that is noted with its answer. -/
def Recorded.noting (note : Except LedgerError α → LedgerCall) (request : Call σ α) :
    Call (Recorded σ) α := fun state =>
  let (answer, inner) := request state.inner
  (answer, ⟨inner, state.calls ++ [note answer]⟩)

/-- A ledger that answers as `A` does, and keeps a record. -/
def Accessor.recorded (A : Accessor σ) : Accessor (Recorded σ) where
  read p key := Recorded.noting (.read p key) (A.read p key)
  write p key payload := Recorded.noting (.write p key payload) (A.write p key payload)
  delete p key := Recorded.noting (.delete p key) (A.delete p key)
  scan p objectType attributes :=
    Recorded.noting (fun answer => .opened (answer.map Cursor.id))
      (A.scan p objectType attributes)
  scanPage objectType attributes pageSize bookmark :=
    Recorded.noting (fun answer => .opened (answer.map fun page => page.1.id))
      (A.scanPage objectType attributes pageSize bookmark)
  history key := Recorded.noting (fun answer => .opened (answer.map Cursor.id)) (A.history key)
  touch cursor := Recorded.noting (.touched cursor) (A.touch cursor)
  close cursor := Recorded.noting (.closed cursor) (A.close cursor)
  query text := Recorded.noting (fun answer => .opened (answer.map Cursor.id)) (A.query text)
  queryPage text pageSize bookmark :=
    Recorded.noting (fun answer => .opened (answer.map fun page => page.1.id))
      (A.queryPage text pageSize bookmark)
  joinKey := A.joinKey
  splitKey := A.splitKey

/-- The same store over a ledger that keeps a record. -/
def Store.recorded (S : Store σ) : Store (Recorded σ) where
  ledger := S.ledger.recorded
  keys := S.keys
  payloads := S.payloads
  config := S.config

/-! ### Nothing changes by being watched -/

/-- An outcome without the record. -/
def Outcome.forget (outcome : Outcome (Recorded σ) α) : Outcome σ α :=
  ⟨outcome.result, outcome.ledger.inner, outcome.events⟩

namespace Action

/-- Two actions do the same, one of them on a ledger that keeps a record. -/
def Mirrors (seen : Action (Recorded σ) α) (plain : Action σ α) : Prop :=
  ∀ state : Recorded σ, (seen state).forget = plain state.inner

theorem mirrors_pure (value : α) : Mirrors (pure value) (pure value : Action σ α) := fun _ => rfl

theorem mirrors_fail (error : StoreError) : Mirrors (fail error) (fail error : Action σ α) :=
  fun _ => rfl

theorem mirrors_ofExcept (result : Except StoreError α) :
    Mirrors (ofExcept result) (ofExcept result : Action σ α) := fun _ => rfl

theorem mirrors_emit (event : Event) : Mirrors (emit event) (emit event : Action σ Unit) :=
  fun _ => rfl

theorem mirrors_call (note : Except LedgerError α → LedgerCall) (request : Call σ α) :
    Mirrors (call (Recorded.noting note request)) (call request) := fun _ => rfl

theorem mirrors_bind {seen : Action (Recorded σ) α} {plain : Action σ α}
    {seenNext : α → Action (Recorded σ) β} {plainNext : α → Action σ β} (h : Mirrors seen plain)
    (hnext : ∀ value, Mirrors (seenNext value) (plainNext value)) :
    Mirrors (seen >>= seenNext) (plain >>= plainNext) := by
  intro state
  have hfirst := h state
  rw [bind_eq, bind_eq]
  unfold andThen
  rcases hseen : seen state with ⟨error | value, ledger, events⟩
  · rw [hseen] at hfirst
    rw [← hfirst]
    rfl
  · rw [hseen] at hfirst
    simp only [← hfirst, Outcome.forget]
    rw [← hnext value ledger]
    rfl

theorem mirrors_observe (op : Operation) {seen : Action (Recorded σ) α} {plain : Action σ α}
    (h : Mirrors seen plain) : Mirrors (observe op seen) (observe op plain) := by
  intro state
  unfold observe
  rw [← h state]
  rcases seen state with ⟨error | value, ledger, events⟩ <;> rfl

variable {A : Accessor σ}

theorem mirrors_closing (cursor : Nat) {seen : Action (Recorded σ) α} {plain : Action σ α}
    (h : Mirrors seen plain) :
    Mirrors (closing A.recorded cursor seen) (closing A cursor plain) := by
  intro state
  unfold closing
  rw [← h state]
  rfl

theorem mirrors_readRows (cursor : Nat) {seen : ρ → Action (Recorded σ) α}
    {plain : ρ → Action σ α} (h : ∀ row, Mirrors (seen row) (plain row)) (limit : Option Nat)
    (rows : List (Except LedgerError ρ)) :
    Mirrors (readRows A.recorded cursor seen limit rows) (readRows A cursor plain limit rows) := by
  have htouch : Mirrors (call (A.recorded.touch cursor)) (call (A.touch cursor)) :=
    mirrors_call (.touched cursor) (A.touch cursor)
  fun_induction readRows A cursor plain limit rows with
  | case1 =>
    rw [readRows]
    exact mirrors_pure []
  | case2 limit hlimit =>
    rw [readRows]
    · exact mirrors_bind htouch fun _ => mirrors_pure []
    · exact hlimit
  | case3 limit error rest hlimit =>
    rw [readRows]
    · exact mirrors_bind htouch fun _ => mirrors_fail _
    · exact hlimit
  | case4 limit row rest hlimit ih =>
    rw [readRows]
    · refine mirrors_bind htouch fun _ => mirrors_bind (h row) fun value => ?_
      exact mirrors_bind ih fun values => mirrors_pure _
    · exact hlimit

theorem mirrors_drain (cursor : Cursor ρ) (limit : Option Nat) {seen : ρ → Action (Recorded σ) α}
    {plain : ρ → Action σ α} (h : ∀ row, Mirrors (seen row) (plain row)) :
    Mirrors (drain A.recorded cursor limit seen) (drain A cursor limit plain) :=
  mirrors_closing cursor.id (mirrors_readRows cursor.id h limit cursor.rows)

/-! ### What an action leaves in the record -/

/-- The calls of an action are all of a kind, and if it succeeds, all of them did, and
    they are as told for its value. -/
def Records (kind : LedgerCall → Prop) (gives : List LedgerCall → α → Prop)
    (action : Action (Recorded σ) α) : Prop :=
  ∀ state : Recorded σ, ∃ calls, (action.answer state).2.calls = state.calls ++ calls ∧
    (∀ call ∈ calls, kind call) ∧
    ∀ value, (action.answer state).1 = .ok value →
      (∀ call ∈ calls, call.Succeeded) ∧ gives calls value

variable {kind : LedgerCall → Prop} {gives more : List LedgerCall → α → Prop}

theorem Records.imp {action : Action (Recorded σ) α} (h : Records kind gives action)
    (himp : ∀ calls value, gives calls value → more calls value) : Records kind more action := by
  intro state
  obtain ⟨calls, hcalls, hkind, hgives⟩ := h state
  refine ⟨calls, hcalls, hkind, ?_⟩
  intro value hvalue
  exact ⟨(hgives value hvalue).1, himp calls value (hgives value hvalue).2⟩

theorem records_ofExcept (result : Except StoreError α) :
    Records kind (fun calls value => calls = [] ∧ result = .ok value)
      (ofExcept result : Action (Recorded σ) α) := fun _ =>
  ⟨[], (List.append_nil _).symm, nofun, fun _ hvalue => ⟨nofun, rfl, hvalue⟩⟩

theorem records_pure (value : α) :
    Records kind (fun calls result => calls = [] ∧ value = result)
      (pure value : Action (Recorded σ) α) :=
  (records_ofExcept (.ok value)).imp fun _ _ h => ⟨h.1, Except.ok.inj h.2⟩

theorem records_fail (error : StoreError) :
    Records kind gives (fail error : Action (Recorded σ) α) :=
  (records_ofExcept (.error error)).imp fun _ _ h => nomatch h.2

theorem records_call {note : Except LedgerError α → LedgerCall} (request : Call σ α)
    (hkind : ∀ answer, kind (note answer)) (hnote : ∀ value, (note (.ok value)).Succeeded) :
    Records kind (fun calls value => calls = [note (.ok value)])
      (call (Recorded.noting note request)) := by
  intro state
  refine ⟨[note (request state.inner).1], rfl, by simpa using hkind _, ?_⟩
  intro value hvalue
  have hanswer : (request state.inner).1 = .ok value := mapError_eq_ok_iff.mp hvalue
  rw [hanswer]
  exact ⟨by simpa using hnote value, rfl⟩

theorem records_bind {first : Action (Recorded σ) α} {second : α → Action (Recorded σ) β}
    {next : α → List LedgerCall → β → Prop} (hfirst : Records kind gives first)
    (hsecond : ∀ value, Records kind (next value) (second value)) :
    Records kind (fun calls result => ∃ value before behind, calls = before ++ behind ∧
      gives before value ∧ next value behind result) (first >>= second) := by
  intro state
  obtain ⟨before, hbefore, hkind, hgives⟩ := hfirst state
  rw [answer_bind]
  rcases hanswer : first.answer state with ⟨error | value, middle⟩ <;> rw [hanswer] at hbefore
  · exact ⟨before, hbefore, hkind, nofun⟩
  · obtain ⟨behind, hbehind, hkind', hnext⟩ := hsecond value middle
    obtain ⟨hsucceeded, hvalue⟩ := hgives value (by rw [hanswer])
    refine ⟨before ++ behind, ?_, ?_, ?_⟩
    · rw [← List.append_assoc, ← hbefore]
      exact hbehind
    · exact List.forall_mem_append.mpr ⟨hkind, hkind'⟩
    · intro result hresult
      obtain ⟨hsucceeded', hresult⟩ := hnext result hresult
      refine ⟨List.forall_mem_append.mpr ⟨hsucceeded, hsucceeded'⟩, ?_⟩
      exact ⟨value, before, behind, rfl, hvalue, hresult⟩

end Action

end EntityStore
