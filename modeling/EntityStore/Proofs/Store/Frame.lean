/-
  EntityStore/Proofs/Store/Frame.lean
  ===================================
  **What an action can do to the state of a ledger.**  A frame is a relation between
  the state before and the state behind, which allows doing nothing and doing one thing
  after another.  An action whose calls on the ledger stay within a frame stays within
  it, so a frame is checked call by call and never operation by operation.
-/
import EntityStore.Store.Entry

namespace EntityStore

open EntityStore.Action

/-- What steps may make of a state. -/
structure Frame (σ : Type) where
  allows : σ → σ → Prop
  refl (state : σ) : allows state state
  trans {before state behind : σ} : allows before state → allows state behind →
    allows before behind

namespace Frame

variable {σ τ α : Type}

/-- A part of the state stays the same. -/
def keeping (part : σ → τ) : Frame σ where
  allows before behind := part behind = part before
  refl _ := rfl
  trans hfirst hsecond := hsecond.trans hfirst

/-- What held of the state still does. -/
def preserving (holds : σ → Prop) : Frame σ where
  allows before behind := holds before → holds behind
  refl _ := id
  trans hfirst hsecond := hsecond ∘ hfirst

variable (F : Frame σ)

/-- A call stays within the frame. -/
def Calls (request : Call σ α) : Prop := ∀ state, F.allows state (request state).2

/-- The calls that read a ledger stay within the frame: point reads, and everything
    about cursors. -/
structure Reads (A : Accessor σ) : Prop where
  read (p : Partition) (key : String) : F.Calls (A.read p key)
  scan (p : Partition) (objectType : String) (attributes : List String) :
    F.Calls (A.scan p objectType attributes)
  scanPage (objectType : String) (attributes : List String) (pageSize : Nat) (bookmark : String) :
    F.Calls (A.scanPage objectType attributes pageSize bookmark)
  history (key : String) : F.Calls (A.history key)
  query (text : String) : F.Calls (A.query text)
  queryPage (text : String) (pageSize : Nat) (bookmark : String) :
    F.Calls (A.queryPage text pageSize bookmark)
  touch (cursor : Nat) : F.Calls (A.touch cursor)
  close (cursor : Nat) : F.Calls (A.close cursor)

variable {F}

theorem Reads.imp {G : Frame σ} {A : Accessor σ}
    (himp : ∀ before behind, F.allows before behind → G.allows before behind) (h : F.Reads A) :
    G.Reads A where
  read p key state := himp _ _ (h.read p key state)
  scan p objectType attributes state := himp _ _ (h.scan p objectType attributes state)
  scanPage objectType attributes pageSize bookmark state :=
    himp _ _ (h.scanPage objectType attributes pageSize bookmark state)
  history key state := himp _ _ (h.history key state)
  query text state := himp _ _ (h.query text state)
  queryPage text pageSize bookmark state := himp _ _ (h.queryPage text pageSize bookmark state)
  touch cursor state := himp _ _ (h.touch cursor state)
  close cursor state := himp _ _ (h.close cursor state)

end Frame

namespace Action

variable {σ α β ρ : Type} {F : Frame σ} {A : Accessor σ}

/-- Whatever an action does stays within a frame. -/
def Within (F : Frame σ) (action : Action σ α) : Prop :=
  ∀ state, F.allows state (action state).ledger

theorem within_pure (value : α) : Within F (pure value : Action σ α) := F.refl

theorem within_fail (error : StoreError) : Within F (fail error : Action σ α) := F.refl

theorem within_ofExcept (result : Except StoreError α) : Within F (ofExcept result) := F.refl

theorem within_emit (event : Event) : Within F (emit event) := F.refl

theorem within_call {request : Call σ α} (h : F.Calls request) : Within F (call request) := h

theorem within_bind_of {first : Action σ α} {second : α → Action σ β} (hfirst : Within F first)
    (hsecond : ∀ state value, (first state).result = .ok value → Within F (second value)) :
    Within F (first >>= second) := by
  intro state
  rw [bind_eq]
  cases h : (first state).result with
  | ok value =>
    rw [andThen_of_ok h]
    exact F.trans (hfirst state) (hsecond state value h _)
  | error error =>
    rw [andThen_of_error h]
    exact hfirst state

theorem within_bind {first : Action σ α} {second : α → Action σ β} (hfirst : Within F first)
    (hsecond : ∀ value, Within F (second value)) : Within F (first >>= second) :=
  within_bind_of hfirst fun _ value _ => hsecond value

theorem within_ofExcept_bind {result : Except StoreError α} {second : α → Action σ β}
    (h : ∀ value, result = .ok value → Within F (second value)) :
    Within F (ofExcept result >>= second) :=
  within_bind_of (within_ofExcept result) fun _ => h

theorem within_observe (op : Operation) {action : Action σ α} (h : Within F action) :
    Within F (observe op action) := by
  intro state
  unfold observe
  cases hresult : (action state).result <;> simp only [hresult] <;> exact h state

/-! ### Cursors -/

theorem within_closing (hA : F.Reads A) (cursor : Nat) {body : Action σ α} (h : Within F body) :
    Within F (closing A cursor body) := fun state =>
  F.trans (h state) (hA.close cursor _)

theorem within_readRows (hA : F.Reads A) (cursor : Nat) {each : ρ → Action σ α}
    (heach : ∀ row, Within F (each row)) (limit : Option Nat)
    (rows : List (Except LedgerError ρ)) : Within F (readRows A cursor each limit rows) := by
  have htouch : Within F (call (A.touch cursor)) := within_call (hA.touch cursor)
  fun_induction readRows A cursor each limit rows with
  | case1 => exact within_pure _
  | case2 => exact within_bind htouch fun _ => within_pure _
  | case3 => exact within_bind htouch fun _ => within_fail _
  | case4 limit row rest _ ih =>
    refine within_bind htouch fun _ => within_bind (heach row) fun value => ?_
    exact within_bind ih fun values => within_pure _

theorem within_drain (hA : F.Reads A) (cursor : Cursor ρ) (limit : Option Nat)
    {each : ρ → Action σ α} (heach : ∀ row, Within F (each row)) :
    Within F (drain A cursor limit each) :=
  within_closing hA cursor.id (within_readRows hA cursor.id heach limit cursor.rows)

end Action

end EntityStore
