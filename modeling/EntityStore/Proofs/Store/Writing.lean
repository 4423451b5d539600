/-
  EntityStore/Proofs/Store/Writing.lean
  =====================================
  **Everything that writes is one program.**  Puts, insertions and deletions, of entries
  and of key references, differ in the key that they name, in whether the key must be
  vacant, and in what they leave under it.  `Writing` describes these differences and
  `Writing.run` is the program; each request that writes runs its description
  (`StoreRequest.perform_eq_run`).

  `Writing.Ran` lists the six ways in which the program can end, with the calls that it
  made and the events that it reported, and `Writing.ran_run` says that there are no
  others.  What is proved of writes is proved of these six cases.
-/
import EntityStore.Proofs.KeyRef.Request
import EntityStore.Proofs.Store.Frame

namespace EntityStore

open EntityStore.Action

variable {σ α β : Type}

/-! ### The program -/

/-- What a request writes, and where. -/
structure Writing (α : Type) where
  /-- The operation that a failure is reported under. -/
  op : Operation
  /-- The operation that the write is reported under. -/
  kind : Operation
  partition : Partition
  key : Except StoreError ResolvedKey
  /-- The key must hold no payload. -/
  vacant : Bool := false
  /-- The payload to put, or none to remove what is there. -/
  payload? : Except StoreError (Option Bytes)
  answer : α

namespace Writing

variable (A : Accessor σ) (w : Writing α)

/-- Fails if the key must be vacant and is not. -/
def claim (key : ResolvedKey) : Action σ Unit :=
  if w.vacant then do
    let held ← Action.call (A.read w.partition key.encoded)
    if held.isEmpty then return ()
    else do
      emit (.conflict .insert key.encoded)
      fail (.alreadyExists key.origin.display)
  else return ()

def change (key : ResolvedKey) : Option Bytes → Call σ Unit
  | some payload => A.write w.partition key.encoded payload
  | none => A.delete w.partition key.encoded

def body : Action σ Unit := do
  let key ← ofExcept w.key
  w.claim A key
  let payload? ← ofExcept w.payload?
  Action.call (w.change A key payload?)
  emit (.write w.kind key.encoded w.partition.collection? (payload?.getD []).length)

def run : Action σ α := do
  observe w.op (w.body A)
  return w.answer

/-! ### How it ends -/

/-- The check of the key lets the writing go on: a key that must be vacant reads as the
    empty payload. -/
def Claims (key : ResolvedKey) (state behind : σ) : Prop :=
  if w.vacant then A.read w.partition key.encoded state = (.ok [], behind) else behind = state

/-- How a writing ends: the key is refused, its check fails, it is taken, the value has no
    payload, the ledger refuses, or the payload is written. -/
inductive Ran (state : σ) : Outcome σ α → Prop
  | misplaced {error : StoreError} (hkey : w.key = .error error) :
    Ran state ⟨.error error, state, [.failure w.op error]⟩
  | unread {key : ResolvedKey} {error : LedgerError} {behind : σ} (hkey : w.key = .ok key)
    (hvacant : w.vacant = true)
    (hread : A.read w.partition key.encoded state = (.error error, behind)) :
    Ran state ⟨.error (.ledger error), behind, [.failure w.op (.ledger error)]⟩
  | occupied {key : ResolvedKey} {held : Bytes} {behind : σ} (hkey : w.key = .ok key)
    (hvacant : w.vacant = true)
    (hread : A.read w.partition key.encoded state = (.ok held, behind)) (hheld : held ≠ []) :
    Ran state ⟨.error (.alreadyExists key.origin.display), behind,
      [.conflict .insert key.encoded, .failure w.op (.alreadyExists key.origin.display)]⟩
  | unencoded {key : ResolvedKey} {error : StoreError} {behind : σ} (hkey : w.key = .ok key)
    (hclaims : w.Claims A key state behind) (hpayload : w.payload? = .error error) :
    Ran state ⟨.error error, behind, [.failure w.op error]⟩
  | rejected {key : ResolvedKey} {payload? : Option Bytes} {error : LedgerError} {behind last : σ}
    (hkey : w.key = .ok key) (hclaims : w.Claims A key state behind)
    (hpayload : w.payload? = .ok payload?)
    (hcall : w.change A key payload? behind = (.error error, last)) :
    Ran state ⟨.error (.ledger error), last, [.failure w.op (.ledger error)]⟩
  | done {key : ResolvedKey} {payload? : Option Bytes} {behind last : σ} (hkey : w.key = .ok key)
    (hclaims : w.Claims A key state behind) (hpayload : w.payload? = .ok payload?)
    (hcall : w.change A key payload? behind = (.ok (), last)) :
    Ran state ⟨.ok w.answer, last,
      [.write w.kind key.encoded w.partition.collection? (payload?.getD []).length]⟩

variable {A w} {state behind : σ} {key : ResolvedKey}

theorem run_of_ok {events : List Event} (h : w.body A state = ⟨.ok (), behind, events⟩) :
    w.run A state = ⟨.ok w.answer, behind, events⟩ := by
  rw [run, bind_eq, andThen, observe_of_ok w.op h]
  exact congrArg _ (List.append_nil events)

theorem run_of_error {error : StoreError} {events : List Event}
    (h : w.body A state = ⟨.error error, behind, events⟩) :
    w.run A state = ⟨.error error, behind, events ++ [.failure w.op error]⟩ :=
  bind_of_error (observe_of_error w.op h)

theorem body_of_key (hkey : w.key = .ok key) :
    w.body A state = (do
      w.claim A key
      let payload? ← ofExcept w.payload?
      Action.call (w.change A key payload?)
      emit (.write w.kind key.encoded w.partition.collection? (payload?.getD []).length) :
        Action σ Unit) state := by
  rw [body, hkey]
  exact bind_of_silent rfl

/-- What follows a check that was passed. -/
theorem ran_of_claims (hkey : w.key = .ok key)
    (hclaim : w.claim A key state = ⟨.ok (), behind, []⟩) (hclaims : w.Claims A key state behind) :
    w.Ran A state (w.run A state) := by
  -- The value may not encode, the ledger may refuse the call, and otherwise the write is told.
  cases hpayload : w.payload? with
  | error error =>
    have hbody : w.body A state = ⟨.error error, behind, []⟩ := by
      rw [body_of_key hkey, bind_of_silent hclaim, hpayload]
      exact bind_of_error rfl
    rw [run_of_error hbody]
    exact .unencoded hkey hclaims hpayload
  | ok payload? =>
    rcases hcall : w.change A key payload? behind with ⟨error | ⟨⟩, last⟩
    · have hcalled : Action.call (w.change A key payload?) behind =
          ⟨.error (.ledger error), last, []⟩ := call_of_error hcall
      have hbody : w.body A state = ⟨.error (.ledger error), last, []⟩ := by
        rw [body_of_key hkey, bind_of_silent hclaim, hpayload, ofExcept_ok_bind]
        exact bind_of_error hcalled
      rw [run_of_error hbody]
      exact .rejected hkey hclaims hpayload hcall
    · have hcalled : Action.call (w.change A key payload?) behind = ⟨.ok (), last, []⟩ :=
        call_of_ok hcall
      have hbody : w.body A state = ⟨.ok (), last,
          [.write w.kind key.encoded w.partition.collection? (payload?.getD []).length]⟩ := by
        rw [body_of_key hkey, bind_of_silent hclaim, hpayload, ofExcept_ok_bind]
        exact bind_of_silent hcalled
      rw [run_of_ok hbody]
      exact .done hkey hclaims hpayload hcall

/-- **A writing ends in one of these ways.** -/
theorem ran_run (A : Accessor σ) (w : Writing α) (state : σ) : w.Ran A state (w.run A state) := by
  cases hkey : w.key with
  | error error =>
    have hbody : w.body A state = ⟨.error error, state, []⟩ := by
      rw [body, hkey]
      exact bind_of_error rfl
    rw [run_of_error hbody]
    exact .misplaced hkey
  | ok key =>
    cases hvacant : w.vacant with
    | false =>
      have hclaim : w.claim A key = pure () := by rw [claim, hvacant]; rfl
      refine ran_of_claims hkey (congrFun hclaim state) ?_
      rw [Claims, hvacant]
      rfl
    | true =>
      have hclaim : w.claim A key = (do
          let held ← Action.call (A.read w.partition key.encoded)
          if held.isEmpty then return ()
          else do
            emit (.conflict .insert key.encoded)
            fail (.alreadyExists key.origin.display)) := by
        rw [claim, hvacant]
        rfl
      -- The read can fail, find nothing or find a payload; only in the second case the writing
      -- goes on.
      rcases hread : A.read w.partition key.encoded state with ⟨error | ⟨- | ⟨byte, rest⟩⟩, behind⟩
      · have hbody : w.body A state = ⟨.error (.ledger error), behind, []⟩ := by
          rw [body_of_key hkey, hclaim]
          exact bind_of_error (bind_of_error (call_of_error hread))
        rw [run_of_error hbody]
        exact .unread hkey hvacant hread
      · have hclaimed : w.claim A key state = ⟨.ok (), behind, []⟩ := by
          rw [hclaim]
          exact bind_of_silent (call_of_ok hread)
        refine ran_of_claims hkey hclaimed ?_
        rw [Claims, if_pos hvacant]
        exact hread
      · have hbody : w.body A state = ⟨.error (.alreadyExists key.origin.display), behind,
            [.conflict .insert key.encoded]⟩ := by
          rw [body_of_key hkey, hclaim]
          exact bind_of_error (bind_of_silent (call_of_ok hread))
        rw [run_of_error hbody]
        exact .occupied hkey hvacant hread (List.cons_ne_nil byte rest)

/-- A writing stays within a frame that holds the reads of a ledger and the change that the
    writing describes. -/
theorem within_run {F : Frame σ} (hreads : F.Reads A)
    (hchanges : ∀ key, w.key = .ok key → ∀ payload?, w.payload? = .ok payload? →
      F.Calls (w.change A key payload?)) :
    Within F (w.run A) := by
  refine within_bind (within_observe w.op (within_ofExcept_bind fun key hkey => ?_))
    fun _ => within_pure _
  refine within_bind ?_ fun _ => within_ofExcept_bind fun payload? hpayload => ?_
  · unfold claim
    split
    · refine within_bind (within_call (hreads.read _ _)) fun held => ?_
      split
      · exact within_pure _
      · exact within_bind (within_emit _) fun _ => within_fail _
    · exact within_pure _
  · exact within_bind (within_call (hchanges key hkey payload? hpayload)) fun _ => within_emit _

end Writing

/-! ### Requests that write -/

namespace Store

variable (S : Store σ) (op : Operation) (p : Partition) (key : Except StoreError ResolvedKey)
  (codec : Codec α) (value : α)

/-- A value is put under a key, whatever was there. -/
def putting : Writing Unit where
  op := op
  kind := .put
  partition := p
  key := key
  payload? := (S.encodeValue codec value).map some
  answer := ()

/-- A value is put under a vacant key. -/
def inserting : Writing Unit :=
  { S.putting op p key codec value with kind := .insert, vacant := true }

/-- What is under a key is removed. -/
def deleting : Writing Unit where
  op := op
  kind := .delete
  partition := p
  key := key
  payload? := .ok none
  answer := ()

theorem ofExcept_map_bind {γ : Type} (result : Except StoreError α) (f : α → β)
    (next : β → Action σ γ) :
    (ofExcept (result.map f) >>= next) = ofExcept result >>= fun value => next (f value) := by
  cases result <;> rfl

theorem run_putting : (S.putting op p key codec value).run S.ledger =
    observe op (do S.putAt p (← ofExcept key) codec value) := by
  rw [Writing.run]
  refine (bind_pure _).trans (congrArg (observe op) ?_)
  refine congrArg (ofExcept key >>= ·) (funext fun key => ?_)
  exact ofExcept_map_bind _ some _

theorem run_inserting : (S.inserting op p key codec value).run S.ledger =
    observe op (do S.insertAt p (← ofExcept key) codec value) := by
  rw [Writing.run]
  refine (bind_pure _).trans (congrArg (observe op) ?_)
  refine congrArg (ofExcept key >>= ·) (funext fun key => ?_)
  refine congrArg (S.checkVacant p key >>= ·) (funext fun _ => ?_)
  exact ofExcept_map_bind _ some _

theorem run_deleting : (deleting op p key).run S.ledger =
    observe op (do S.deleteAt p (← ofExcept key)) := by
  rw [Writing.run]
  exact bind_pure _

end Store

/-! ### What each request writes -/

section Requests

variable (S : Store σ)

/-- What a request writes; reading requests write nothing. -/
def EntryRequest.writing? : EntryRequest α → Option (Writing α)
  | .put p source codec value => some (S.putting .put p (S.resolveWritable source) codec value)
  | .putEntity p T entity =>
    some (S.putting .put p (S.resolveWritable (T.source entity)) T.codec entity)
  | .putWithValues p T entity codec values =>
    match values with
    | [] => some (S.putting .put p (S.resolveWritable (T.source entity)) T.codec entity)
    | [value] => some (S.putting .put p (S.resolveWritable (T.source entity)) codec value)
    | values => some (S.putting .put p (.error (.tooManyValues values.length)) T.codec entity)
  | .insert p source codec value =>
    some (S.inserting .insert p (S.resolveWritable source) codec value)
  | .insertEntity p T entity =>
    some (S.inserting .insert p (S.resolveWritable (T.source entity)) T.codec entity)
  | .insertWithValues p T entity codec values =>
    match values with
    | [] => some (S.inserting .insert p (S.resolveWritable (T.source entity)) T.codec entity)
    | [value] => some (S.inserting .insert p (S.resolveWritable (T.source entity)) codec value)
    | values =>
      some (S.inserting .insert p (.error (.tooManyValues values.length)) T.codec entity)
  | .delete p source => some (Store.deleting .delete p (S.resolveWritable source))
  | .get .. | .get? .. | .getD .. | .contains .. => none

def KeyRefRequest.writing? : KeyRefRequest α → Option (Writing α)
  | .build ref =>
    let inserting := S.inserting .keyRef .world (S.resolve ref.id.source) Codec.key ref.primaryKey
    some { inserting with answer := ref }
  | .insert ref =>
    some (S.inserting .keyRef .world (S.resolve ref.id.source) Codec.key ref.primaryKey)
  | .put ref => some (S.putting .keyRef .world (S.resolve ref.id.source) Codec.key ref.primaryKey)
  | .delete id => some (Store.deleting .keyRef .world (S.resolve id.source))
  | .lookup _ | .getBy _ _ => none

def StoreRequest.writing? : StoreRequest α → Option (Writing α)
  | .entry request => request.writing? S
  | .keyRef request => request.writing? S

variable {S} {w : Writing α}

theorem EntryRequest.perform_eq_run {request : EntryRequest α} (h : request.writing? S = some w) :
    request.perform S = w.run S.ledger := by
  cases request with
  | get p source codec | get? p source codec | getD p source codec default | contains p source =>
    cases h
  | put p source codec value | putEntity p T entity =>
    cases h
    exact (S.run_putting ..).symm
  | putWithValues p T entity codec values =>
    rcases values with _ | ⟨value, _ | ⟨second, rest⟩⟩ <;> cases h
    · exact (S.run_putting ..).symm
    · exact (S.run_putting ..).symm
    · rfl
  | insert p source codec value | insertEntity p T entity =>
    cases h
    exact (S.run_inserting ..).symm
  | insertWithValues p T entity codec values =>
    rcases values with _ | ⟨value, _ | ⟨second, rest⟩⟩ <;> cases h
    · exact (S.run_inserting ..).symm
    · exact (S.run_inserting ..).symm
    · rfl
  | delete p source =>
    cases h
    exact (S.run_deleting ..).symm

theorem KeyRefRequest.perform_eq_run {request : KeyRefRequest α}
    (h : request.writing? S = some w) : request.perform S = w.run S.ledger := by
  cases request with
  | lookup id | getBy id codec => cases h
  | build ref =>
    cases h
    -- Building a reference is inserting it and giving it back, so the two differ in the answer
    -- only.
    have hinsert : S.insertKeyRef ref = observe .keyRef
        ((S.inserting .keyRef .world (S.resolve ref.id.source) Codec.key ref.primaryKey).body
          S.ledger) := (S.run_inserting ..).symm.trans (bind_pure _)
    show S.buildKeyRef ref = _
    rw [Store.buildKeyRef, hinsert]
    rfl
  | insert ref =>
    cases h
    exact (S.run_inserting ..).symm
  | put ref =>
    cases h
    exact (S.run_putting ..).symm
  | delete id =>
    cases h
    exact (S.run_deleting ..).symm

/-- **A request that writes runs its description.** -/
theorem StoreRequest.perform_eq_run {request : StoreRequest α} (h : request.writing? S = some w) :
    request.perform S = w.run S.ledger := by
  cases request with
  | entry request => exact request.perform_eq_run h
  | keyRef request => exact request.perform_eq_run h

/-! ### Which key is written -/

theorem resolve_of_resolveWritable {source : KeySource} {key : ResolvedKey}
    (h : S.resolveWritable source = .ok key) : S.resolve source = .ok key := by
  obtain ⟨found, hfound, hguard⟩ := bind_eq_ok_iff.mp h
  obtain ⟨-, -, hsame⟩ := bind_eq_ok_iff.mp hguard
  cases hsame
  exact hfound

variable {key : ResolvedKey}

/-- A writing of entries is under the key that the request names, outside the namespace
    of the key references. -/
theorem EntryRequest.key_of_writing {request : EntryRequest α} (h : request.writing? S = some w)
    (hkey : w.key = .ok key) :
    w.partition = request.target.1 ∧ S.resolveWritable request.target.2 = .ok key := by
  cases request with
  | get p source codec | get? p source codec | getD p source codec default | contains p source =>
    cases h
  | put p source codec value | putEntity p T entity | insert p source codec value
  | insertEntity p T entity | delete p source =>
    cases h
    exact ⟨rfl, hkey⟩
  | putWithValues p T entity codec values | insertWithValues p T entity codec values =>
    rcases values with _ | ⟨value, _ | ⟨second, rest⟩⟩ <;> cases h
    · exact ⟨rfl, hkey⟩
    · exact ⟨rfl, hkey⟩
    · cases hkey

theorem KeyRefRequest.key_of_writing {request : KeyRefRequest α}
    (h : request.writing? S = some w) (hkey : w.key = .ok key) :
    w.partition = .world ∧ S.resolve request.target.source = .ok key := by
  cases request with
  | lookup id | getBy id codec => cases h
  | build ref | insert ref | put ref | delete id =>
    cases h
    exact ⟨rfl, hkey⟩

/-- What is written under the key of a reference is a primary key. -/
theorem KeyRefRequest.payload_of_writing {request : KeyRefRequest α}
    (h : request.writing? S = some w) {payload : Bytes} (hpayload : w.payload? = .ok (some payload)) :
    ∃ primaryKey : Key, S.encodeValue Codec.key primaryKey = .ok payload := by
  cases request with
  | lookup id | getBy id codec => cases h
  | delete id =>
    cases h
    cases hpayload
  | build ref | insert ref | put ref =>
    cases h
    obtain ⟨encoded, hencoded, hsame⟩ := map_eq_ok_iff.mp hpayload
    cases hsame
    exact ⟨ref.primaryKey, hencoded⟩

/-- A writing is under the key that the request names. -/
theorem StoreRequest.key_of_writing {request : StoreRequest α} (h : request.writing? S = some w)
    (hkey : w.key = .ok key) :
    w.partition = request.target.1 ∧ S.resolve request.target.2 = .ok key := by
  cases request with
  | entry request =>
    obtain ⟨hp, hresolve⟩ := request.key_of_writing h hkey
    exact ⟨hp, resolve_of_resolveWritable hresolve⟩
  | keyRef request => exact request.key_of_writing h hkey

end Requests

end EntityStore
