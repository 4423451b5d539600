/-
  EntityStore/Proofs/Store/Accounts.lean
  ======================================
  **Events account for what happened.**

  What a request reports is held against what it answers and against the calls that its
  ledger answered, which a recording ledger shows (`Accounts`).  A request that fails tells so once,
  in its last event, and with the failure that it returns; one that succeeds tells of no
  failure.  Reports of writes are the writes and deletions that the ledger did, one by
  one, and a conflict is reported by an insertion that finds a payload under its key.

  Actions that only read report no write, no conflict and no failure of their own
  (`Action.Reports`), and whoever observes them adds the failure (`Outcome.Tells`).  For
  requests that write, the six ways to end are gone through.
-/
import EntityStore.Proofs.Event.Metrics
import EntityStore.Proofs.Store.Run
import EntityStore.Proofs.Store.Within

namespace EntityStore

open EntityStore.Action

variable {σ α β ρ : Type}

/-! ### What actions report -/

namespace Action

variable {kind : Event → Prop}

/-- The events of an action are of a kind. -/
def Reports (kind : Event → Prop) (action : Action σ α) : Prop :=
  ∀ state, ∀ event ∈ (action state).events, kind event

theorem reports_pure (value : α) : Reports kind (pure value : Action σ α) :=
  fun _ => List.forall_mem_nil _

theorem reports_fail (error : StoreError) : Reports kind (fail error : Action σ α) :=
  fun _ => List.forall_mem_nil _

theorem reports_ofExcept (result : Except StoreError α) :
    Reports kind (ofExcept result : Action σ α) := fun _ => List.forall_mem_nil _

theorem reports_call (request : Call σ α) : Reports kind (call request) :=
  fun _ => List.forall_mem_nil _

theorem reports_emit {event : Event} (h : kind event) :
    Reports kind (emit event : Action σ Unit) := by
  intro state reported hreported
  rwa [List.mem_singleton.mp hreported]

theorem reports_bind {first : Action σ α} {second : α → Action σ β} (hfirst : Reports kind first)
    (hsecond : ∀ value, Reports kind (second value)) : Reports kind (first >>= second) := by
  intro state event hevent
  rw [bind_eq] at hevent
  cases hresult : (first state).result with
  | error error =>
    rw [andThen_of_error hresult] at hevent
    exact hfirst state event hevent
  | ok value =>
    rw [andThen_of_ok hresult] at hevent
    rcases List.mem_append.mp hevent with hbefore | hbehind
    · exact hfirst state event hbefore
    · exact hsecond value _ event hbehind

theorem reports_readRows (A : Accessor σ) (cursor : Nat) {each : ρ → Action σ α}
    (heach : ∀ row, Reports kind (each row)) (limit : Option Nat)
    (rows : List (Except LedgerError ρ)) : Reports kind (readRows A cursor each limit rows) := by
  have htouch : Reports kind (call (A.touch cursor)) := reports_call _
  fun_induction readRows A cursor each limit rows with
  | case1 => exact reports_pure _
  | case2 => exact reports_bind htouch fun _ => reports_pure _
  | case3 => exact reports_bind htouch fun _ => reports_fail _
  | case4 limit row rest _ ih =>
    refine reports_bind htouch fun _ => reports_bind (heach row) fun value => ?_
    exact reports_bind ih fun values => reports_pure _

theorem reports_drain (A : Accessor σ) (cursor : Cursor ρ) (limit : Option Nat)
    {each : ρ → Action σ α} (heach : ∀ row, Reports kind (each row)) :
    Reports kind (drain A cursor limit each) :=
  reports_readRows A cursor.id heach limit cursor.rows

end Action

/-- The events of an outcome are of a kind; if it is a failure, one more comes behind them
    and tells of it. -/
structure Outcome.Tells (kind : Event → Prop) (outcome : Outcome σ α) : Prop where
  ok : ∀ value, outcome.result = .ok value → ∀ event ∈ outcome.events, kind event
  failed : ∀ error, outcome.result = .error error →
    ∃ before op, outcome.events = before ++ [.failure op error] ∧ ∀ event ∈ before, kind event

namespace Action

variable {kind : Event → Prop}

theorem tells_observe (op : Operation) {action : Action σ α} (h : Reports kind action)
    (state : σ) : (observe op action state).Tells kind := by
  have hkind := h state
  rcases haction : action state with ⟨error | value, behind, events⟩
  · rw [observe_of_error op haction]
    rw [haction] at hkind
    exact ⟨nofun, fun _ herror => Except.error.inj herror ▸ ⟨events, op, rfl, hkind⟩⟩
  · rw [observe_of_ok op haction]
    rw [haction] at hkind
    exact ⟨fun _ _ => hkind, nofun⟩

theorem tells_bind {first : Action σ α} {second : α → Action σ β} {state : σ}
    (hfirst : (first state).Tells kind)
    (hsecond : ∀ value, (first state).result = .ok value →
      ∀ behind, (second value behind).Tells kind) : ((first >>= second) state).Tells kind := by
  rw [bind_eq]
  cases hresult : (first state).result with
  | error error =>
    rw [andThen_of_error hresult]
    exact ⟨nofun, fun _ herror => Except.error.inj herror ▸ hfirst.failed error hresult⟩
  | ok value =>
    rw [andThen_of_ok hresult]
    have hbefore := hfirst.ok value hresult
    have htold := hsecond value hresult (first state).ledger
    refine ⟨fun answer hanswer => ?_, fun error herror => ?_⟩
    · exact List.forall_mem_append.mpr ⟨hbefore, htold.ok answer hanswer⟩
    · obtain ⟨more, op, hevents, hmore⟩ := htold.failed error herror
      refine ⟨(first state).events ++ more, op, ?_, List.forall_mem_append.mpr ⟨hbefore, hmore⟩⟩
      rw [hevents, List.append_assoc]

end Action

/-! ### Requests that only read -/

/-- The event reports a point read or the rows of a cursor. -/
def Event.IsReading : Event → Prop
  | read .. | scan .. => True
  | write .. | conflict .. | failure .. => False

theorem Scan.reports_run (A : Accessor σ) (op : Operation) (scan : Scan β) :
    Reports Event.IsReading (scan.run A op) := by
  have heach (row : scan.ρ) : Reports Event.IsReading (scan.each A row) := by
    unfold Scan.each
    split
    · exact reports_ofExcept _
    · exact reports_bind (reports_call _) fun _ => reports_ofExcept _
  refine reports_bind (reports_call _) fun opened => ?_
  refine reports_bind (reports_drain A _ _ heach) fun values => ?_
  exact reports_bind (reports_emit trivial) fun _ => reports_ofExcept _

theorem ScanRequest.tells_perform (S : Store σ) (request : ScanRequest β) (state : σ) :
    (request.perform S state).Tells Event.IsReading := by
  rw [perform_eq]
  refine tells_observe request.op ?_ state
  cases request.scan S with
  | ok scan => exact scan.reports_run S.ledger request.op
  | error error => exact reports_fail error

namespace Store

variable (S : Store σ)

theorem reports_fetch (p : Partition) (source : KeySource) (codec : Codec α) :
    Reports Event.IsReading (S.fetch p source codec) := by
  refine reports_bind (reports_ofExcept _) fun key => ?_
  refine reports_bind (reports_call _) fun payload => ?_
  refine reports_bind (reports_emit trivial) fun _ => ?_
  split
  · exact reports_pure _
  · exact reports_bind (reports_ofExcept _) fun _ => reports_pure _

theorem tells_get (p : Partition) (source : KeySource) (codec : Codec α) (state : σ) :
    (S.get p source codec state).Tells Event.IsReading := by
  refine tells_observe .get (reports_bind (S.reports_fetch p source codec) ?_) state
  rintro ⟨key, _ | value⟩
  · exact reports_fail _
  · exact reports_pure _

theorem tells_lookupKeyRef (id : KeyRefId) (state : σ) :
    (S.lookupKeyRef id state).Tells Event.IsReading :=
  tells_observe .keyRef
    (reports_bind (S.reports_fetch .world id.source Codec.key) fun _ => reports_pure _) state

/-- A reference that could be looked up has a key. -/
theorem key_of_lookupKeyRef {id : KeyRefId} {state : σ} {found : Option Key}
    (h : (S.lookupKeyRef id state).result = .ok found) : ∃ key, id.key = .ok key := by
  cases hkey : id.key with
  | ok key => exact ⟨key, rfl⟩
  | error error =>
    have hresolve : S.resolve id.source = .error error.asKeyFailure := by
      rw [resolve, KeyRefId.source, hkey]
      rfl
    have hanswer : ((S.lookupKeyRef id).answer state).1 = .error error.asKeyFailure := by
      simp only [lookupKeyRef, fetch, hresolve, answer_observe]
      rfl
    cases hanswer.symm.trans h

theorem tells_getByKeyRef (id : KeyRefId) (codec : Codec α) (state : σ) :
    (S.getByKeyRef id codec state).Tells Event.IsReading := by
  refine tells_bind (S.tells_lookupKeyRef id state) fun found hfound behind => ?_
  cases found with
  | some primaryKey => exact S.tells_get .world (.given primaryKey) codec behind
  | none =>
    obtain ⟨key, hkey⟩ := S.key_of_lookupKeyRef hfound
    rw [hkey]
    exact tells_observe .keyRef (reports_fail _) behind

end Store

theorem AnyRequest.tells_reading {S : Store σ} {request : AnyRequest α}
    (h : request.writing? S = none) (state : σ) :
    (request.perform S state).Tells Event.IsReading := by
  cases request with
  | scan request => exact request.tells_perform S state
  | stored request =>
    cases request with
    | keyRef request =>
      cases request with
      | build ref | insert ref | put ref | delete id => cases h
      | lookup id => exact S.tells_lookupKeyRef id state
      | getBy id codec => exact S.tells_getByKeyRef id codec state
    | entry request =>
      cases request with
      | get p source codec => exact S.tells_get p source codec state
      | get? p source codec | getD p source codec default =>
        exact tells_observe .get
          (reports_bind (S.reports_fetch p source codec) fun _ => reports_pure _) state
      | contains p source =>
        refine tells_observe .contains (reports_bind (reports_ofExcept _) fun key => ?_) state
        refine reports_bind (reports_call _) fun payload => ?_
        exact reports_bind (reports_emit trivial) fun _ => reports_pure _
      -- Puts and insertions describe a writing, however many values they are given.
      | putWithValues p T entity codec values | insertWithValues p T entity codec values =>
        rcases values with _ | ⟨value, _ | ⟨second, rest⟩⟩ <;> cases h
      | _ => cases h

/-! ### Requests on a ledger that keeps a record -/

theorem Writing.mirrors_run (A : Accessor σ) (w : Writing α) :
    Mirrors (w.run A.recorded) (w.run A) := by
  have hchange (key : ResolvedKey) (payload? : Option Bytes) :
      Mirrors (call (w.change A.recorded key payload?)) (call (w.change A key payload?)) := by
    cases payload? with
    | some payload => exact mirrors_call _ _
    | none => exact mirrors_call _ _
  have hclaim (key : ResolvedKey) : Mirrors (w.claim A.recorded key) (w.claim A key) := by
    unfold claim
    split
    · refine mirrors_bind (mirrors_call _ _) fun held => ?_
      split
      · exact mirrors_pure _
      · exact mirrors_bind (mirrors_emit _) fun _ => mirrors_fail _
    · exact mirrors_pure _
  refine mirrors_bind (mirrors_observe w.op ?_) fun _ => mirrors_pure _
  refine mirrors_bind (mirrors_ofExcept _) fun key => mirrors_bind (hclaim key) fun _ => ?_
  refine mirrors_bind (mirrors_ofExcept _) fun payload? => ?_
  exact mirrors_bind (hchange key payload?) fun _ => mirrors_emit _

/-- What is written says nothing of the ledger. -/
theorem AnyRequest.writing?_recorded (S : Store σ) (request : AnyRequest α) :
    request.writing? S.recorded = request.writing? S := by
  cases request with
  | scan request => rfl
  | stored request => rcases request with ⟨⟨⟩⟩ | ⟨⟨⟩⟩ <;> rfl

namespace Store

variable (S : Store σ)

theorem mirrors_fetch (p : Partition) (source : KeySource) (codec : Codec α) :
    Mirrors (S.recorded.fetch p source codec) (S.fetch p source codec) := by
  refine mirrors_bind (mirrors_ofExcept _) fun key => ?_
  refine mirrors_bind (mirrors_call _ _) fun payload => ?_
  refine mirrors_bind (mirrors_emit _) fun _ => ?_
  split
  · exact mirrors_pure _
  · exact mirrors_bind (mirrors_ofExcept _) fun _ => mirrors_pure _

theorem mirrors_get (p : Partition) (source : KeySource) (codec : Codec α) :
    Mirrors (S.recorded.get p source codec) (S.get p source codec) := by
  refine mirrors_observe .get (mirrors_bind (S.mirrors_fetch p source codec) ?_)
  rintro ⟨key, _ | value⟩
  · exact mirrors_fail _
  · exact mirrors_pure _

theorem mirrors_lookupKeyRef (id : KeyRefId) :
    Mirrors (S.recorded.lookupKeyRef id) (S.lookupKeyRef id) :=
  mirrors_observe .keyRef
    (mirrors_bind (S.mirrors_fetch .world id.source Codec.key) fun _ => mirrors_pure _)

end Store

/-- A request does the same on a ledger that keeps a record. -/
theorem AnyRequest.mirrors_perform (S : Store σ) (request : AnyRequest α) :
    Mirrors (request.perform S.recorded) (request.perform S) := by
  cases request with
  | scan request => exact request.mirrors_perform S
  | stored request =>
    -- all requests that write are one program, so only those that read are left one by one
    cases hwriting : request.writing? S with
    | some w =>
      have hwriting' : request.writing? S.recorded = some w :=
        ((AnyRequest.stored request).writing?_recorded S).trans hwriting
      show Mirrors (request.perform S.recorded) (request.perform S)
      rw [request.perform_eq_run hwriting, request.perform_eq_run hwriting']
      exact w.mirrors_run S.ledger
    | none =>
      cases request with
      | keyRef request =>
        cases request with
        | build ref | insert ref | put ref | delete id => cases hwriting
        | lookup id => exact S.mirrors_lookupKeyRef id
        | getBy id codec =>
          refine mirrors_bind (S.mirrors_lookupKeyRef id) ?_
          rintro (_ | primaryKey)
          · exact mirrors_bind (mirrors_ofExcept _) fun key => mirrors_observe _ (mirrors_fail _)
          · exact S.mirrors_get .world _ codec
      | entry request =>
        cases request with
        | get p source codec => exact S.mirrors_get p source codec
        | get? p source codec | getD p source codec default =>
          exact mirrors_observe .get
            (mirrors_bind (S.mirrors_fetch p source codec) fun _ => mirrors_pure _)
        | contains p source =>
          refine mirrors_observe .contains (mirrors_bind (mirrors_ofExcept _) fun key => ?_)
          refine mirrors_bind (mirrors_call _ _) fun payload => ?_
          exact mirrors_bind (mirrors_emit _) fun _ => mirrors_pure _
        | putWithValues p T entity codec values | insertWithValues p T entity codec values =>
          rcases values with _ | ⟨value, _ | ⟨second, rest⟩⟩ <;> cases hwriting
        | _ => cases hwriting

/-! ### Accounts -/

/-- What a report of a write tells: the ledger key, the collection, and the length of the
    payload. -/
def Event.written? : Event → Option (String × Option String × Nat)
  | write _ target collection bytes => some (target, collection, bytes)
  | read .. | scan .. | conflict .. | failure .. => none

/-- The same of a write or a deletion that the ledger did; a deletion leaves no payload. -/
def LedgerCall.written? : LedgerCall → Option (String × Option String × Nat)
  | write p key payload (.ok ()) => some (key, p.collection?, payload.length)
  | delete p key (.ok ()) => some (key, p.collection?, 0)
  | _ => none

/-- Where an insertion looks for a payload: its partition and its key, if that is not
    refused. -/
def Writing.insertion? (w : Writing α) : Option (Partition × ResolvedKey) :=
  if w.vacant then w.key.toOption.map fun key => (w.partition, key) else none

def AnyRequest.insertion? (S : Store σ) (request : AnyRequest α) :
    Option (Partition × ResolvedKey) := (request.writing? S).bind Writing.insertion?

/-- The events of an outcome account for it and for the calls that the ledger answered on
    the way from a state. -/
structure Accounts (A : Accessor σ) (insertion? : Option (Partition × ResolvedKey)) (state : σ)
    (outcome : Outcome σ α) (calls : List LedgerCall) : Prop where
  /-- A success tells of no failure. -/
  ok : ∀ value, outcome.result = .ok value → ∀ event ∈ outcome.events, event.isFailure = false
  /-- A failure is told once, last, and as it is returned. -/
  failed : ∀ error, outcome.result = .error error →
    ∃ before op, outcome.events = before ++ [.failure op error] ∧
      ∀ event ∈ before, event.isFailure = false
  /-- The reports of writes are the writes and deletions that the ledger did, in order. -/
  writes : outcome.events.filterMap Event.written? = calls.filterMap LedgerCall.written?
  /-- A conflict is reported exactly if an insertion finds a payload. -/
  conflict_iff : ∀ op target, .conflict op target ∈ outcome.events ↔
    ∃ p key held, insertion? = some (p, key) ∧ (A.read p key.encoded state).1 = .ok held ∧
      held ≠ [] ∧ op = .insert ∧ target = key.encoded
  /-- A conflict is reported once, and is what the request fails for. -/
  conflict_fails : ∀ op target, .conflict op target ∈ outcome.events →
    ∃ p key reported, insertion? = some (p, key) ∧
      outcome.result = .error (.alreadyExists key.origin.display) ∧
      outcome.events =
        [.conflict op target, .failure reported (.alreadyExists key.origin.display)]

/-- Without a conflict there is nothing to say of conflicts, as long as no insertion finds a
    payload. -/
theorem Accounts.of_no_conflict {A : Accessor σ} {insertion? : Option (Partition × ResolvedKey)}
    {state : σ} {outcome : Outcome σ α} {calls : List LedgerCall}
    (hok : ∀ value, outcome.result = .ok value → ∀ event ∈ outcome.events, event.isFailure = false)
    (hfailed : ∀ error, outcome.result = .error error →
      ∃ before op, outcome.events = before ++ [.failure op error] ∧
        ∀ event ∈ before, event.isFailure = false)
    (hwrites : outcome.events.filterMap Event.written? = calls.filterMap LedgerCall.written?)
    (hnoConflict : ∀ op target, .conflict op target ∉ outcome.events)
    (hfinds : ¬ ∃ p key held, insertion? = some (p, key) ∧
      (A.read p key.encoded state).1 = .ok held ∧ held ≠ []) :
    Accounts A insertion? state outcome calls where
  ok := hok
  failed := hfailed
  writes := hwrites
  conflict_iff op target := by
    constructor
    · exact fun hmem => absurd hmem (hnoConflict op target)
    · rintro ⟨p, key, held, hinsertion, hread, hheld, -⟩
      exact absurd ⟨p, key, held, hinsertion, hread, hheld⟩ hfinds
  conflict_fails op target hmem := absurd hmem (hnoConflict op target)

/-! ### Requests that only read account for themselves -/

namespace Recorded

variable (A : Accessor σ)

/-- The writes and deletions on the record stay as they are. -/
def keepingWrites : Frame (Recorded σ) :=
  .keeping fun state => state.calls.filterMap LedgerCall.written?

theorem keepingWrites_noting {note : Except LedgerError α → LedgerCall} (request : Call σ α)
    (h : ∀ answer, (note answer).written? = none) : keepingWrites.Calls (noting note request) := by
  intro state
  show (state.calls ++ [note (request state.inner).1]).filterMap LedgerCall.written? = _
  rw [List.filterMap_append, List.filterMap_cons_none (h _), List.filterMap_nil, List.append_nil]

theorem reads_keepingWrites : keepingWrites.Reads A.recorded where
  read _ _ := keepingWrites_noting _ fun _ => rfl
  scan _ _ _ := keepingWrites_noting _ fun _ => rfl
  scanPage _ _ _ _ := keepingWrites_noting _ fun _ => rfl
  history _ := keepingWrites_noting _ fun _ => rfl
  query _ := keepingWrites_noting _ fun _ => rfl
  queryPage _ _ _ := keepingWrites_noting _ fun _ => rfl
  touch _ := keepingWrites_noting _ fun _ => rfl
  close _ := keepingWrites_noting _ fun _ => rfl

end Recorded

theorem Event.IsReading.isFailure_eq {event : Event} (h : event.IsReading) :
    event.isFailure = false := by
  cases event <;> first | rfl | cases h

theorem Outcome.Tells.reading_or_failure {outcome : Outcome σ α}
    (h : outcome.Tells Event.IsReading) :
    ∀ event ∈ outcome.events, event.IsReading ∨ event.isFailure = true := by
  intro event hevent
  cases hresult : outcome.result with
  | ok value => exact .inl (h.ok value hresult event hevent)
  | error error =>
    obtain ⟨before, op, hevents, hbefore⟩ := h.failed error hresult
    rw [hevents] at hevent
    rcases List.mem_append.mp hevent with hmem | hlast
    · exact .inl (hbefore event hmem)
    · exact .inr (by rw [List.mem_singleton.mp hlast]; rfl)

theorem Accounts.of_tells {A : Accessor σ} {state : σ} {outcome : Outcome σ α}
    {calls : List LedgerCall} (h : outcome.Tells Event.IsReading)
    (hcalls : calls.filterMap LedgerCall.written? = []) : Accounts A none state outcome calls := by
  have hnoConflict (op : Operation) (target : String) : .conflict op target ∉ outcome.events := by
    intro hmem
    rcases h.reading_or_failure _ hmem with hreading | hfailure
    · exact hreading
    · cases hfailure
  -- Nothing is written, so no event may tell of a write, and there is no conflict to account for.
  refine .of_no_conflict ?_ ?_ ?_ hnoConflict ?_
  · intro value hvalue event hevent
    exact (h.ok value hvalue event hevent).isFailure_eq
  · intro error herror
    obtain ⟨before, op, hevents, hbefore⟩ := h.failed error herror
    exact ⟨before, op, hevents, fun event hevent => (hbefore event hevent).isFailure_eq⟩
  · rw [hcalls, List.filterMap_eq_nil_iff]
    intro event hevent
    rcases h.reading_or_failure event hevent with hreading | hfailure
    · cases event <;> first | rfl | cases hreading
    · cases event <;> first | rfl | cases hfailure
  · rintro ⟨p, key, held, hinsertion, -⟩
    cases hinsertion

theorem AnyRequest.accounts_of_reads {S : Store σ} {request : AnyRequest α}
    (h : request.writing? S = none) (state : σ) :
    Accounts S.ledger none state (request.perform S state)
      (request.perform S.recorded ⟨state, []⟩).ledger.calls := by
  have hwithin : Within Recorded.keepingWrites (request.perform S.recorded) := by
    refine request.within_of_changes (Recorded.reads_keepingWrites S.ledger) ?_
    intro w key hwriting
    rw [request.writing?_recorded S, h] at hwriting
    cases hwriting
  exact .of_tells (request.tells_reading h state) (hwithin ⟨state, []⟩)

/-! ### Requests that write account for themselves -/

namespace Writing

variable {A : Accessor σ} {w : Writing α} {key : ResolvedKey} {state : σ}
  {behind last : Recorded σ}

theorem insertion?_eq_some_iff {p : Partition} :
    w.insertion? = some (p, key) ↔ w.vacant = true ∧ w.key = .ok key ∧ w.partition = p := by
  unfold insertion?
  cases hvacant : w.vacant <;> cases hkey : w.key <;> simp [Except.toOption, eq_comm, and_comm]

/-- An insertion whose key is refused or vacant finds nothing. -/
theorem finds_nothing
    (h : ∀ key, w.key = .ok key → w.vacant = true →
      ∀ held, (A.read w.partition key.encoded state).1 = .ok held → held = []) :
    ¬ ∃ p key held, w.insertion? = some (p, key) ∧ (A.read p key.encoded state).1 = .ok held ∧
      held ≠ [] := by
  rintro ⟨p, key, held, hinsertion, hread, hheld⟩
  obtain ⟨hvacant, hkey, rfl⟩ := insertion?_eq_some_iff.mp hinsertion
  exact hheld (h key hkey hvacant held hread)

theorem read_recorded {answer : Except LedgerError Bytes}
    (h : A.recorded.read w.partition key.encoded ⟨state, []⟩ = (answer, behind)) :
    (A.read w.partition key.encoded state).1 = answer ∧
      behind.calls = [.read w.partition key.encoded answer] := by
  obtain ⟨rfl, rfl⟩ := Prod.mk.inj h
  exact ⟨rfl, rfl⟩

theorem claims_recorded (hkey : w.key = .ok key)
    (h : w.Claims A.recorded key ⟨state, []⟩ behind) :
    behind.calls.filterMap LedgerCall.written? = [] ∧
    ∀ key, w.key = .ok key → w.vacant = true →
      ∀ held, (A.read w.partition key.encoded state).1 = .ok held → held = [] := by
  unfold Claims at h
  split at h
  · obtain ⟨hread, hcalls⟩ := read_recorded h
    rw [hcalls]
    refine ⟨rfl, fun other hother _ held hheld => ?_⟩
    obtain rfl := Except.ok.inj (hkey.symm.trans hother)
    exact (Except.ok.inj (hread.symm.trans hheld)).symm
  · next hvacant =>
    rw [h]
    exact ⟨rfl, fun _ _ htaken => absurd htaken hvacant⟩

theorem change_recorded {payload? : Option Bytes} {answer : Except LedgerError Unit}
    (h : w.change A.recorded key payload? behind = (answer, last)) :
    last.calls.filterMap LedgerCall.written? =
      behind.calls.filterMap LedgerCall.written? ++
        match answer with
        | .ok () => [(key.encoded, w.partition.collection?, (payload?.getD []).length)]
        | .error _ => [] := by
  cases payload? with
  | none =>
    have hcalls : last.calls = behind.calls ++ [.delete w.partition key.encoded answer] := by
      obtain ⟨rfl, rfl⟩ := Prod.mk.inj h
      rfl
    rw [hcalls, List.filterMap_append]
    rcases answer with error | ⟨⟩ <;> rfl
  | some payload =>
    have hcalls : last.calls = behind.calls ++ [.write w.partition key.encoded payload answer] := by
      obtain ⟨rfl, rfl⟩ := Prod.mk.inj h
      rfl
    rw [hcalls, List.filterMap_append]
    rcases answer with error | ⟨⟩ <;> rfl

/-- A writing that is refused and not for a conflict. -/
theorem accounts_of_refusal {op : Operation} {error : StoreError}
    (hcalls : behind.calls.filterMap LedgerCall.written? = [])
    (hfinds : ∀ key, w.key = .ok key → w.vacant = true →
      ∀ held, (A.read w.partition key.encoded state).1 = .ok held → held = []) :
    Accounts A w.insertion? state (⟨.error error, behind.inner, [.failure op error]⟩ : Outcome σ α)
      behind.calls := by
  refine .of_no_conflict nofun (fun _ herror => ?_) hcalls.symm ?_ (finds_nothing hfinds)
  · exact Except.error.inj herror ▸ ⟨[], op, rfl, List.forall_mem_nil _⟩
  · exact fun _ _ hmem => nomatch List.mem_singleton.mp hmem

/-- An insertion that found a payload. -/
theorem accounts_of_conflict {op : Operation} {held : Bytes}
    (hinsertion : w.insertion? = some (w.partition, key))
    (hread : (A.read w.partition key.encoded state).1 = .ok held) (hheld : held ≠ [])
    (hcalls : behind.calls.filterMap LedgerCall.written? = []) :
    Accounts A w.insertion? state
      (⟨.error (.alreadyExists key.origin.display), behind.inner,
        [.conflict .insert key.encoded, .failure op (.alreadyExists key.origin.display)]⟩ :
        Outcome σ α) behind.calls := by
  -- of both events only the first one is a conflict
  have hmem {reported : Operation} {target : String}
      (h : .conflict reported target ∈ [Event.conflict .insert key.encoded,
        .failure op (.alreadyExists key.origin.display)]) :
      reported = .insert ∧ target = key.encoded := by
    simpa using h
  constructor
  · exact nofun
  · intro error herror
    obtain rfl := Except.error.inj herror
    refine ⟨[.conflict .insert key.encoded], op, rfl, ?_⟩
    intro event hevent
    rw [List.mem_singleton.mp hevent]
    rfl
  · exact hcalls.symm
  · intro reported target
    constructor
    · intro h
      obtain ⟨rfl, rfl⟩ := hmem h
      exact ⟨w.partition, key, held, hinsertion, hread, hheld, rfl, rfl⟩
    · rintro ⟨p, other, -, hother, -, -, rfl, rfl⟩
      obtain ⟨-, rfl⟩ := Prod.mk.inj (Option.some.inj (hinsertion.symm.trans hother))
      exact List.mem_cons_self
  · intro reported target h
    obtain ⟨rfl, rfl⟩ := hmem h
    exact ⟨w.partition, key, op, hinsertion, rfl, rfl⟩

/-- A writing that is done. -/
theorem accounts_of_done {bytes : Nat}
    (hcalls : last.calls.filterMap LedgerCall.written? =
      [(key.encoded, w.partition.collection?, bytes)])
    (hfinds : ∀ key, w.key = .ok key → w.vacant = true →
      ∀ held, (A.read w.partition key.encoded state).1 = .ok held → held = []) :
    Accounts A w.insertion? state
      (⟨.ok w.answer, last.inner, [.write w.kind key.encoded w.partition.collection? bytes]⟩ :
        Outcome σ α) last.calls := by
  refine .of_no_conflict (fun _ _ event hevent => ?_) nofun hcalls.symm ?_ (finds_nothing hfinds)
  · rw [List.mem_singleton.mp hevent]
    rfl
  · exact fun _ _ hmem => nomatch List.mem_singleton.mp hmem

/-- However a writing ends on a ledger that keeps a record, its events account for it. -/
theorem accounts_of_ran {outcome : Outcome (Recorded σ) α}
    (h : w.Ran A.recorded ⟨state, []⟩ outcome) :
    Accounts A w.insertion? state outcome.forget outcome.ledger.calls := by
  -- one case for each point at which a writing can end; the record tells how far it came
  cases h with
  | misplaced hkey =>
    exact accounts_of_refusal rfl fun key hkey' => nomatch hkey.symm.trans hkey'
  | unread hkey hvacant hread =>
    obtain ⟨hanswer, hcalls⟩ := read_recorded hread
    refine accounts_of_refusal (by rw [hcalls]; rfl) fun key hkey' _ held hheld => ?_
    obtain rfl := Except.ok.inj (hkey.symm.trans hkey')
    cases hanswer.symm.trans hheld
  | occupied hkey hvacant hread hheld =>
    obtain ⟨hanswer, hcalls⟩ := read_recorded hread
    have hinsertion := insertion?_eq_some_iff.mpr ⟨hvacant, hkey, rfl⟩
    exact accounts_of_conflict hinsertion hanswer hheld (by rw [hcalls]; rfl)
  | unencoded hkey hclaims hpayload =>
    obtain ⟨hcalls, hfinds⟩ := claims_recorded hkey hclaims
    exact accounts_of_refusal hcalls hfinds
  | rejected hkey hclaims hpayload hcall =>
    obtain ⟨hcalls, hfinds⟩ := claims_recorded hkey hclaims
    refine accounts_of_refusal ?_ hfinds
    rw [change_recorded hcall, hcalls]
    rfl
  | done hkey hclaims hpayload hcall =>
    obtain ⟨hcalls, hfinds⟩ := claims_recorded hkey hclaims
    refine accounts_of_done ?_ hfinds
    rw [change_recorded hcall, hcalls]
    rfl

end Writing

/-! ### Every request -/

/-- A request that is made through a store of its own. -/
structure Issued (σ α : Type) : Type 1 where
  store : Store σ
  request : AnyRequest α

/-- Makes a request and shows its events to the metrics. -/
def Issued.metered (issued : Issued σ α) (state : σ × Metrics) :
    Except StoreError α × σ × Metrics :=
  let outcome := issued.request.perform issued.store state.1
  (outcome.result, outcome.ledger, state.2.recordAll outcome.events)

theorem AnyRequest.accounts (S : Store σ) (request : AnyRequest α) (state : σ) :
    Accounts S.ledger (request.insertion? S) state (request.perform S state)
      (request.perform S.recorded ⟨state, []⟩).ledger.calls := by
  have hsame := request.mirrors_perform S ⟨state, []⟩
  unfold insertion?
  cases hwriting : request.writing? S with
  | none => exact request.accounts_of_reads hwriting state
  | some w =>
    cases request with
    | scan request => cases hwriting
    | stored request =>
      have hwriting' : request.writing? S.recorded = some w :=
        ((AnyRequest.stored request).writing?_recorded S).trans hwriting
      have hrecorded : (AnyRequest.stored request).perform S.recorded = w.run S.ledger.recorded :=
        request.perform_eq_run hwriting'
      rw [← hsame, hrecorded]
      exact Writing.accounts_of_ran (w.ran_run S.ledger.recorded ⟨state, []⟩)

/-- The failures that a sink sees are the requests that fail. -/
theorem Accounts.countP_isFailure {A : Accessor σ} {insertion? : Option (Partition × ResolvedKey)}
    {state : σ} {outcome : Outcome σ α} {calls : List LedgerCall}
    (h : Accounts A insertion? state outcome calls) :
    outcome.events.countP Event.isFailure = if outcome.result.isOk then 0 else 1 := by
  cases hresult : outcome.result with
  | ok value =>
    rw [List.countP_eq_zero.mpr]
    · rfl
    · intro event hevent
      rw [h.ok value hresult event hevent]
      exact Bool.false_ne_true
  | error error =>
    obtain ⟨before, op, hevents, hbefore⟩ := h.failed error hresult
    rw [hevents, List.countP_append, List.countP_eq_zero.mpr]
    · rfl
    · intro event hevent
      rw [hbefore event hevent]
      exact Bool.false_ne_true

/-- How many answers are failures. -/
def countFailed (answers : List (Σ α : Type, Except StoreError α)) : Nat :=
  answers.countP fun answer => !answer.2.isOk

/-- A run shows its metrics as many failures as it has answers that are failures. -/
theorem run_metered (requests : List (Σ α : Type, Issued σ α)) (state : σ) (metrics : Metrics) :
    let run := runAll Issued.metered requests (state, metrics)
    ∃ events, run.2.2 = metrics.recordAll events ∧
      events.countP Event.isFailure = countFailed run.1 := by
  induction requests generalizing state metrics with
  | nil => exact ⟨[], rfl, rfl⟩
  | cons issued rest ih =>
    obtain ⟨α, issued⟩ := issued
    have hfirst := (issued.request.accounts issued.store state).countP_isFailure
    generalize houtcome : issued.request.perform issued.store state = outcome at hfirst
    have hstep : issued.metered (state, metrics) =
        (outcome.result, outcome.ledger, metrics.recordAll outcome.events) := by
      rw [Issued.metered, houtcome]
    obtain ⟨events, hmetrics, hcount⟩ := ih outcome.ledger (metrics.recordAll outcome.events)
    refine ⟨outcome.events ++ events, ?_, ?_⟩
    · rw [runAll_cons, hstep]
      exact hmetrics.trans (List.foldl_append ..).symm
    · rw [runAll_cons, hstep, List.countP_append, hfirst, hcount, countFailed, countFailed,
        List.countP_cons]
      cases outcome.result.isOk <;> simp [Nat.add_comm]

/-- **Events account for every request**, whatever its store and its ledger do, and the total
    of the failures that a run of requests leaves in the metrics is the number of requests
    that failed. -/
theorem events_account_for_every_request :
    (∀ {α : Type} (S : Store σ) (request : AnyRequest α) (state : σ),
      let plain := request.perform S state
      let watched := request.perform S.recorded ⟨state, []⟩
      watched.forget = plain ∧
        Accounts S.ledger (request.insertion? S) state plain watched.ledger.calls) ∧
    ∀ (requests : List (Σ α : Type, Issued σ α)) (state : σ), requests.length < UInt64.size →
      let run := runAll Issued.metered requests (state, Metrics.empty)
      run.2.2.totalFailures = countFailed run.1 := by
  constructor
  · intro α S request state plain watched
    exact ⟨request.mirrors_perform S ⟨state, []⟩, request.accounts S state⟩
  · intro requests state hfew run
    obtain ⟨events, hmetrics, hcount⟩ := run_metered requests state Metrics.empty
    have hfailed : countFailed run.1 ≤ counterLimit := by
      have hlength : run.1.length = requests.length := length_runAll Issued.metered requests _
      have hle : countFailed run.1 ≤ run.1.length := List.countP_le_length
      have hlimit : counterLimit = UInt64.size - 1 := rfl
      omega
    rw [hmetrics, Metrics.totalFailures_recordAll (hcount ▸ hfailed), hcount]

/-- Three requests, of which one fails: the second insertion finds a payload. -/
theorem events_account_for_every_request_taken :
    let S := Store.inMemory KeyTransformer.identity PayloadTransformer.identity {}
    let book : KeySource := .given ⟨["BOOK", "1"]⟩
    let made {α : Type} (request : EntryRequest α) : Σ α : Type, Issued Memory α :=
      ⟨α, S, .stored (.entry request)⟩
    let requests := [made (.insert .world book Codec.text "Dune"),
      made (.insert .world book Codec.text "Emma"), made (.contains .world book)]
    let run := runAll Issued.metered requests (Memory.fresh false "tx-0" 0, Metrics.empty)
    requests.length < UInt64.size ∧ run.2.2.totalFailures = 1 := by
  intro S book made requests run
  have hfew : requests.length < UInt64.size := by decide
  have htotal := events_account_for_every_request.2 requests (Memory.fresh false "tx-0" 0) hfew
  have hone : countFailed run.1 = 1 := by decide +kernel
  exact ⟨hfew, htotal.trans hone⟩

end EntityStore
