/-
  EntityStore/Proofs/Store/Alike.lean
  ===================================
  **Two runs side by side.**  Actions run alike if from related states they report the
  same, fail in the same way or succeed with related values, and leave related states
  again.  Each way of building an action has one rule here, as in a relational Hoare
  logic.  Of the ledger the rules ask only that its calls run alike; from this every
  request on an entry or a reference does (`EntryRequest.agrees_perform`,
  `KeyRefRequest.agrees_perform`), and every scan (`Scan.agrees_run`).
-/
import EntityStore.Proofs.Store.Within

namespace EntityStore

open EntityStore.Action

variable {σ α β γ ρ : Type}

/-! ### Outcomes and actions -/

/-- Two outcomes are alike: the events are the same, and both are values that `Q` relates
    along with the states, or both are the same failure in states that `R` relates. -/
inductive Outcome.Alike (R : σ → σ → Prop) (Q : α → α → σ → σ → Prop) :
    Outcome σ α → Outcome σ α → Prop where
  | value {v w : α} {s t : σ} {events : List Event} (h : Q v w s t) :
    Outcome.Alike R Q ⟨.ok v, s, events⟩ ⟨.ok w, t, events⟩
  | failure {error : StoreError} {s t : σ} {events : List Event} (h : R s t) :
    Outcome.Alike R Q ⟨.error error, s, events⟩ ⟨.error error, t, events⟩

namespace Action

/-- From states that `P` relates, two actions have outcomes that are alike. -/
def Alike (R P : σ → σ → Prop) (Q : α → α → σ → σ → Prop) (first second : Action σ α) : Prop :=
  ∀ s t, P s t → Outcome.Alike R Q (first s) (second t)

/-- The values are equal, and the states are related. -/
def Equal (P : σ → σ → Prop) (v w : α) (s t : σ) : Prop := v = w ∧ P s t

/-- An action does not tell related states apart, and leaves related states. -/
def Agrees (R : σ → σ → Prop) (action : Action σ α) : Prop := Alike R R (Equal R) action action

variable {R P P' : σ → σ → Prop} {Q : α → α → σ → σ → Prop} {Q' : β → β → σ → σ → Prop}

theorem alike_pure {v w : α} (h : ∀ s t, P s t → Q v w s t) :
    Alike R P Q (pure v) (pure w) := fun s t hst => .value (h s t hst)

theorem alike_fail (hP : ∀ s t, P s t → R s t) (error : StoreError) :
    Alike R P Q (fail error) (fail error) := fun s t hst => .failure (hP s t hst)

theorem alike_ofExcept (hP : ∀ s t, P s t → R s t) (result : Except StoreError α) :
    Alike R P (Equal P) (ofExcept result) (ofExcept result) := by
  intro s t hst
  cases result with
  | ok value => exact .value ⟨rfl, hst⟩
  | error error => exact .failure (hP s t hst)

theorem alike_emit (event : Event) : Alike R P (Equal P) (emit event) (emit event) :=
  fun _ _ hst => .value ⟨rfl, hst⟩

theorem alike_bind {first first' : Action σ α} {second second' : α → Action σ β}
    (hfirst : Alike R P Q first first')
    (hsecond : ∀ v w, Alike R (Q v w) Q' (second v) (second' w)) :
    Alike R P Q' (first >>= second) (first' >>= second') := by
  intro s t hst
  have hs := hfirst s t hst
  simp only [bind_eq, andThen]
  generalize first s = outcome, first' t = outcome' at hs ⊢
  cases hs with
  | failure h => exact .failure h
  | @value v w s t events h =>
    have hnext := hsecond v w s t h
    dsimp only
    generalize second v s = outcome, second' w t = outcome' at hnext ⊢
    cases hnext with
    | failure h => exact .failure h
    | value h => exact .value h

/-- Where the values are equal, the second actions need to be alike behind one value. -/
theorem alike_bind_equal {first first' : Action σ α} {second second' : α → Action σ β}
    (hfirst : Alike R P (Equal P') first first')
    (hsecond : ∀ v, Alike R P' Q' (second v) (second' v)) :
    Alike R P Q' (first >>= second) (first' >>= second') := by
  refine alike_bind hfirst ?_
  rintro v w s t ⟨rfl, hst⟩
  exact hsecond v s t hst

theorem alike_observe (op : Operation) {first second : Action σ α} (h : Alike R P Q first second) :
    Alike R P Q (observe op first) (observe op second) := by
  intro s t hst
  have hs := h s t hst
  unfold observe
  generalize first s = outcome, second t = outcome' at hs ⊢
  cases hs with
  | value h => exact .value h
  | failure h => exact .failure h

/-! ### Actions that do not tell states apart -/

theorem agrees_pure (value : α) : Agrees R (pure value) := alike_pure fun _ _ hst => ⟨rfl, hst⟩

theorem agrees_fail (error : StoreError) : Agrees R (fail error : Action σ α) :=
  alike_fail (fun _ _ => id) error

theorem agrees_ofExcept (result : Except StoreError α) : Agrees R (ofExcept result) :=
  alike_ofExcept (fun _ _ => id) result

theorem agrees_bind {first : Action σ α} {second : α → Action σ β} (hfirst : Agrees R first)
    (hsecond : ∀ value, Agrees R (second value)) : Agrees R (first >>= second) :=
  alike_bind_equal hfirst hsecond

theorem agrees_observe (op : Operation) {action : Action σ α} (h : Agrees R action) :
    Agrees R (observe op action) := alike_observe op h

/-- The answers are equal and the states are related, whatever the outcome is. -/
theorem Agrees.answer {action : Action σ α} (h : Agrees R action) {s t : σ} (hst : R s t) :
    (action.answer s).1 = (action.answer t).1 ∧ R (action.answer s).2 (action.answer t).2 := by
  have hs := h s t hst
  unfold Action.answer
  generalize action s = outcome, action t = outcome' at hs ⊢
  cases hs with
  | value h => exact ⟨congrArg Except.ok h.1, h.2⟩
  | failure h => exact ⟨rfl, h⟩

end Action

/-! ### Cursors -/

/-- The same read of two cursors gives related rows, or the same failure. -/
inductive ReadAlike (K : ρ → ρ → Prop) : Except LedgerError ρ → Except LedgerError ρ → Prop where
  | row {a b : ρ} (h : K a b) : ReadAlike K (.ok a) (.ok b)
  | failure (error : LedgerError) : ReadAlike K (.error error) (.error error)

/-- The calls on two open cursors run alike.  `held i j` relates the states in which
    cursor `i` is open in the first one and cursor `j` in the second. -/
structure Accessor.CursorsAlike (A : Accessor σ) (R : σ → σ → Prop)
    (held : Nat → Nat → σ → σ → Prop) : Prop where
  forget {i j : Nat} {s t : σ} (h : held i j s t) : R s t
  touch (i j : Nat) :
    Alike R (held i j) (Equal (held i j)) (call (A.touch i)) (call (A.touch j))
  close (i j : Nat) : Alike R (held i j) (Equal R) (call (A.close i)) (call (A.close j))
  /-- A closing may be refused if the cursor is not open any more. -/
  closed (i j : Nat) {s t : σ} (h : R s t) : R (A.close i s).2 (A.close j t).2

namespace Action

variable {A : Accessor σ} {R : σ → σ → Prop} {held : Nat → Nat → σ → σ → Prop}
  {K : ρ → ρ → Prop} {each : ρ → Action σ α}

theorem alike_readRows (hA : A.CursorsAlike R held) {i j : Nat}
    (heach : ∀ a b, K a b → Alike R (held i j) (Equal (held i j)) (each a) (each b))
    (limit : Option Nat) {rows rows' : List (Except LedgerError ρ)}
    (hrows : List.Forall₂ (ReadAlike K) rows rows') :
    Alike R (held i j) (Equal (held i j)) (readRows A i each limit rows)
      (readRows A j each limit rows') := by
  induction hrows generalizing limit with
  | nil =>
    rcases limit with _ | _ | limit
    · exact alike_bind_equal (hA.touch i j) fun _ => alike_pure fun _ _ hst => ⟨rfl, hst⟩
    · exact alike_pure fun _ _ hst => ⟨rfl, hst⟩
    · exact alike_bind_equal (hA.touch i j) fun _ => alike_pure fun _ _ hst => ⟨rfl, hst⟩
  | @cons read read' rest rest' hread hrest ih =>
    -- what is done with a row, unless the limit is reached
    have hstep : limit ≠ some 0 →
        Alike R (held i j) (Equal (held i j)) (readRows A i each limit (read :: rest))
          (readRows A j each limit (read' :: rest')) := by
      intro hlimit
      cases hread with
      | failure error =>
        rw [readRows, readRows]
        · exact alike_bind_equal (hA.touch i j) fun _ => alike_fail (fun _ _ => hA.forget) _
        · exact hlimit
        · exact hlimit
      | row hrow =>
        rw [readRows, readRows]
        · refine alike_bind_equal (hA.touch i j) fun _ => ?_
          refine alike_bind_equal (heach _ _ hrow) fun value => ?_
          exact alike_bind_equal (ih _) fun values => alike_pure fun _ _ hst => ⟨rfl, hst⟩
        · exact hlimit
        · exact hlimit
    rcases limit with _ | _ | limit
    · exact hstep (by simp)
    · exact alike_pure fun _ _ hst => ⟨rfl, hst⟩
    · exact hstep (by simp)

theorem alike_closing (hA : A.CursorsAlike R held) {i j : Nat} {first second : Action σ α}
    (h : Alike R (held i j) (Equal (held i j)) first second) :
    Alike R (held i j) (Equal R) (closing A i first) (closing A j second) := by
  intro s t hst
  have hs := h s t hst
  unfold closing
  generalize first s = outcome, second t = outcome' at hs ⊢
  cases hs with
  | failure h => exact .failure (hA.closed i j h)
  | @value v w s t events h =>
    have hclose := hA.close i j s t h.2
    simp only [call] at hclose ⊢
    rcases hi : A.close i s with ⟨error | ⟨⟩, s⟩ <;>
      rcases hj : A.close j t with ⟨error' | ⟨⟩, t⟩ <;>
      simp only [hi, hj, Except.mapError] at hclose ⊢ <;> cases hclose
    · next hst => exact .failure hst
    · next hst => exact .value ⟨h.1, hst.2⟩

theorem alike_drain (hA : A.CursorsAlike R held) {cursor cursor' : Cursor ρ}
    (hrows : List.Forall₂ (ReadAlike K) cursor.rows cursor'.rows)
    (heach : ∀ i j a b, K a b → Alike R (held i j) (Equal (held i j)) (each a) (each b))
    (limit : Option Nat) :
    Alike R (held cursor.id cursor'.id) (Equal R) (drain A cursor limit each)
      (drain A cursor' limit each) :=
  alike_closing hA (alike_readRows hA (heach cursor.id cursor'.id) limit hrows)

end Action

/-! ### Scans -/

namespace Opening

/-- Where the rows are. -/
def partition : Opening γ ρ → Partition
  | scan p _ _ => p
  | scanPage .. | history .. | query .. | queryPage .. => .world

/-- What comes with the cursor, if anything does. -/
def info? : Opening γ ρ → γ → Option PageInfo
  | scan .., _ | history .., _ | query .., _ => none
  | scanPage .., opened | queryPage .., opened => some opened.2

/-- Two answers to an opening: cursors with related rows, and the same with them. -/
structure Opened (opening : Opening γ ρ) (K : ρ → ρ → Prop) (v w : γ) : Prop where
  rows : List.Forall₂ (ReadAlike K) (opening.cursor v).rows (opening.cursor w).rows
  info : opening.info? v = opening.info? w

/-- The call of an opening runs alike, and leaves the two cursors open. -/
def Alike (opening : Opening γ ρ) (A : Accessor σ) (R : σ → σ → Prop)
    (held : Nat → Nat → σ → σ → Prop) (K : ρ → ρ → Prop) : Prop :=
  Action.Alike R R
    (fun v w s t => opening.Opened K v w ∧ held (opening.cursor v).id (opening.cursor w).id s t)
    (Action.call (opening.call A)) (Action.call (opening.call A))

end Opening

/-- The result of a scan depends on the values, and on what came with the cursor. -/
def Scan.IgnoresCursor (scan : Scan β) : Prop :=
  ∀ v w values, scan.opening.info? v = scan.opening.info? w →
    scan.finish v values = scan.finish w values

theorem Scan.agrees_run {A : Accessor σ} {R : σ → σ → Prop} {held : Nat → Nat → σ → σ → Prop}
    (hA : A.CursorsAlike R held) {scan : Scan β} {K : scan.ρ → scan.ρ → Prop}
    (hopening : scan.opening.Alike A R held K)
    (heach : ∀ i j a b, K a b →
      Action.Alike R (held i j) (Equal (held i j)) (scan.each A a) (scan.each A b))
    (hfinish : scan.IgnoresCursor) (op : Operation) : Agrees R (scan.run A op) := by
  refine alike_bind hopening ?_
  rintro v w s t ⟨hopened, hheld⟩
  have hdrain := alike_drain hA hopened.rows heach scan.limit
  refine alike_bind_equal hdrain (fun values => ?_) s t hheld
  refine alike_bind_equal (alike_emit _) fun _ => ?_
  rw [hfinish v w values hopened.info]
  exact agrees_ofExcept _

/-- Rows are in one partition, and nothing but the row is needed for its value. -/
structure Scan.Plain (scan : Scan β) (p : Partition) : Prop where
  opening : scan.opening.partition = p
  place : ∀ row, scan.place row = none
  finish : scan.IgnoresCursor

theorem Scan.Plain.agrees_run {A : Accessor σ} {R : σ → σ → Prop}
    {held : Nat → Nat → σ → σ → Prop} (hA : A.CursorsAlike R held) {scan : Scan β}
    {p : Partition} (h : scan.Plain p) (hopening : scan.opening.Alike A R held Eq)
    (op : Operation) : Agrees R (scan.run A op) := by
  refine Scan.agrees_run hA hopening ?_ h.finish op
  rintro i j row _ rfl
  unfold Scan.each
  rw [h.place]
  exact alike_ofExcept (fun _ _ => hA.forget) _

theorem ScanRequest.agrees_perform {S : Store σ} {R : σ → σ → Prop} (request : ScanRequest β)
    (h : ∀ scan, request.scan S = .ok scan → Agrees R (scan.run S.ledger request.op)) :
    Agrees R (request.perform S) := by
  rw [perform_eq]
  refine agrees_observe request.op ?_
  cases hscan : request.scan S with
  | ok scan => exact h scan hscan
  | error error => exact agrees_fail error

/-! ### Requests on entries and references -/

/-- The calls on single entries of a partition do not tell states apart. -/
structure Accessor.PointsAgree (A : Accessor σ) (R : σ → σ → Prop) (p : Partition) : Prop where
  read (key : String) : Agrees R (call (A.read p key))
  write (key : String) (payload : Bytes) : Agrees R (call (A.write p key payload))
  delete (key : String) : Agrees R (call (A.delete p key))

section Points

variable {S : Store σ} {R : σ → σ → Prop} {p : Partition}

namespace Store

theorem agrees_fetch (hS : S.ledger.PointsAgree R p) (source : KeySource) (codec : Codec α) :
    Agrees R (S.fetch p source codec) := by
  refine agrees_bind (agrees_ofExcept _) fun key => ?_
  refine agrees_bind (hS.read key.encoded) fun payload => ?_
  refine agrees_bind (alike_emit _) fun _ => ?_
  split
  · exact agrees_pure _
  · exact agrees_bind (agrees_ofExcept _) fun _ => agrees_pure _

theorem agrees_get (hS : S.ledger.PointsAgree R p) (source : KeySource) (codec : Codec α) :
    Agrees R (S.get p source codec) := by
  refine agrees_observe .get (agrees_bind (agrees_fetch hS source codec) ?_)
  rintro ⟨key, _ | value⟩
  · exact agrees_fail _
  · exact agrees_pure _

theorem agrees_contains (hS : S.ledger.PointsAgree R p) (source : KeySource) :
    Agrees R (S.contains p source) := by
  refine agrees_observe .contains (agrees_bind (agrees_ofExcept _) fun key => ?_)
  refine agrees_bind (hS.read key.encoded) fun payload => ?_
  exact agrees_bind (alike_emit _) fun _ => agrees_pure _

theorem agrees_writeValue (hS : S.ledger.PointsAgree R p) (key : ResolvedKey) (codec : Codec α)
    (value : α) (op : Operation) : Agrees R (S.writeValue p key codec value op) := by
  refine agrees_bind (agrees_ofExcept _) fun payload => ?_
  exact agrees_bind (hS.write key.encoded payload) fun _ => alike_emit _

theorem agrees_insertAt (hS : S.ledger.PointsAgree R p) (key : ResolvedKey) (codec : Codec α)
    (value : α) : Agrees R (S.insertAt p key codec value) := by
  refine agrees_bind ?_ fun _ => agrees_writeValue hS key codec value .insert
  refine agrees_bind (hS.read key.encoded) fun payload => ?_
  split
  · exact agrees_pure _
  · exact agrees_bind (alike_emit _) fun _ => agrees_fail _

theorem agrees_deleteAt (hS : S.ledger.PointsAgree R p) (key : ResolvedKey) :
    Agrees R (S.deleteAt p key) :=
  agrees_bind (hS.delete key.encoded) fun _ => alike_emit _

theorem agrees_put (hS : S.ledger.PointsAgree R p) (source : KeySource) (codec : Codec α)
    (value : α) : Agrees R (S.put p source codec value) :=
  agrees_observe .put
    (agrees_bind (agrees_ofExcept _) fun key => agrees_writeValue hS key codec value .put)

theorem agrees_insert (hS : S.ledger.PointsAgree R p) (source : KeySource) (codec : Codec α)
    (value : α) : Agrees R (S.insert p source codec value) :=
  agrees_observe .insert
    (agrees_bind (agrees_ofExcept _) fun key => agrees_insertAt hS key codec value)

end Store

theorem EntryRequest.agrees_perform (request : EntryRequest α)
    (hS : S.ledger.PointsAgree R request.target.1) : Agrees R (request.perform S) := by
  -- entities and listed values come down to a put, an insertion, or a failure before any call
  cases request with
  | get p source codec => exact Store.agrees_get hS source codec
  | get? p source codec =>
    exact agrees_observe .get
      (agrees_bind (Store.agrees_fetch hS source codec) fun _ => agrees_pure _)
  | getD p source codec default =>
    exact agrees_observe .get
      (agrees_bind (Store.agrees_fetch hS source codec) fun _ => agrees_pure _)
  | contains p source => exact Store.agrees_contains hS source
  | put p source codec value => exact Store.agrees_put hS source codec value
  | putEntity p T entity => exact Store.agrees_put hS _ _ _
  | putWithValues p T entity codec values =>
    rcases values with _ | ⟨value, _ | ⟨second, rest⟩⟩
    · exact Store.agrees_put hS _ _ _
    · exact Store.agrees_put hS _ _ _
    · exact agrees_observe .put (agrees_fail _)
  | insert p source codec value => exact Store.agrees_insert hS source codec value
  | insertEntity p T entity => exact Store.agrees_insert hS _ _ _
  | insertWithValues p T entity codec values =>
    rcases values with _ | ⟨value, _ | ⟨second, rest⟩⟩
    · exact Store.agrees_insert hS _ _ _
    · exact Store.agrees_insert hS _ _ _
    · exact agrees_observe .insert (agrees_fail _)
  | delete p source =>
    exact agrees_observe .delete
      (agrees_bind (agrees_ofExcept _) fun key => Store.agrees_deleteAt hS key)

theorem KeyRefRequest.agrees_perform (hS : S.ledger.PointsAgree R .world)
    (request : KeyRefRequest α) : Agrees R (request.perform S) := by
  have hinsert (ref : KeyRef) : Agrees R (S.insertKeyRef ref) :=
    agrees_observe .keyRef
      (agrees_bind (agrees_ofExcept _) fun key => Store.agrees_insertAt hS key _ _)
  have hlookup (id : KeyRefId) : Agrees R (S.lookupKeyRef id) :=
    agrees_observe .keyRef
      (agrees_bind (Store.agrees_fetch hS id.source Codec.key) fun _ => agrees_pure _)
  cases request with
  | build ref => exact agrees_bind (hinsert ref) fun _ => agrees_pure ref
  | insert ref => exact hinsert ref
  | put ref =>
    exact agrees_observe .keyRef
      (agrees_bind (agrees_ofExcept _) fun key => Store.agrees_writeValue hS key _ _ .put)
  | delete id =>
    exact agrees_observe .keyRef
      (agrees_bind (agrees_ofExcept _) fun key => Store.agrees_deleteAt hS key)
  | lookup id => exact hlookup id
  | getBy id codec =>
    refine agrees_bind (hlookup id) ?_
    rintro (_ | primaryKey)
    · exact agrees_bind (agrees_ofExcept _) fun key => agrees_observe .keyRef (agrees_fail _)
    · exact Store.agrees_get hS _ codec

end Points

/-! ### Runs -/

/-- If no request tells related states apart, no run of requests does. -/
theorem runAll_agrees {T : Type → Type 1} (perform : ∀ {α : Type}, T α → Action σ α)
    {R : σ → σ → Prop} {requests : List (Σ α : Type, T α)}
    (h : ∀ request ∈ requests, Agrees R (perform request.2)) {s t : σ} (hst : R s t) :
    let first := runAll (fun r => (perform r).answer) requests s
    let second := runAll (fun r => (perform r).answer) requests t
    first.1 = second.1 ∧ R first.2 second.2 := by
  induction requests generalizing s t with
  | nil => exact ⟨rfl, hst⟩
  | cons request rest ih =>
    obtain ⟨hrequest, hrest⟩ := List.forall_mem_cons.mp h
    obtain ⟨hanswer, hnext⟩ := hrequest.answer hst
    obtain ⟨hanswers, hlast⟩ := ih hrest hnext
    obtain ⟨α, request⟩ := request
    simp only [runAll_cons]
    exact ⟨by rw [hanswer, hanswers], hlast⟩

end EntityStore
