/-
  EntityStore/Proofs/Store/Within.lean
  ====================================
  **Requests stay within frames.**  An entry request makes reading calls and writes under
  keys that entries may have; a request about key references that writes none, and every
  scan, makes reading calls only.  If these calls stay within a frame, so does the
  request, and so does a run of requests.
-/
import EntityStore.Proofs.Store.Scan
import EntityStore.Proofs.Store.Writing

namespace EntityStore

open EntityStore.Action

/-! ### Requests -/

/-- A request of a store. -/
inductive AnyRequest : Type → Type 1 where
  | stored {α : Type} (request : StoreRequest α) : AnyRequest α
  | scan {α : Type} (request : ScanRequest α) : AnyRequest α

def AnyRequest.perform {σ α : Type} (S : Store σ) : AnyRequest α → Action σ α
  | .stored request => request.perform S
  | .scan request => request.perform S

/-- A request stores or removes a key reference. -/
def KeyRefRequest.Writes {α : Type} : KeyRefRequest α → Prop
  | .build _ | .insert _ | .put _ | .delete _ => True
  | .lookup _ | .getBy _ _ => False

/-- A request stores or removes an entry. -/
def EntryRequest.Writes {α : Type} : EntryRequest α → Prop
  | .put .. | .putEntity .. | .putWithValues .. | .insert .. | .insertEntity ..
  | .insertWithValues .. | .delete .. => True
  | .get .. | .get? .. | .getD .. | .contains .. => False

/-- A request stores or removes an entry or a key reference. -/
def StoreRequest.Writes {α : Type} : StoreRequest α → Prop
  | .entry request => request.Writes
  | .keyRef request => request.Writes

theorem StoreRequest.exists_writing {σ α : Type} (S : Store σ) {request : StoreRequest α}
    (h : request.Writes) : ∃ w, request.writing? S = some w := by
  cases request with
  | keyRef request =>
    cases request with
    | build ref | insert ref | put ref | delete id => exact ⟨_, rfl⟩
    | lookup id | getBy id codec => cases h
  | entry request =>
    cases request with
    | get p source codec | get? p source codec | getD p source codec default
    | contains p source => cases h
    | putWithValues p T entity codec values | insertWithValues p T entity codec values =>
      rcases values with _ | ⟨value, _ | ⟨second, rest⟩⟩ <;> exact ⟨_, rfl⟩
    | put p source codec value | putEntity p T entity | insert p source codec value
    | insertEntity p T entity | delete p source => exact ⟨_, rfl⟩

/-- What a request writes; reading requests write nothing. -/
def AnyRequest.writing? {σ α : Type} (S : Store σ) : AnyRequest α → Option (Writing α)
  | .stored request => request.writing? S
  | .scan _ => none

/-- A request stores or removes a key reference. -/
def AnyRequest.WritesKeyRef {α : Type} : AnyRequest α → Prop
  | .stored (.keyRef request) => request.Writes
  | _ => False

/-! ### Operations on entries -/

/-- The writes of a store under the keys that entries may have stay within a frame. -/
structure Frame.Writes {σ : Type} (F : Frame σ) (S : Store σ) : Prop where
  write {source : KeySource} {key : ResolvedKey} (h : S.resolveWritable source = .ok key)
    (p : Partition) (payload : Bytes) : F.Calls (S.ledger.write p key.encoded payload)
  delete {source : KeySource} {key : ResolvedKey} (h : S.resolveWritable source = .ok key)
    (p : Partition) : F.Calls (S.ledger.delete p key.encoded)

namespace Store

variable {σ α ε : Type} {S : Store σ} {F : Frame σ}

theorem within_fetch (hreads : F.Reads S.ledger) (p : Partition) (source : KeySource)
    (codec : Codec α) : Within F (S.fetch p source codec) := by
  refine within_bind (within_ofExcept _) fun key => ?_
  refine within_bind (within_call (hreads.read p key.encoded)) fun payload => ?_
  refine within_bind (within_emit _) fun _ => ?_
  split
  · exact within_pure _
  · exact within_bind (within_ofExcept _) fun _ => within_pure _

theorem within_get (hreads : F.Reads S.ledger) (p : Partition) (source : KeySource)
    (codec : Codec α) : Within F (S.get p source codec) := by
  refine within_observe .get (within_bind (within_fetch hreads p source codec) ?_)
  rintro ⟨key, _ | value⟩
  · exact within_fail _
  · exact within_pure _

theorem within_contains (hreads : F.Reads S.ledger) (p : Partition) (source : KeySource) :
    Within F (S.contains p source) := by
  refine within_observe .contains (within_bind (within_ofExcept _) fun key => ?_)
  refine within_bind (within_call (hreads.read p key.encoded)) fun payload => ?_
  exact within_bind (within_emit _) fun _ => within_pure _

end Store

variable {σ α : Type} {S : Store σ} {F : Frame σ}

/-- A request that writes no entry only reads. -/
theorem EntryRequest.within_of_reads (hreads : F.Reads S.ledger) {request : EntryRequest α}
    (h : request.writing? S = none) : Within F (request.perform S) := by
  cases request with
  | get p source codec => exact Store.within_get hreads p source codec
  | get? p source codec =>
    exact within_observe .get
      (within_bind (Store.within_fetch hreads p source codec) fun _ => within_pure _)
  | getD p source codec default =>
    exact within_observe .get
      (within_bind (Store.within_fetch hreads p source codec) fun _ => within_pure _)
  | contains p source => exact Store.within_contains hreads p source
  | putWithValues p T entity codec values | insertWithValues p T entity codec values =>
    rcases values with _ | ⟨value, _ | ⟨second, rest⟩⟩ <;> cases h
  | _ => cases h

/-- A request that writes no key reference only reads. -/
theorem KeyRefRequest.within_of_reads (hreads : F.Reads S.ledger) {request : KeyRefRequest α}
    (h : request.writing? S = none) : Within F (request.perform S) := by
  have hlookup (id : KeyRefId) : Within F (S.lookupKeyRef id) :=
    within_observe .keyRef
      (within_bind (Store.within_fetch hreads .world id.source Codec.key) fun _ => within_pure _)
  cases request with
  | build ref | insert ref | put ref | delete id => cases h
  | lookup id => exact hlookup id
  | getBy id codec =>
    refine within_bind (hlookup id) ?_
    rintro (_ | primaryKey)
    · exact within_bind (within_ofExcept _) fun key => within_observe .keyRef (within_fail _)
    · exact Store.within_get hreads .world _ codec

/-- A request stays within whatever frame holds the reading calls of its ledger and the
    changes that it may make. -/
theorem AnyRequest.within_of_changes (hreads : F.Reads S.ledger) {request : AnyRequest α}
    (hchanges : ∀ {w key}, request.writing? S = some w → w.key = .ok key → ∀ payload?,
      w.payload? = .ok payload? → F.Calls (w.change S.ledger key payload?)) :
    Within F (request.perform S) := by
  cases request with
  | scan request => exact request.within_perform hreads
  | stored request =>
    cases hwriting : request.writing? S with
    | some writing =>
      show Within F (request.perform S)
      rw [request.perform_eq_run hwriting]
      exact writing.within_run hreads fun key => hchanges hwriting
    | none =>
      cases request with
      | entry request => exact request.within_of_reads hreads hwriting
      | keyRef request => exact request.within_of_reads hreads hwriting

theorem AnyRequest.within_perform (hreads : F.Reads S.ledger) (hwrites : F.Writes S)
    (request : AnyRequest α) (h : ¬ request.WritesKeyRef) : Within F (request.perform S) := by
  refine request.within_of_changes hreads fun {w key} hwriting hkey payload? _ => ?_
  cases request with
  | scan request => cases hwriting
  | stored request =>
    cases request with
    | keyRef request =>
      cases request with
      | build ref | insert ref | put ref | delete id => exact absurd trivial h
      | lookup id | getBy id codec => cases hwriting
    | entry request =>
      have hresolve := (request.key_of_writing hwriting hkey).2
      cases payload? with
      | some payload => exact hwrites.write hresolve _ payload
      | none => exact hwrites.delete hresolve _

theorem runAll_within {R : Type → Type 1} {perform : ∀ {α : Type}, R α → Action σ α}
    (h : ∀ {α : Type} (request : R α), Within F (perform request))
    (requests : List (Σ α : Type, R α)) (state : σ) :
    F.allows state (runAll (fun r => (perform r).answer) requests state).2 := by
  refine runAll_induction _ (motive := F.allows state) ?_ requests (F.refl state)
  intro α request middle hmiddle
  exact F.trans hmiddle (h request middle)

end EntityStore
