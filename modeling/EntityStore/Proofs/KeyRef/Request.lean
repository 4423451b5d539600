/-
  EntityStore/Proofs/KeyRef/Request.lean
  ======================================
  **Requests about key references**, what they are planned to do, and the requests of a
  store as a whole: those about entries and those about references.

  A reference is an entry of the public state.  Its requests differ from those about
  entries in two ways: their key is made from an identity, and they may write in the
  namespace that entries may not.
-/
import EntityStore.KeyRef
import EntityStore.Proofs.Store.Refinement

namespace EntityStore

open EntityStore.Action

/-! ### Requests -/

/-- An operation on key references, and the type of its answer. -/
inductive KeyRefRequest : Type → Type 1 where
  | build (ref : KeyRef) : KeyRefRequest KeyRef
  | insert (ref : KeyRef) : KeyRefRequest Unit
  | put (ref : KeyRef) : KeyRefRequest Unit
  | delete (id : KeyRefId) : KeyRefRequest Unit
  | lookup (id : KeyRefId) : KeyRefRequest (Option Key)
  | getBy {α : Type} (id : KeyRefId) (codec : Codec α) : KeyRefRequest α

/-- An operation of a store on an entry or on a key reference. -/
inductive StoreRequest : Type → Type 1 where
  | entry {α : Type} (request : EntryRequest α) : StoreRequest α
  | keyRef {α : Type} (request : KeyRefRequest α) : StoreRequest α

namespace KeyRefRequest

variable {σ α : Type} (S : Store σ)

/-- Runs a request on a store. -/
def perform : KeyRefRequest α → Action σ α
  | .build ref => S.buildKeyRef ref
  | .insert ref => S.insertKeyRef ref
  | .put ref => S.putKeyRef ref
  | .delete id => S.deleteKeyRef id
  | .lookup id => S.lookupKeyRef id
  | .getBy id codec => S.getByKeyRef id codec

/-- The reference that a request is about. -/
def target : KeyRefRequest α → KeyRefId
  | .build ref | .insert ref | .put ref => ref.id
  | .delete id | .lookup id | .getBy id _ => id

/-! ### Plans -/

/-- Makes a reference lead to its key, unless it leads somewhere already. -/
def insertPlan (ref : KeyRef) : Contents → Except StoreError Mutation := fun c => do
  let place ← S.locate ref.id.source
  c.insertAt S .world place Codec.key ref.primaryKey

/-- Makes a reference lead to its key. -/
def putPlan (ref : KeyRef) : Except StoreError Mutation := do
  let place ← S.locate ref.id.source
  Contents.putAt S .world place Codec.key ref.primaryKey

/-- Makes a reference lead nowhere. -/
def deletePlan (id : KeyRefId) : Except StoreError Mutation := do
  let place ← S.locate id.source
  place.change .world none

/-- What a request is meant to do. -/
def plan : KeyRefRequest α → Plan α
  | .build ref => (Plan.writing (insertPlan S ref)).map fun () => ref
  | .insert ref => .writing (insertPlan S ref)
  | .put ref => .writing fun _ => putPlan S ref
  | .delete id => .writing fun _ => deletePlan S id
  | .lookup id => .reading fun c => c.get? S .world id.source Codec.key
  | .getBy id codec => .reading fun c => do
    match ← c.get? S .world id.source Codec.key with
    | some primaryKey => c.get S .world (.given primaryKey) codec
    | none =>
      let key ← id.key
      .error (.notFound key.display)

/-! ### Which entry a request changes -/

section

variable {S}

theorem putPlan_of_insertPlan {c : Contents} {ref : KeyRef} {change : Mutation}
    (h : insertPlan S ref c = .ok change) : putPlan S ref = .ok change := by
  obtain ⟨place, hplace, hinsert⟩ := bind_eq_ok_iff.mp h
  exact bind_eq_ok_iff.mpr ⟨place, hplace, (EntryRequest.insertAt_eq_ok hinsert).2⟩

/-- The reference that a request stores, if it stores one. -/
def ref? : KeyRefRequest α → Option KeyRef
  | .build ref | .insert ref | .put ref => some ref
  | .delete _ | .lookup _ | .getBy _ _ => none

theorem target_of_ref {request : KeyRefRequest α} {ref : KeyRef} (h : request.ref? = some ref) :
    request.target = ref.id := by
  cases request <;> cases h <;> rfl

/-- The changes that a request may make: its reference is set to its primary key, or
    removed. -/
theorem plan_eq_change {request : KeyRefRequest α} {c : Contents} {answer : α} {change : Mutation}
    (h : request.plan S c = .ok (answer, some change)) :
    (∃ ref, request.ref? = some ref ∧ putPlan S ref = .ok change) ∨
      deletePlan S request.target = .ok change := by
  cases request with
  | build ref =>
    obtain ⟨⟨_, _⟩, hwriting, hsame⟩ := map_eq_ok_iff.mp h
    cases hsame
    exact .inl ⟨ref, rfl, putPlan_of_insertPlan (Plan.writing_eq_change_iff.mp hwriting)⟩
  | insert ref =>
    exact .inl ⟨ref, rfl, putPlan_of_insertPlan (Plan.writing_eq_change_iff.mp h)⟩
  | put ref =>
    simp only [plan] at h
    exact .inl ⟨ref, rfl, Plan.writing_eq_change_iff.mp h⟩
  | delete id =>
    simp only [plan] at h
    exact .inr (Plan.writing_eq_change_iff.mp h)
  | lookup id =>
    simp only [plan] at h
    exact (Plan.reading_changes_nothing h).elim
  | getBy id codec =>
    simp only [plan] at h
    exact (Plan.reading_changes_nothing h).elim

theorem plan_changesAt {request : KeyRefRequest α} {c : Contents} {answer : α} {change : Mutation}
    (h : request.plan S c = .ok (answer, some change)) :
    ∃ place, S.locate request.target.source = .ok place ∧
      change.partition = .world ∧ change.key = place.key := by
  rcases plan_eq_change h with ⟨ref, href, hput⟩ | hdelete
  · obtain ⟨place, hplace, hchange⟩ := bind_eq_ok_iff.mp hput
    obtain ⟨hp, hkey, -⟩ := EntryRequest.putAt_eq_ok hchange
    rw [target_of_ref href]
    exact ⟨place, hplace, hp, hkey⟩
  · obtain ⟨place, hplace, hchange⟩ := bind_eq_ok_iff.mp hdelete
    obtain ⟨hp, hkey, -⟩ := EntryRequest.change_eq_ok hchange
    exact ⟨place, hplace, hp, hkey⟩

end

/-! ### Requests follow their plans -/

variable {S : Store Memory}

theorem follows_insert (hS : S.ledger = Memory.accessor) (ref : KeyRef) :
    (S.insertKeyRef ref).Follows (.writing (insertPlan S ref)) := by
  unfold Store.insertKeyRef insertPlan
  rw [Store.resolve_eq (by rw [hS]; rfl)]
  exact follows_change (fun c place => c.insertAt S .world place Codec.key ref.primaryKey)
    fun m hm place => answer_insertAt hS hm .world place Codec.key ref.primaryKey

theorem follows_build (hS : S.ledger = Memory.accessor) (ref : KeyRef) :
    (S.buildKeyRef ref).Follows ((Plan.writing (insertPlan S ref)).map fun () => ref) := by
  intro m hm
  rw [Store.buildKeyRef, answer_bind, follows_insert hS ref m hm, Plan.onMemory_map]
  rcases (Plan.writing (insertPlan S ref)).onMemory m with ⟨error | answer, next⟩ <;> rfl

theorem follows_put (hS : S.ledger = Memory.accessor) (ref : KeyRef) :
    (S.putKeyRef ref).Follows (.writing fun _ => putPlan S ref) := by
  unfold Store.putKeyRef putPlan
  rw [Store.resolve_eq (by rw [hS]; rfl)]
  exact follows_change (fun _ place => Contents.putAt S .world place Codec.key ref.primaryKey)
    fun m _ place => answer_putAt hS .world place Codec.key ref.primaryKey

theorem follows_delete (hS : S.ledger = Memory.accessor) (id : KeyRefId) :
    (S.deleteKeyRef id).Follows (.writing fun _ => deletePlan S id) := by
  unfold Store.deleteKeyRef deletePlan
  rw [Store.resolve_eq (by rw [hS]; rfl)]
  exact follows_change (fun _ place => place.change .world none)
    fun m _ place => answer_deleteAt hS .world place

theorem follows_lookup (hS : S.ledger = Memory.accessor) (id : KeyRefId) :
    (S.lookupKeyRef id).Follows (.reading fun c => c.get? S .world id.source Codec.key) := by
  intro m hm
  rw [← follows_get? hS .world id.source Codec.key m hm, Store.lookupKeyRef, answer_observe,
    Store.get?, answer_observe]

theorem follows_getBy {α : Type} (hS : S.ledger = Memory.accessor) (id : KeyRefId) (codec : Codec α) :
    (S.getByKeyRef id codec).Follows (plan S (.getBy id codec)) := by
  intro m hm
  have hlookup := follows_lookup hS id m hm
  rw [Plan.onMemory_reading] at hlookup
  rw [plan, Plan.onMemory_reading, Store.getByKeyRef, answer_bind, hlookup]
  rcases hfound : m.contents.get? S .world id.source Codec.key with error | _ | primaryKey
  · rfl
  · show (ofExcept id.key >>= fun key => observe .keyRef (fail (.notFound key.display))).answer m =
      (id.key >>= fun key => .error (.notFound key.display), m)
    rw [answer_ofExcept_bind]
    cases id.key <;> rfl
  · have hget := EntityStore.follows_get hS .world (.given primaryKey) codec m hm
    rw [Plan.onMemory_reading] at hget
    exact hget

/-- **Every request on key references follows its plan.** -/
theorem follows {α : Type} (hS : S.ledger = Memory.accessor) (request : KeyRefRequest α) :
    (request.perform S).Follows (request.plan S) := by
  cases request with
  | build ref => exact follows_build hS ref
  | insert ref => exact follows_insert hS ref
  | put ref => exact follows_put hS ref
  | delete id => exact follows_delete hS id
  | lookup id => exact follows_lookup hS id
  | getBy id codec => exact follows_getBy hS id codec

end KeyRefRequest

namespace StoreRequest

variable {α : Type}

/-- Runs a request on a store. -/
def perform {σ : Type} (S : Store σ) : StoreRequest α → Action σ α
  | .entry request => request.perform S
  | .keyRef request => request.perform S

/-- What a request is meant to do. -/
def plan {σ : Type} (S : Store σ) : StoreRequest α → Plan α
  | .entry request => request.plan S
  | .keyRef request => request.plan S

/-- The partition and the key source that a request is about. -/
def target : StoreRequest α → Partition × KeySource
  | .entry request => request.target
  | .keyRef request => (.world, request.target.source)

/-- A request changes no entry but the one that it is about. -/
theorem plan_changesAt {σ : Type} {S : Store σ} {request : StoreRequest α} {c : Contents}
    {answer : α} {change : Mutation} (h : request.plan S c = .ok (answer, some change)) :
    ∃ place, S.locate request.target.2 = .ok place ∧
      change.partition = request.target.1 ∧ change.key = place.key := by
  cases request with
  | entry request =>
    obtain ⟨place, hplace, hp, hkey⟩ := EntryRequest.plan_changesAt h
    exact ⟨place, (Store.locateWritable_eq_ok_iff.mp hplace).1, hp, hkey⟩
  | keyRef request => exact KeyRefRequest.plan_changesAt h

theorem follows {S : Store Memory} (hS : S.ledger = Memory.accessor) (request : StoreRequest α) :
    (request.perform S).Follows (request.plan S) := by
  cases request with
  | entry request => exact request.follows hS
  | keyRef request => exact request.follows hS

end StoreRequest

end EntityStore
