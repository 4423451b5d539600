/-
  EntityStore/Proofs/Store/Contents.lean
  ======================================
  **What a store holds, as its callers see it**: a payload for each partition and list
  of key parts, with no encoding of keys and no ledger.

  A request is planned against contents: from them it takes its answer, and the one
  entry that it changes, if it changes any (`Plan`).  A plan acts on contents
  (`Plan.onContents`) and, through the spelling of keys, on a ledger in memory
  (`Plan.onMemory`); the two agree (`Plan.contents_onMemory`).
-/
import EntityStore.Proofs.Key.Spelling
import EntityStore.Proofs.Ledger.Memory
import EntityStore.Proofs.Store.Answer
import EntityStore.Store.Entry

namespace EntityStore

/-! ### Contents and the change of one entry -/

/-- The payload of each entry, by its partition and the parts of its key. -/
def Contents := Partition → List String → Option Bytes

/-- One entry that is set to a payload, or removed.  Its key is one that the ledger can
    hold, and not the simple key of the empty part. -/
structure Mutation where
  partition : Partition
  key : Key
  storable : key.IsStorable
  nonempty : key.parts ≠ [""]
  payload? : Option Bytes

namespace Contents

instance : EmptyCollection Contents := ⟨fun _ _ => none⟩

/-- The stored payload under a key; an absent entry reads as an empty payload. -/
def payload (c : Contents) (p : Partition) (key : Key) : Bytes := (c p key.parts).getD []

/-- The contents behind a change: exactly the addressed entry is another. -/
def apply (c : Contents) (change : Mutation) : Contents := fun p parts =>
  if change.partition = p ∧ change.key.parts = parts then change.payload? else c p parts

/-- Makes a change that was not refused. -/
def commit (c : Contents) : Except StoreError Mutation → Except StoreError Unit × Contents
  | .ok change => (.ok (), c.apply change)
  | .error error => (.error error, c)

theorem apply_same (c : Contents) (change : Mutation) :
    c.apply change change.partition change.key.parts = change.payload? := by
  simp [apply]

theorem apply_other {c : Contents} {change : Mutation} {p : Partition} {parts : List String}
    (h : ¬ (change.partition = p ∧ change.key.parts = parts)) :
    c.apply change p parts = c p parts := if_neg h

end Contents

/-! ### The contents of a ledger -/

namespace Memory

/-- The contents of a ledger: what is stored under the spelling of each key that the
    ledger can hold. -/
def contents (m : Memory) : Contents := fun p parts =>
  match (Key.mk parts).check with
  | .ok () => m.stored? p (Key.mk parts).spell
  | .error _ => none

/-- The ledger behind a change. -/
def apply (m : Memory) (change : Mutation) : Memory :=
  match change.payload? with
  | some payload => m.written change.partition change.key.spell payload
  | none => m.deleted change.partition change.key.spell

/-- Makes a change that was not refused. -/
def commit (m : Memory) : Except StoreError Mutation → Except StoreError Unit × Memory
  | .ok change => (.ok (), m.apply change)
  | .error error => (.error error, m)

theorem contents_of_storable (m : Memory) (p : Partition) {key : Key} (h : key.IsStorable) :
    m.contents p key.parts = m.stored? p key.spell := by
  unfold contents
  rw [show (Key.mk key.parts).check = .ok () from h]

theorem storable_of_contents (m : Memory) {p : Partition} {key : Key} {payload : Bytes}
    (h : m.contents p key.parts = some payload) : key.IsStorable := by
  unfold contents at h
  split at h
  · next hcheck => exact hcheck
  · cases h

theorem spell_ne_empty (change : Mutation) : change.key.spell ≠ "" := fun h =>
  change.nonempty ((Key.spell_eq_empty_iff change.storable).mp h)

theorem stored?_apply (m : Memory) (change : Mutation) (q : Partition) (other : String) :
    (m.apply change).stored? q other =
      if change.partition = q ∧ change.key.spell = other then change.payload?
      else m.stored? q other := by
  unfold apply
  split
  · next payload h => rw [stored?_written (spell_ne_empty change), h]
  · next h => rw [stored?_deleted (spell_ne_empty change), h]

/-- **A change of the ledger is the same change of its contents.**  No other entry is
    touched, since no other key has the spelling of the changed one. -/
theorem contents_apply (m : Memory) (change : Mutation) :
    (m.apply change).contents = m.contents.apply change := by
  funext p parts
  cases hcheck : (Key.mk parts).check with
  | error error =>
    have hne : ¬ (change.partition = p ∧ change.key.parts = parts) := by
      rintro ⟨-, rfl⟩
      exact absurd (hcheck.symm.trans change.storable) nofun
    simp only [Contents.apply, if_neg hne, contents, hcheck]
  | ok _ =>
    have hstorable : (Key.mk parts).IsStorable := hcheck
    have hsame : change.key.spell = (Key.mk parts).spell ↔ change.key.parts = parts := by
      rw [Key.spell_inj change.storable hstorable]
      exact ⟨fun h => congrArg Key.parts h, fun h => by rw [← h]⟩
    rw [contents_of_storable _ p hstorable, stored?_apply]
    simp only [Contents.apply, hsame, contents_of_storable m p hstorable]

theorem IsQuiet.apply {m : Memory} (h : m.IsQuiet) (change : Mutation) :
    (m.apply change).IsQuiet := by
  unfold Memory.apply
  split
  · exact h.written
  · exact h.deleted

/-- An empty ledger, with or without document queries, in any transaction. -/
def fresh (richQueries : Bool) (txId : String) (timestamp : Int) : Memory :=
  { richQueries, txId, timestamp }

theorem isQuiet_fresh (richQueries : Bool) (txId : String) (timestamp : Int) :
    (fresh richQueries txId timestamp).IsQuiet := ⟨rfl, rfl⟩

theorem contents_fresh (richQueries : Bool) (txId : String) (timestamp : Int) :
    (fresh richQueries txId timestamp).contents = ∅ := by
  funext p parts
  unfold contents
  split
  · cases p <;> rfl
  · rfl

end Memory

/-! ### Plans -/

/-- What a request makes of the contents that it meets: a failure, or an answer and the
    entry that it changes, if it changes one. -/
def Plan (α : Type) := Contents → Except StoreError (α × Option Mutation)

namespace Plan

variable {α : Type}

/-- A request that changes nothing. -/
def reading (answer : Contents → Except StoreError α) : Plan α := fun c =>
  (answer c).map fun value => (value, none)

/-- A request that changes an entry and answers nothing else. -/
def writing (change : Contents → Except StoreError Mutation) : Plan Unit := fun c =>
  (change c).map fun change => ((), some change)

/-- The same change with another answer. -/
def map {β : Type} (f : α → β) (plan : Plan α) : Plan β := fun c =>
  (plan c).map fun (answer, change?) => (f answer, change?)

/-- Carries out a plan on contents. -/
def onContents (plan : Plan α) (c : Contents) : Except StoreError α × Contents :=
  match plan c with
  | .ok (answer, some change) => (.ok answer, c.apply change)
  | .ok (answer, none) => (.ok answer, c)
  | .error error => (.error error, c)

/-- Carries out a plan on a ledger in memory. -/
def onMemory (plan : Plan α) (m : Memory) : Except StoreError α × Memory :=
  match plan m.contents with
  | .ok (answer, some change) => (.ok answer, m.apply change)
  | .ok (answer, none) => (.ok answer, m)
  | .error error => (.error error, m)

@[simp] theorem onMemory_reading (answer : Contents → Except StoreError α) (m : Memory) :
    (reading answer).onMemory m = (answer m.contents, m) := by
  unfold onMemory reading
  cases answer m.contents <;> rfl

@[simp] theorem onMemory_writing (change : Contents → Except StoreError Mutation) (m : Memory) :
    (writing change).onMemory m = m.commit (change m.contents) := by
  unfold onMemory writing Memory.commit
  cases change m.contents <;> rfl

@[simp] theorem onContents_reading (answer : Contents → Except StoreError α) (c : Contents) :
    (reading answer).onContents c = (answer c, c) := by
  unfold onContents reading
  cases answer c <;> rfl

@[simp] theorem onContents_writing (change : Contents → Except StoreError Mutation)
    (c : Contents) : (writing change).onContents c = c.commit (change c) := by
  unfold onContents writing Contents.commit
  cases change c <;> rfl

theorem onContents_map {β : Type} (f : α → β) (plan : Plan α) (c : Contents) :
    (plan.map f).onContents c = ((plan.onContents c).1.map f, (plan.onContents c).2) := by
  unfold onContents map
  rcases plan c with error | ⟨answer, _ | change⟩ <;> rfl

theorem onMemory_map {β : Type} (f : α → β) (plan : Plan α) (m : Memory) :
    (plan.map f).onMemory m = ((plan.onMemory m).1.map f, (plan.onMemory m).2) := by
  unfold onMemory map
  rcases plan m.contents with error | ⟨answer, _ | change⟩ <;> rfl

/-- On a ledger a plan answers what it answers on its contents, and does to them what it
    does to contents. -/
theorem contents_onMemory (plan : Plan α) (m : Memory) :
    (plan.onMemory m).1 = (plan.onContents m.contents).1 ∧
      (plan.onMemory m).2.contents = (plan.onContents m.contents).2 := by
  unfold onMemory onContents
  rcases plan m.contents with error | ⟨answer, _ | change⟩
  · exact ⟨rfl, rfl⟩
  · exact ⟨rfl, rfl⟩
  · exact ⟨rfl, Memory.contents_apply m change⟩

theorem onMemory_cases (plan : Plan α) (m : Memory) :
    (plan.onMemory m).2 = m ∨ ∃ change, (plan.onMemory m).2 = m.apply change := by
  unfold onMemory
  rcases plan m.contents with error | ⟨answer, _ | change⟩
  · exact .inl rfl
  · exact .inl rfl
  · exact .inr ⟨change, rfl⟩

theorem reading_changes_nothing {answer : Contents → Except StoreError α} {c : Contents} {value : α}
    {change : Mutation} (h : reading answer c = .ok (value, some change)) : False := by
  unfold reading at h
  cases hanswer : answer c <;> simp [hanswer, Except.map] at h

theorem writing_eq_change_iff {change? : Contents → Except StoreError Mutation} {c : Contents}
    {answer : Unit} {change : Mutation} :
    writing change? c = .ok (answer, some change) ↔ change? c = .ok change := by
  unfold writing
  cases change? c <;> simp [Except.map]

theorem onMemory_of_error {plan : Plan α} {m : Memory} {error : StoreError}
    (h : (plan.onMemory m).1 = .error error) : (plan.onMemory m).2 = m := by
  unfold onMemory at h ⊢
  generalize plan m.contents = outcome at h ⊢
  rcases outcome with _ | ⟨answer, _ | change⟩
  · rfl
  · rfl
  · cases h

theorem isQuiet_onMemory {m : Memory} (h : m.IsQuiet) (plan : Plan α) :
    (plan.onMemory m).2.IsQuiet := by
  rcases onMemory_cases plan m with hsame | ⟨change, hchange⟩
  · rw [hsame]
    exact h
  · rw [hchange]
    exact h.apply change

end Plan

/-- An action on a ledger in memory does what a plan says, as long as no failure is
    pending. -/
def Action.Follows {α : Type} (action : Action Memory α) (plan : Plan α) : Prop :=
  ∀ m : Memory, m.IsQuiet → action.answer m = plan.onMemory m

end EntityStore
