/-
  EntityStore/Proofs/Store/Atomicity.lean
  =======================================
  **A request happens or it does not.**  Whatever refuses a request, be it the key, the
  transformers, a value, the check of a vacant key or the ledger itself, refuses it before
  anything is changed.  A request that succeeds sets or removes one entry, and if that
  entry is public, one record of it comes before the earlier ones of its key.

  A ledger in memory is compared by what it holds (`Memory.SameEntries`): cursors and
  failures told in advance are used up by a request that fails.
-/
import EntityStore.Proofs.Ledger.Reading
import EntityStore.Proofs.Store.Run
import EntityStore.Proofs.Store.Within

namespace EntityStore

namespace Memory

/-- Two ledgers hold the same entries and tell the same history. -/
structure SameEntries (m n : Memory) : Prop where
  world : n.world = m.world
  collections : n.collections = m.collections
  history : n.history = m.history

/-- One entry is set or removed, and recorded if it is public. -/
structure OneChange (m n : Memory) (p : Partition) (key : String) : Prop where
  elsewhere : ∀ q other, ¬ (p = q ∧ key = other) → n.stored? q other = m.stored? q other
  recorded : p = .world → ∃ record : Modification,
    record.txId = m.txId ∧ record.timestamp = m.timestamp ∧
    n.log key = record :: m.log key ∧
    n.stored? .world key = if record.isDelete then none else some record.payload
  otherLogs : ∀ other, key ≠ other → n.log other = m.log other
  privately : p ≠ .world → n.history = m.history

variable {m n : Memory} {p : Partition} {key : String}

theorem sameEntries_of_data (h : n.data = m.data) : m.SameEntries n :=
  ⟨eq_of_data Memory.world (fun _ => rfl) h, eq_of_data Memory.collections (fun _ => rfl) h,
    eq_of_data Memory.history (fun _ => rfl) h⟩

theorem oneChange_written (hkey : key ≠ "") (p : Partition) (payload : Bytes) :
    m.OneChange (m.written p key payload) p key where
  elsewhere q other h := by rw [stored?_written hkey, if_neg h]
  recorded hp := by
    subst hp
    refine ⟨⟨m.txId, m.timestamp, false, payload⟩, rfl, rfl, ?_, ?_⟩
    · rw [log_written hkey, if_pos ⟨rfl, rfl⟩]
    · rw [stored?_written hkey, if_pos ⟨rfl, rfl⟩]
      rfl
  otherLogs other h := by
    rw [log_written hkey, if_neg]
    exact fun hsame => h hsame.2
  privately hp := by
    cases p with
    | world => exact absurd rfl hp
    | collection name => simp only [written, write, writing, if_neg hkey]

theorem oneChange_deleted (hkey : key ≠ "") (p : Partition) :
    m.OneChange (m.deleted p key) p key where
  elsewhere q other h := by rw [stored?_deleted hkey, if_neg h]
  recorded hp := by
    subst hp
    refine ⟨⟨m.txId, m.timestamp, true, []⟩, rfl, rfl, ?_, ?_⟩
    · rw [log_deleted hkey, if_pos ⟨rfl, rfl⟩]
    · rw [stored?_deleted hkey, if_pos ⟨rfl, rfl⟩]
      rfl
  otherLogs other h := by
    rw [log_deleted hkey, if_neg]
    exact fun hsame => h hsame.2
  privately hp := by
    cases p with
    | world => exact absurd rfl hp
    | collection name =>
      simp only [deleted, delete, writing, if_neg hkey]
      cases m.collections.get? name <;> rfl

/-- A change from a ledger with the same data is a change from this one. -/
theorem OneChange.of_data {behind : Memory} (hdata : behind.data = m.data)
    (h : behind.OneChange n p key) : m.OneChange n p key := by
  have hstored := eq_of_data Memory.stored? (fun _ => rfl) hdata
  have hlog := eq_of_data Memory.log (fun _ => rfl) hdata
  have hstamp := eq_of_data (fun m => (m.txId, m.timestamp)) (fun _ => rfl) hdata
  obtain ⟨htx, htime⟩ := Prod.mk.inj hstamp
  refine ⟨fun q other hother => ?_, fun hp => ?_, fun other hother => ?_, fun hp => ?_⟩
  · rw [h.elsewhere q other hother, hstored]
  · rw [← htx, ← htime, ← hlog]
    exact h.recorded hp
  · rw [h.otherLogs other hother, hlog]
  · rw [h.privately hp, (sameEntries_of_data hdata).history]

end Memory

/-! ### Writings -/

namespace Writing

open EntityStore.Memory

variable {α : Type} {w : Writing α} {key : ResolvedKey} {m behind last : Memory}

theorem data_of_read {answer : Except LedgerError Bytes}
    (h : accessor.read w.partition key.encoded m = (answer, behind)) : behind.data = m.data := by
  have hread := (isReading_read w.partition key.encoded m).1
  have hbehind : (read w.partition key.encoded m).2 = behind := congrArg Prod.snd h
  rwa [hbehind] at hread

theorem data_of_claims (h : w.Claims accessor key m behind) : behind.data = m.data := by
  unfold Claims at h
  split at h
  · exact data_of_read h
  · rw [h]

/-- The ledger behind a change under a key that is not empty. -/
def changed (w : Writing α) (key : ResolvedKey) (m : Memory) : Option Bytes → Memory
  | some payload => m.written w.partition key.encoded payload
  | none => m.deleted w.partition key.encoded

/-- The ledger refuses a change under the empty key, and is left as it was; every other
    change it makes. -/
theorem change_cases (w : Writing α) (key : ResolvedKey) (payload? : Option Bytes) (m : Memory) :
    key.encoded = "" ∧ w.change accessor key payload? m = (.error emptyKeyError, m) ∨
      key.encoded ≠ "" ∧ w.change accessor key payload? m = (.ok (), w.changed key m payload?) := by
  by_cases hempty : key.encoded = ""
  · refine .inl ⟨hempty, ?_⟩
    cases payload? <;> simp only [change, accessor, hempty] <;> rfl
  · refine .inr ⟨hempty, ?_⟩
    cases payload? with
    | none => exact delete_of_ne hempty
    | some payload => exact write_of_ne hempty

theorem change_of_error {payload? : Option Bytes} {error : LedgerError}
    (h : w.change accessor key payload? m = (.error error, last)) : last = m := by
  rcases w.change_cases key payload? m with ⟨-, hcall⟩ | ⟨-, hcall⟩
  · rw [hcall] at h
    exact (congrArg Prod.snd h).symm
  · rw [hcall] at h
    cases h

theorem change_of_ok {payload? : Option Bytes}
    (h : w.change accessor key payload? m = (.ok (), last)) :
    m.OneChange last w.partition key.encoded := by
  rcases w.change_cases key payload? m with ⟨-, hcall⟩ | ⟨hkey, hcall⟩
  · rw [hcall] at h
    cases h
  · rw [hcall] at h
    cases h
    cases payload? with
    | none => exact oneChange_deleted hkey w.partition
    | some payload => exact oneChange_written hkey w.partition payload

theorem stored?_changed (hkey : key.encoded ≠ "") (payload? : Option Bytes) :
    (w.changed key m payload?).stored? w.partition key.encoded = payload? := by
  cases payload? with
  | none => exact (stored?_deleted hkey).trans (if_pos ⟨rfl, rfl⟩)
  | some payload => exact (stored?_written hkey).trans (if_pos ⟨rfl, rfl⟩)

/-- Every way to fail comes before the change, and a writing that is done makes one. -/
theorem effect_of_ran {outcome : Outcome Memory α} (h : w.Ran accessor m outcome) :
    (∀ error, outcome.result = .error error → m.SameEntries outcome.ledger) ∧
    ∀ value, outcome.result = .ok value →
      ∃ key, w.key = .ok key ∧ m.OneChange outcome.ledger w.partition key.encoded := by
  cases h with
  | misplaced hkey => exact ⟨fun _ _ => ⟨rfl, rfl, rfl⟩, nofun⟩
  | unread hkey hvacant hread =>
    exact ⟨fun _ _ => sameEntries_of_data (data_of_read hread), nofun⟩
  | occupied hkey hvacant hread hheld =>
    exact ⟨fun _ _ => sameEntries_of_data (data_of_read hread), nofun⟩
  | unencoded hkey hclaims hpayload =>
    exact ⟨fun _ _ => sameEntries_of_data (data_of_claims hclaims), nofun⟩
  | rejected hkey hclaims hpayload hcall =>
    rw [change_of_error hcall]
    exact ⟨fun _ _ => sameEntries_of_data (data_of_claims hclaims), nofun⟩
  | done hkey hclaims hpayload hcall =>
    refine ⟨nofun, fun _ _ => ⟨_, hkey, ?_⟩⟩
    exact (change_of_ok hcall).of_data (data_of_claims hclaims)

/-- What a writing that is done leaves under its key, whatever failures are pending. -/
theorem stored_of_ran {outcome : Outcome Memory α} {answer : α} (h : w.Ran accessor m outcome)
    (hanswer : outcome.result = .ok answer) :
    ∃ key payload?, w.key = .ok key ∧ w.payload? = .ok payload? ∧
      outcome.ledger.stored? w.partition key.encoded = payload? := by
  cases h with
  | misplaced | unread | occupied | unencoded | rejected => cases hanswer
  | @done key payload? behind last hkey hclaims hpayload hcall =>
    refine ⟨key, payload?, hkey, hpayload, ?_⟩
    rcases w.change_cases key payload? behind with ⟨-, hmade⟩ | ⟨hne, hmade⟩
    · rw [hmade] at hcall
      cases hcall
    · rw [hmade] at hcall
      cases hcall
      exact stored?_changed hne payload?

end Writing

/-! ### Requests -/

open EntityStore.Action

variable {α : Type}

theorem StoreRequest.sameEntries_of_reads (keys : KeyTransformer) (payloads : PayloadTransformer)
    (config : Config) {request : StoreRequest α}
    (h : request.writing? (Store.inMemory keys payloads config) = none) (m : Memory) :
    m.SameEntries (request.perform (Store.inMemory keys payloads config) m).ledger := by
  have hwithin : Within (Frame.keeping fun m : Memory => m.data)
      ((AnyRequest.stored request).perform (Store.inMemory keys payloads config)) := by
    refine AnyRequest.within_of_changes (Memory.reads_keeping_data id) fun {w key} hwriting => ?_
    cases h.symm.trans hwriting
  exact Memory.sameEntries_of_data (hwithin m)

/-- **A request that fails leaves the ledger as it was, and one that succeeds changes one
    entry**, whatever is stored, whatever failures are told in advance, and whatever the
    transformers and the configuration are. -/
theorem requests_are_atomic (keys : KeyTransformer) (payloads : PayloadTransformer)
    (config : Config) (request : StoreRequest α) (m : Memory) :
    let S := Store.inMemory keys payloads config
    let outcome := request.perform S m
    (∀ error, outcome.result = .error error → m.SameEntries outcome.ledger) ∧
    (request.Writes → ∀ value, outcome.result = .ok value →
      ∃ key, S.resolve request.target.2 = .ok key ∧
        m.OneChange outcome.ledger request.target.1 key.encoded) := by
  intro S outcome
  cases hwriting : request.writing? S with
  | none =>
    refine ⟨fun _ _ => request.sameEntries_of_reads keys payloads config hwriting m, ?_⟩
    intro hwrites
    obtain ⟨w, hw⟩ := request.exists_writing S hwrites
    cases hwriting.symm.trans hw
  -- What a request writes is run as one writing, which ends in one of a few ways.
  | some w =>
    have hran : w.Ran Memory.accessor m outcome := by
      have hperform : outcome = w.run Memory.accessor m :=
        congrFun (request.perform_eq_run hwriting) m
      rw [hperform]
      exact w.ran_run Memory.accessor m
    obtain ⟨hfailed, hdone⟩ := Writing.effect_of_ran hran
    refine ⟨hfailed, fun _ value hvalue => ?_⟩
    obtain ⟨key, hkey, hchange⟩ := hdone value hvalue
    obtain ⟨hp, hresolve⟩ := request.key_of_writing hwriting hkey
    rw [hp] at hchange
    exact ⟨key, hresolve, hchange⟩

/-- An insertion whose check is made to fail, and the same one made again. -/
theorem requests_are_atomic_book :
    let S := Store.inMemory KeyTransformer.identity PayloadTransformer.identity {}
    let book : KeySource := .given ⟨["BOOK", "1"]⟩
    let insert : StoreRequest Unit := .entry (.insert .world book Codec.text "Dune")
    let told := (Memory.fresh false "tx-0" 0).failNextReads 1
    let failed := (insert.perform S told).ledger
    told.SameEntries failed ∧ ∃ key, S.resolve book = .ok key ∧
      failed.OneChange (insert.perform S failed).ledger .world key.encoded := by
  intro S book insert told failed
  have hatomic := requests_are_atomic KeyTransformer.identity PayloadTransformer.identity {} insert
  exact ⟨(hatomic told).1 _ rfl, (hatomic failed).2 trivial () rfl⟩

end EntityStore
