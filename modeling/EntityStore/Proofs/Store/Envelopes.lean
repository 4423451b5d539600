/-
  EntityStore/Proofs/Store/Envelopes.lean
  =======================================
  **The digest envelope accepts just what it makes.**

  A payload and its envelope determine each other (`openEnvelope_eq_ok_iff`), and whatever
  is no envelope is refused for its length or for its digest.  So a store that seals its
  payloads gives, of the stored payloads, those that are envelopes within its bound.  An
  envelope is never empty, not even that of a value without a byte, so what such stores
  have written counts as present until it is deleted (`run_keeps_present`).  Of SHA-256 all
  this takes only that a digest has thirty-two bytes.
-/
import EntityStore.Proofs.Store.Atomicity
import EntityStore.Proofs.Store.Payload
import EntityStore.Proofs.Store.StoredKeys

namespace EntityStore

open EntityStore.Action

/-! ### Opening and sealing -/

namespace PayloadTransformer

theorem openEnvelope_of_short {envelope : Bytes} (h : envelope.length < digestLength) :
    openEnvelope envelope = .error (.decode s!"envelope too short: {envelope.length} bytes") :=
  if_pos h

/-- What is long enough is a digest and a payload. -/
theorem exists_append_of_long {envelope : Bytes} (h : digestLength ≤ envelope.length) :
    ∃ digest payload, digest.length = digestLength ∧ envelope = digest ++ payload :=
  ⟨envelope.take digestLength, envelope.drop digestLength, List.length_take_of_le h,
    (List.take_append_drop digestLength envelope).symm⟩

theorem openEnvelope_eq_ok_iff {envelope payload : Bytes} :
    openEnvelope envelope = .ok payload ↔ envelope = Sha256.digest payload ++ payload := by
  constructor
  · intro h
    by_cases hshort : envelope.length < digestLength
    · rw [openEnvelope_of_short hshort] at h
      cases h
    · obtain ⟨digest, found, hdigest, rfl⟩ := exists_append_of_long (Nat.not_lt.mp hshort)
      rw [openEnvelope_append hdigest] at h
      split at h
      · next hsame =>
        cases h
        rw [hsame]
      · cases h
  · rintro rfl
    exact openEnvelope_digest payload

/-- What is refused is refused as a payload that cannot be decoded. -/
theorem openEnvelope_cases (envelope : Bytes) :
    (∃ payload, openEnvelope envelope = .ok payload) ∨
      ∃ detail, openEnvelope envelope = .error (.decode detail) := by
  by_cases hshort : envelope.length < digestLength
  · exact .inr ⟨_, openEnvelope_of_short hshort⟩
  · obtain ⟨digest, payload, hdigest, rfl⟩ := exists_append_of_long (Nat.not_lt.mp hshort)
    rw [openEnvelope_append hdigest]
    split
    · exact .inl ⟨payload, rfl⟩
    · exact .inr ⟨_, rfl⟩

end PayloadTransformer

open PayloadTransformer

/-! ### Reading what is stored -/

namespace Store

variable {σ α : Type} {S : Store σ}

/-- A stored payload is the envelope of a value, within the bound of a store. -/
def Seals (S : Store σ) (value payload : Bytes) : Prop :=
  digestEnvelope.encode value = .ok payload ∧ payload.length ≤ S.config.maxValueBytes

theorem seals_iff {payload value : Bytes} :
    S.Seals value payload ↔
      payload.length ≤ S.config.maxValueBytes ∧ openEnvelope payload = .ok value := by
  rw [Seals, digestEnvelope, Except.ok.injEq, openEnvelope_eq_ok_iff, and_comm, eq_comm]

theorem decodeValue_sealed (hsealed : S.payloads = digestEnvelope) (payload : Bytes) :
    S.decodeValue Codec.bytes payload =
      if S.config.maxValueBytes < payload.length then
        .error (.decode (oversized payload.length S.config.maxValueBytes))
      else openEnvelope payload := by
  have hopen : (digestEnvelope.decode payload >>= Codec.bytes.decode) = openEnvelope payload := by
    show openEnvelope payload >>= Except.ok = _
    cases openEnvelope payload <;> rfl
  rw [decodeValue, hsealed]
  exact if_congr Iff.rfl rfl hopen

theorem decodeValue_sealed_iff (hsealed : S.payloads = digestEnvelope) {payload value : Bytes} :
    S.decodeValue Codec.bytes payload = .ok value ↔ S.Seals value payload := by
  rw [decodeValue_sealed hsealed, seals_iff]
  split
  · next hlong => simp [Nat.not_le.mpr hlong]
  · next hfits => simp [Nat.not_lt.mp hfits]

/-- What is not read is refused as a payload that cannot be decoded, whether for the bound
    or for the envelope. -/
theorem decodeValue_sealed_cases (hsealed : S.payloads = digestEnvelope) (payload : Bytes) :
    (∃ value, S.decodeValue Codec.bytes payload = .ok value) ∨
      ∃ detail, S.decodeValue Codec.bytes payload = .error (.decode detail) := by
  rw [decodeValue_sealed hsealed]
  split
  · exact .inr ⟨_, rfl⟩
  · exact openEnvelope_cases payload

theorem Seals.ne_nil {payload value : Bytes} (h : S.Seals value payload) : payload ≠ [] := by
  rintro rfl
  have hempty := (seals_iff.mp h).2
  rw [openEnvelope_of_short (by decide)] at hempty
  cases hempty

/-! ### Point reads on any ledger -/

variable {p : Partition} {source : KeySource} {key : ResolvedKey} {state next : σ}
  {payload value : Bytes}

theorem answer_fetch_of_read (codec : Codec α) (hkey : S.resolve source = .ok key)
    (hread : S.ledger.read p key.encoded state = (.ok payload, next)) :
    (S.fetch p source codec).answer state =
      (if payload = [] then .ok (key, none)
        else (S.decodeValue codec payload).map fun value => (key, some value), next) := by
  rw [fetch, hkey, answer_ofExcept_bind]
  simp only [answer_bind, answer_call, hread, Except.mapError, answer_emit]
  rcases payload with _ | ⟨b, rest⟩
  · rfl
  · rw [if_neg (List.cons_ne_nil b rest)]
    cases S.decodeValue codec (b :: rest) <;> rfl

theorem result_get_of_read (codec : Codec α) (hkey : S.resolve source = .ok key)
    (hread : S.ledger.read p key.encoded state = (.ok payload, next)) :
    (S.get p source codec state).result =
      if payload = [] then .error (.notFound key.origin.display)
      else S.decodeValue codec payload := by
  show ((S.get p source codec).answer state).1 = _
  rw [get, answer_observe, answer_bind, answer_fetch_of_read codec hkey hread]
  by_cases hempty : payload = []
  · rw [if_pos hempty, if_pos hempty]
    rfl
  · rw [if_neg hempty, if_neg hempty]
    cases S.decodeValue codec payload <;> rfl

theorem result_get?_of_read (codec : Codec α) (hkey : S.resolve source = .ok key)
    (hread : S.ledger.read p key.encoded state = (.ok payload, next)) :
    (S.get? p source codec state).result =
      if payload = [] then .ok none else (S.decodeValue codec payload).map some := by
  show ((S.get? p source codec).answer state).1 = _
  rw [get?, answer_observe, answer_bind, answer_fetch_of_read codec hkey hread]
  by_cases hempty : payload = []
  · rw [if_pos hempty, if_pos hempty]
    rfl
  · rw [if_neg hempty, if_neg hempty]
    cases S.decodeValue codec payload <;> rfl

/-- Point reads give the value that a payload seals, and rows do. -/
theorem reads_sealed_iff (hsealed : S.payloads = digestEnvelope)
    (hkey : S.resolve source = .ok key)
    (hread : S.ledger.read p key.encoded state = (.ok payload, next)) (value : Bytes) :
    ((S.get p source Codec.bytes state).result = .ok value ↔ S.Seals value payload) ∧
      ((S.get? p source Codec.bytes state).result = .ok (some value) ↔ S.Seals value payload) ∧
      (S.decodeRow Codec.bytes key.encoded payload = .ok value ↔ S.Seals value payload) := by
  have hvalue : S.decodeValue Codec.bytes payload = .ok value ↔ S.Seals value payload :=
    decodeValue_sealed_iff hsealed
  refine ⟨?_, ?_, ?_⟩
  · rw [result_get_of_read Codec.bytes hkey hread]
    split
    · next hempty => exact ⟨nofun, fun h => absurd hempty h.ne_nil⟩
    · exact hvalue
  · rw [result_get?_of_read Codec.bytes hkey hread]
    split
    · next hempty => exact ⟨nofun, fun h => absurd hempty h.ne_nil⟩
    · rw [map_eq_ok_iff]
      simpa using hvalue
  · rw [decodeRow, mapError_eq_ok_iff, hvalue]

theorem result_contains_of_read (hkey : S.resolve source = .ok key)
    (hread : S.ledger.read p key.encoded state = (.ok payload, next)) :
    ((S.contains p source).answer state).1 = .ok (!payload.isEmpty) := by
  rw [contains, answer_observe, hkey, answer_ofExcept_bind]
  simp only [answer_bind, answer_call, hread, Except.mapError, answer_emit]
  rfl

/-- An insertion that finds a payload fails. -/
theorem result_insertAt_of_read (codec : Codec α) (value : α) (hpayload : payload ≠ [])
    (hread : S.ledger.read p key.encoded state = (.ok payload, next)) :
    ((S.insertAt p key codec value).answer state).1 =
      .error (.alreadyExists key.origin.display) := by
  have hpresent : ¬ payload.isEmpty = true := by simpa using hpayload
  rw [insertAt, answer_bind, checkVacant]
  simp only [answer_bind, answer_call, hread, Except.mapError, if_neg hpresent, answer_emit,
    answer_fail]

theorem result_insert_of_read (codec : Codec α) (value : α) (hkey : S.resolve source = .ok key)
    (hname : key.origin.namespace? ≠ some keyRefNamespace) (hpayload : payload ≠ [])
    (hread : S.ledger.read p key.encoded state = (.ok payload, next)) :
    ((S.insert p source codec value).answer state).1 =
      .error (.alreadyExists key.origin.display) := by
  have hwritable : S.resolveWritable source = .ok key := by
    simp only [resolveWritable, hkey, bind, Except.bind, guardNamespace, if_neg hname]
    rfl
  rw [insert, answer_observe, hwritable, answer_ofExcept_bind]
  exact result_insertAt_of_read codec value hpayload hread

theorem result_insertKeyRef_of_read {ref : KeyRef} (hkey : S.resolve ref.id.source = .ok key)
    (hpayload : payload ≠ [])
    (hread : S.ledger.read .world key.encoded state = (.ok payload, next)) :
    ((S.insertKeyRef ref).answer state).1 = .error (.alreadyExists key.origin.display) := by
  rw [insertKeyRef, answer_observe, hkey, answer_ofExcept_bind]
  exact result_insertAt_of_read Codec.key ref.primaryKey hpayload hread

end Store

/-! ### What stores that seal write -/

/-- A request puts or inserts a value. -/
def EntryRequest.Stores {α : Type} : EntryRequest α → Prop
  | .put .. | .putEntity .. | .putWithValues .. | .insert .. | .insertEntity ..
  | .insertWithValues .. => True
  | .get .. | .get? .. | .getD .. | .contains .. | .delete .. => False

/-- A request stores a key reference. -/
def KeyRefRequest.Stores {α : Type} : KeyRefRequest α → Prop
  | .build _ | .insert _ | .put _ => True
  | .delete _ | .lookup _ | .getBy _ _ => False

/-- A request stores a value or a key reference. -/
def StoreRequest.Stores {α : Type} : StoreRequest α → Prop
  | .entry request => request.Stores
  | .keyRef request => request.Stores

section Writing

variable {σ α : Type} {S : Store σ} {w : Writing α}

/-- The payload is that of a value, as a store writes it. -/
def Store.Encodes (S : Store σ) (payload : Bytes) : Prop :=
  ∃ (α : Type) (codec : Codec α) (value : α), S.encodeValue codec value = .ok payload

/-- An envelope is never empty, whatever it holds. -/
theorem Store.Encodes.ne_nil (hsealed : S.payloads = digestEnvelope) {payload : Bytes}
    (h : S.Encodes payload) : payload ≠ [] := by
  obtain ⟨α, codec, value, hvalue⟩ := h
  obtain ⟨written, -, hvalue⟩ := bind_eq_ok_iff.mp hvalue
  obtain ⟨envelope, henvelope, hvalue⟩ := bind_eq_ok_iff.mp hvalue
  rw [hsealed] at henvelope
  cases henvelope
  split at hvalue
  · cases hvalue
  · cases hvalue
    intro hempty
    have hlength := Sha256.length_digest written
    rw [(List.append_eq_nil_iff.mp hempty).1] at hlength
    cases hlength

theorem encodes_of_putting {codec : Codec α} {value : α} {payload? : Option Bytes}
    (h : (S.encodeValue codec value).map some = .ok payload?) :
    ∃ payload, payload? = some payload ∧ S.Encodes payload := by
  obtain ⟨payload, hpayload, rfl⟩ := map_eq_ok_iff.mp h
  exact ⟨payload, rfl, α, codec, value, hpayload⟩

/-- What is written is the payload of a value, if the request stores one, and nothing if it
    deletes. -/
theorem StoreRequest.written_cases {request : StoreRequest α} (h : request.writing? S = some w)
    {payload? : Option Bytes} (hpayload : w.payload? = .ok payload?) :
    (request.Stores ∧ ∃ payload, payload? = some payload ∧ S.Encodes payload) ∨
      (request.Writes ∧ ¬ request.Stores ∧ payload? = none) := by
  cases request with
  | entry request =>
    cases request with
    | get _ _ _ | get? _ _ _ | getD _ _ _ _ | contains _ _ => cases h
    | put _ _ _ _ | putEntity _ _ _ | insert _ _ _ _ | insertEntity _ _ _ =>
      cases h
      exact .inl ⟨trivial, encodes_of_putting hpayload⟩
    | putWithValues _ _ _ _ values | insertWithValues _ _ _ _ values =>
      -- However many values there are, what is described is a put or an insertion.
      rcases values with _ | ⟨value, _ | ⟨second, rest⟩⟩ <;> cases h <;>
        exact .inl ⟨trivial, encodes_of_putting hpayload⟩
    | delete _ _ =>
      cases h
      cases hpayload
      exact .inr ⟨trivial, id, rfl⟩
  | keyRef request =>
    cases request with
    | lookup _ | getBy _ _ => cases h
    | build _ | insert _ | put _ =>
      cases h
      exact .inl ⟨trivial, encodes_of_putting hpayload⟩
    | delete _ =>
      cases h
      cases hpayload
      exact .inr ⟨trivial, id, rfl⟩

theorem StoreRequest.writes_of_stores {request : StoreRequest α} (h : request.Stores) :
    request.Writes := by
  cases request with
  | entry request =>
    cases request with
    | get _ _ _ | get? _ _ _ | getD _ _ _ _ | contains _ _ | delete _ _ => cases h
    | put _ _ _ _ | putEntity _ _ _ | putWithValues _ _ _ _ _ | insert _ _ _ _
    | insertEntity _ _ _ | insertWithValues _ _ _ _ _ => trivial
  | keyRef request =>
    cases request with
    | lookup _ | getBy _ _ | delete _ => cases h
    | build _ | insert _ | put _ => trivial

end Writing

/-! ### What stays present -/

/-- A payload that is not empty is stored under a ledger key. -/
def Memory.IsPresent (p : Partition) (text : String) (m : Memory) : Prop :=
  ∃ payload, payload ≠ [] ∧ m.stored? p text = some payload

/-- A request deletes what is under a ledger key. -/
def AnyRequest.DeletesAt {σ α : Type} (S : Store σ) (p : Partition) (text : String) :
    AnyRequest α → Prop
  | .stored request =>
    request.Writes ∧ ¬ request.Stores ∧ request.target.1 = p ∧
      ∃ key, S.resolve request.target.2 = .ok key ∧ key.encoded = text
  | .scan _ => False

/-- A step is made by a store that seals, and does not delete what is under a ledger key;
    or it is a step of the ledger itself. -/
def LedgerStep.SparesSealed {α : Type} (p : Partition) (text : String) : LedgerStep α → Prop
  | .request keys payloads config made =>
    payloads = digestEnvelope ∧ ¬ made.DeletesAt (Store.inMemory keys payloads config) p text
  | .beginTx .. | .failNextReads _ | .failIterationAfter _ => True

section Presence

open EntityStore.Memory

variable {α : Type} {p : Partition} {text : String} {m : Memory}

theorem Memory.reads_preserving_present :
    (Frame.preserving (IsPresent p text)).Reads accessor := by
  refine Frame.Reads.imp ?_ (reads_keeping_data fun m => m.stored? p text)
  rintro before behind hsame ⟨payload, hpayload, hstored⟩
  exact ⟨payload, hpayload, hsame.trans hstored⟩

/-- A write that succeeds leaves something present. -/
theorem StoreRequest.present_of_stores (keys : KeyTransformer) (config : Config)
    {request : StoreRequest α} (hstores : request.Stores) {value : α}
    (h : ((request.perform (Store.inMemory keys digestEnvelope config)).answer m).1 =
      .ok value) :
    ∃ key, (Store.inMemory keys digestEnvelope config).resolve request.target.2 = .ok key ∧
      ((request.perform (Store.inMemory keys digestEnvelope config)).answer m).2.IsPresent
        request.target.1 key.encoded := by
  let S := Store.inMemory keys digestEnvelope config
  obtain ⟨w, hwriting⟩ := request.exists_writing S (request.writes_of_stores hstores)
  have hperform : request.perform S = w.run accessor := request.perform_eq_run hwriting
  have hran : w.Ran accessor m (request.perform S m) := by
    rw [hperform]
    exact w.ran_run accessor m
  obtain ⟨key, payload?, hkey, hpayload, hstored⟩ := Writing.stored_of_ran hran h
  obtain ⟨hp, hresolve⟩ := request.key_of_writing hwriting hkey
  -- A request that stores never writes a deletion, so what is left behind is an envelope.
  obtain ⟨-, payload, rfl, hencodes⟩ | ⟨-, hdeletes, -⟩ := request.written_cases hwriting hpayload
  · rw [hp] at hstored
    exact ⟨key, hresolve, payload, hencodes.ne_nil rfl, hstored⟩
  · exact absurd hstores hdeletes

/-- A request of a store that seals spares what is present, unless it deletes it. -/
theorem AnyRequest.within_present {keys : KeyTransformer} {config : Config}
    {request : AnyRequest α}
    (hspares : ¬ request.DeletesAt (Store.inMemory keys digestEnvelope config) p text) :
    Within (Frame.preserving (IsPresent p text))
      (request.perform (Store.inMemory keys digestEnvelope config)) := by
  refine request.within_of_changes reads_preserving_present ?_
  intro w key hwriting hkey payload? hpayload m hm
  cases request with
  | scan request => cases hwriting
  | stored request =>
    show IsPresent p text (w.change accessor key payload? m).2
    rcases w.change_cases key payload? m with ⟨-, hrefused⟩ | ⟨hne, hmade⟩
    · rw [hrefused]
      exact hm
    · -- A change made here stores an envelope, since deletions are excluded; a change made
      -- elsewhere leaves this key as it was.
      by_cases hhere : w.partition = p ∧ key.encoded = text
      · obtain ⟨hp, hresolve⟩ := request.key_of_writing hwriting hkey
        obtain ⟨-, payload, rfl, hencodes⟩ | ⟨hwrites, hdeletes, -⟩ :=
          request.written_cases hwriting hpayload
        · obtain ⟨rfl, rfl⟩ := hhere
          rw [hmade]
          exact ⟨payload, hencodes.ne_nil rfl, Writing.stored?_changed hne (some payload)⟩
        · exact absurd ⟨hwrites, hdeletes, hp ▸ hhere.1, key, hresolve, hhere.2⟩ hspares
      · obtain ⟨payload, hpresent, hstored⟩ := hm
        refine ⟨payload, hpresent, ?_⟩
        rw [hmade, (Writing.change_of_ok hmade).elsewhere p text hhere]
        exact hstored

/-- **A step of a store that seals spares what is present**, unless it deletes it. -/
theorem LedgerStep.keeps_present {step : LedgerStep α} (hspares : step.SparesSealed p text)
    (h : m.IsPresent p text) : (step.perform m).2.IsPresent p text := by
  cases step with
  | request keys payloads config request =>
    obtain ⟨rfl, hspares⟩ := hspares
    exact request.within_present hspares m h
  | beginTx txId timestamp => exact h
  | failNextReads count => exact h
  | failIterationAfter rows => exact h

/-- **What is present stays present** along steps that spare it. -/
theorem run_keeps_present (steps : List (Σ α : Type, LedgerStep α))
    (hspares : ∀ step ∈ steps, step.2.SparesSealed p text) (h : m.IsPresent p text) :
    (runAll LedgerStep.perform steps m).2.IsPresent p text := by
  induction steps generalizing m with
  | nil => exact h
  | cons step rest ih =>
    obtain ⟨hstep, hrest⟩ := List.forall_mem_cons.mp hspares
    exact ih hrest (step.2.keeps_present hstep h)

/-- The ledger reads what is present, unless it was told to fail. -/
theorem Memory.read_of_present (hreads : m.failingReads = 0) (h : m.IsPresent p text) :
    ∃ payload, payload ≠ [] ∧ accessor.read p text m = (.ok payload, m) := by
  obtain ⟨payload, hpayload, hstored⟩ := h
  refine ⟨payload, hpayload, ?_⟩
  show Memory.read p text m = _
  simp [Memory.read, reading, hreads, hstored]

/-- A ledger key is taken: whatever store asks, its entry is found and nothing is inserted
    under it. -/
structure Memory.IsTaken (m : Memory) (p : Partition) (text : String) : Prop where
  contains {S : Store Memory} {source : KeySource} {key : ResolvedKey}
    (hS : S.ledger = accessor) (hkey : S.resolve source = .ok key) (htext : key.encoded = text) :
    ((S.contains p source).answer m).1 = .ok true
  insert {S : Store Memory} {source : KeySource} {key : ResolvedKey}
    (hS : S.ledger = accessor) (hkey : S.resolve source = .ok key) (htext : key.encoded = text)
    (hname : key.origin.namespace? ≠ some Store.keyRefNamespace) {β : Type} (codec : Codec β)
    (value : β) :
    ((S.insert p source codec value).answer m).1 = .error (.alreadyExists key.origin.display)
  insertKeyRef {S : Store Memory} {ref : KeyRef} {key : ResolvedKey} (hp : p = .world)
    (hS : S.ledger = accessor) (hkey : S.resolve ref.id.source = .ok key)
    (htext : key.encoded = text) :
    ((S.insertKeyRef ref).answer m).1 = .error (.alreadyExists key.origin.display)

theorem Memory.IsPresent.isTaken (h : m.IsPresent p text) (hreads : m.failingReads = 0) :
    m.IsTaken p text := by
  obtain ⟨payload, hpayload, hread⟩ := Memory.read_of_present hreads h
  constructor
  case contains =>
    rintro S source key hS hkey rfl
    rw [← hS] at hread
    rw [Store.result_contains_of_read hkey hread]
    simpa using hpayload
  case insert =>
    rintro S source key hS hkey rfl hname β codec value
    rw [← hS] at hread
    exact Store.result_insert_of_read codec value hkey hname hpayload hread
  case insertKeyRef =>
    rintro S ref key rfl hS hkey rfl
    rw [← hS] at hread
    exact Store.result_insertKeyRef_of_read hkey hpayload hread

end Presence

/-- **The digest envelope accepts just what it makes.**  A payload is opened to the one that
    it is the envelope of, and refused if it is none: for its length, or because what stands
    in front of the rest is not the digest of the rest.

    So of what any ledger holds, a store that seals reads as bytes just the envelopes within
    its bound, and refuses everything else that is there.  And whatever it writes, be it a
    value without a byte, is found and keeps insertions out of its key, until a request
    deletes it. -/
theorem digest_envelope_is_exact :
    (∀ envelope payload : Bytes,
      digestEnvelope.decode envelope = .ok payload ↔
        digestEnvelope.encode payload = .ok envelope) ∧
    (∀ envelope : Bytes, envelope.length < 32 → digestEnvelope.decode envelope =
      .error (.decode s!"envelope too short: {envelope.length} bytes")) ∧
    (∀ digest payload : Bytes, digest.length = 32 → digest ≠ Sha256.digest payload →
      digestEnvelope.decode (digest ++ payload) =
        .error (.decode "envelope digest mismatch")) ∧
    (∀ envelope : Bytes, (∀ payload, digestEnvelope.encode payload ≠ .ok envelope) →
      ∃ detail, digestEnvelope.decode envelope = .error (.decode detail)) ∧
    (∀ {σ : Type} (S : Store σ) (p : Partition) (source : KeySource) (key : ResolvedKey)
      (payload : Bytes) (state next : σ), S.payloads = digestEnvelope →
      S.resolve source = .ok key → S.ledger.read p key.encoded state = (.ok payload, next) →
      (∀ value, ((S.get p source Codec.bytes state).result = .ok value ↔ S.Seals value payload) ∧
        ((S.get? p source Codec.bytes state).result = .ok (some value) ↔
          S.Seals value payload) ∧
        (S.decodeRow Codec.bytes key.encoded payload = .ok value ↔ S.Seals value payload)) ∧
      (payload ≠ [] → (∀ value, ¬ S.Seals value payload) →
        ∃ detail, (S.get p source Codec.bytes state).result = .error (.decode detail))) ∧
    ∀ {α : Type} (keys : KeyTransformer) (config : Config) (request : StoreRequest α)
      (m : Memory) (value : α),
      let S := Store.inMemory keys digestEnvelope config
      let written := (request.perform S).answer m
      request.Stores → written.1 = .ok value →
        ∃ key, S.resolve request.target.2 = .ok key ∧
          ∀ steps : List (Σ α : Type, LedgerStep α),
            (∀ step ∈ steps, step.2.SparesSealed request.target.1 key.encoded) →
            let later := (runAll LedgerStep.perform steps written.2).2
            later.failingReads = 0 → later.IsTaken request.target.1 key.encoded := by
  refine ⟨?_, fun _ => openEnvelope_of_short, ?_, ?_, ?_, ?_⟩
  · intro envelope payload
    rw [digestEnvelope, Except.ok.injEq, openEnvelope_eq_ok_iff, eq_comm]
  · intro digest payload hlength hother
    exact (openEnvelope_append hlength payload).trans (if_neg hother.symm)
  · intro envelope hnone
    obtain ⟨payload, hopened⟩ | hrefused := openEnvelope_cases envelope
    · exact absurd (congrArg Except.ok (openEnvelope_eq_ok_iff.mp hopened).symm) (hnone payload)
    · exact hrefused
  · intro σ S p source key payload state next hsealed hkey hread
    refine ⟨Store.reads_sealed_iff hsealed hkey hread, fun hpayload hnone => ?_⟩
    rw [Store.result_get_of_read Codec.bytes hkey hread, if_neg hpayload]
    obtain ⟨value, hvalue⟩ | hrefused := S.decodeValue_sealed_cases hsealed payload
    · exact absurd ((S.decodeValue_sealed_iff hsealed).mp hvalue) (hnone value)
    · exact hrefused
  · intro α keys config request m value S written hstores hwritten
    obtain ⟨key, hkey, hpresent⟩ := request.present_of_stores keys config hstores hwritten
    refine ⟨key, hkey, ?_⟩
    intro steps hspares later hreads
    exact (run_keeps_present steps hspares hpresent).isTaken hreads

/-- A text without a character, put by a store that seals: it keeps its key through a
    failing read and another put, and a bare byte is no envelope. -/
theorem digest_envelope_is_exact_empty :
    let S := Store.inMemory KeyTransformer.identity digestEnvelope {}
    let book : KeySource := .given ⟨["BOOK", "1"]⟩
    let making {α : Type} (request : EntryRequest α) : Σ α : Type, LedgerStep α :=
      ⟨α, .request KeyTransformer.identity digestEnvelope {} (.stored (.entry request))⟩
    let steps := [⟨Unit, .failNextReads 1⟩, making (.contains .world book),
      making (.put .world book Codec.text "")]
    let written := (S.put .world book Codec.text "").answer Memory.empty
    let later := (runAll LedgerStep.perform steps written.2).2
    written.1 = .ok () ∧ later.failingReads = 0 ∧
      ((S.contains .world book).answer later).1 = .ok true ∧
      ((S.insert .world book Codec.text "Dune").answer later).1 =
        .error (.alreadyExists (Key.mk ["BOOK", "1"]).display) ∧
      digestEnvelope.decode [7] = .error (.decode "envelope too short: 1 bytes") := by
  intro S book making steps written later
  obtain ⟨-, hshort, -, -, -, htaken⟩ := digest_envelope_is_exact
  have hwritten : written.1 = .ok () := by decide +kernel
  have hreads : later.failingReads = 0 := by decide +kernel
  obtain ⟨key, hkey, htaken⟩ := htaken KeyTransformer.identity {}
    (.entry (.put .world book Codec.text "")) Memory.empty () trivial hwritten
  have hspares : ∀ step ∈ steps, step.2.SparesSealed .world key.encoded := by
    simp [steps, making, LedgerStep.SparesSealed, AnyRequest.DeletesAt, StoreRequest.Stores,
      EntryRequest.Stores, StoreRequest.Writes, EntryRequest.Writes]
  have hlater := htaken steps hspares hreads
  have hresolved : S.resolve book = .ok ⟨⟨["BOOK", "1"]⟩, ⟨["BOOK", "1"]⟩, key.encoded⟩ := by
    obtain rfl := Except.ok.inj hkey
    rfl
  have hname : (Key.mk ["BOOK", "1"]).namespace? ≠ some Store.keyRefNamespace := by decide
  exact ⟨hwritten, hreads, hlater.contains rfl hresolved rfl,
    hlater.insert rfl hresolved rfl hname Codec.text "Dune", hshort [7] (by decide)⟩

end EntityStore
