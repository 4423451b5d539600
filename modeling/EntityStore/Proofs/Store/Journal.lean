/-
  EntityStore/Proofs/Store/Journal.lean
  =====================================
  **The history of a key is the journal of its mutations, and explains what is stored.**

  A journal is kept from requests and their answers alone (`Journal.after`): a request
  that succeeded and that writes or deletes a public entry is entered under the key that
  it named, with the transaction then in force.  The invariant `Memory.Keeps` ties the
  journal to the ledger: the recorded mutations of a key are its journal, and the stored
  payload is the one that the newest entry left.
-/
import EntityStore.Proofs.Store.Effect

namespace EntityStore

open EntityStore.Action

/-! ### Steps -/

/-- A request, or the start of a transaction. -/
inductive Step : Type → Type 1 where
  | request {α : Type} (request : AnyRequest α) : Step α
  | beginTx (txId : String) (timestamp : Int) : Step Unit

def Step.perform {α : Type} (S : Store Memory) : Step α → Action Memory α
  | .request r => r.perform S
  | .beginTx txId timestamp => fun m => ⟨.ok (), m.beginTx txId timestamp, []⟩

/-! ### Journals -/

/-- A transaction and its time. -/
structure Stamp where
  txId : String
  timestamp : Int

/-- A mutation of a key: the transaction that made it, and the payload that it left, if it
    did not delete the key. -/
structure JournalEntry where
  stamp : Stamp
  payload? : Option Bytes

/-- The mutations of each key, by its parts, the newest first. -/
def Journal := List String → List JournalEntry

instance : EmptyCollection Journal := ⟨fun _ => []⟩

def Journal.enter (journal : Journal) (key : Key) (entry : JournalEntry) : Journal := fun parts =>
  if key.parts = parts then entry :: journal parts else journal parts

/-- The journal of a key gets the entries that are made under this key. -/
theorem Journal.enter_key (journal : Journal) (changed key : Key) (entry : JournalEntry) :
    journal.enter changed entry key.parts =
      if changed = key then entry :: journal key.parts else journal key.parts := by
  have hkeys : changed.parts = key.parts ↔ changed = key :=
    ⟨fun h => congrArg Key.mk h, congrArg Key.parts⟩
  exact if_congr hkeys rfl rfl

section Requests

variable {σ α : Type} (S : Store σ)

/-- What a write leaves under its key; nothing if the value has no payload. -/
def Store.leaves (codec : Codec α) (value : α) : Option (Option Bytes) :=
  (S.encodeValue codec value).toOption.map some

/-- What a request leaves under its key if it succeeds: a payload, or nothing after a
    deletion.  Requests that read leave nothing of their own: the outer `none`. -/
def EntryRequest.leaves : EntryRequest α → Option (Option Bytes)
  | .put _ _ codec value | .insert _ _ codec value => S.leaves codec value
  | .putEntity _ T entity | .insertEntity _ T entity => S.leaves T.codec entity
  | .putWithValues _ T entity codec values | .insertWithValues _ T entity codec values =>
    match values with
    | [] => S.leaves T.codec entity
    | [value] => S.leaves codec value
    | _ => none
  | .delete _ _ => some none
  | .get .. | .get? .. | .getD .. | .contains .. => none

def KeyRefRequest.leaves : KeyRefRequest α → Option (Option Bytes)
  | .build ref | .insert ref | .put ref => S.leaves Codec.key ref.primaryKey
  | .delete _ => some none
  | .lookup _ | .getBy _ _ => none

namespace StoreRequest

def leaves : StoreRequest α → Option (Option Bytes)
  | .entry request => request.leaves S
  | .keyRef request => request.leaves S

/-- Enters a request that succeeded, if it writes or deletes a public entry. -/
def enter (request : StoreRequest α) (stamp : Stamp) (journal : Journal) : Journal :=
  match request.target, request.leaves S with
  | (.world, source), some payload? =>
    match source.normalize with
    | .ok key => journal.enter key ⟨stamp, payload?⟩
    | .error _ => journal
  | _, _ => journal

end StoreRequest

/-- A journal, and the transaction in force. -/
structure Books where
  stamp : Stamp
  journal : Journal

/-- The books behind a step.  Failed requests, and scans, leave no mark. -/
def Step.record (succeeded : Bool) (books : Books) : Step α → Books
  | .beginTx txId timestamp => { books with stamp := ⟨txId, timestamp⟩ }
  | .request (.stored r) =>
    if succeeded then { books with journal := r.enter S books.stamp books.journal } else books
  | .request (.scan _) => books

/-- The books behind steps and their answers. -/
def Books.after (books : Books) :
    List (Σ α : Type, Step α) → List (Σ α : Type, Except StoreError α) → Books
  | ⟨_, step⟩ :: steps, ⟨_, answer⟩ :: answers =>
    after (step.record S answer.isOk books) steps answers
  | _, _ => books

end Requests

/-! ### What plans leave -/

section Plans

variable {σ α : Type} {S : Store σ}

theorem Plan.change_of_reading {answer : Contents → Except StoreError α} {c : Contents} {value : α}
    {change? : Option Mutation} (h : Plan.reading answer c = .ok (value, change?)) :
    change? = none := by
  obtain ⟨value, -, hsame⟩ := map_eq_ok_iff.mp h
  cases hsame
  rfl

theorem Plan.change_of_writing {change : Contents → Except StoreError Mutation} {c : Contents}
    {change? : Option Mutation} (h : Plan.writing change c = .ok ((), change?)) :
    ∃ made, change c = .ok made ∧ change? = some made := by
  obtain ⟨made, hmade, hsame⟩ := map_eq_ok_iff.mp h
  cases hsame
  exact ⟨made, hmade, rfl⟩

theorem leaves_of_putAt {p : Partition} {place : Place} {codec : Codec α} {value : α}
    {change : Mutation} (h : Contents.putAt S p place codec value = .ok change) :
    S.leaves codec value = some change.payload? := by
  obtain ⟨-, -, payload, hpayload, hset⟩ := EntryRequest.putAt_eq_ok h
  simp [Store.leaves, hpayload, hset, Except.toOption]

theorem leaves_of_putPlan {p : Partition} {source : KeySource} {codec : Codec α} {value : α}
    {c : Contents} {change? : Option Mutation}
    (h : EntryRequest.putPlan S p source codec value c = .ok ((), change?)) :
    S.leaves codec value = change?.map Mutation.payload? := by
  obtain ⟨change, hchange, rfl⟩ := Plan.change_of_writing h
  obtain ⟨place, -, hput⟩ := bind_eq_ok_iff.mp hchange
  exact leaves_of_putAt hput

theorem leaves_of_insertPlan {p : Partition} {source : KeySource} {codec : Codec α} {value : α}
    {c : Contents} {change? : Option Mutation}
    (h : EntryRequest.insertPlan S p source codec value c = .ok ((), change?)) :
    S.leaves codec value = change?.map Mutation.payload? := by
  obtain ⟨change, hchange, rfl⟩ := Plan.change_of_writing h
  obtain ⟨place, -, hinsert⟩ := bind_eq_ok_iff.mp hchange
  exact leaves_of_putAt (EntryRequest.insertAt_eq_ok hinsert).2

theorem EntryRequest.leaves_of_plan {request : EntryRequest α} {c : Contents} {answer : α}
    {change? : Option Mutation} (h : request.plan S c = .ok (answer, change?)) :
    request.leaves S = change?.map Mutation.payload? := by
  cases request with
  | get _ _ _ | get? _ _ _ | getD _ _ _ _ | contains _ _ =>
    simp only [plan] at h
    rw [Plan.change_of_reading h]
    rfl
  | put p source codec value => exact leaves_of_putPlan h
  | putEntity p T entity => exact leaves_of_putPlan h
  | putWithValues p T entity codec values =>
    rcases values with _ | ⟨value, _ | ⟨second, rest⟩⟩
    · exact leaves_of_putPlan h
    · exact leaves_of_putPlan h
    · cases h
  | insert p source codec value => exact leaves_of_insertPlan h
  | insertEntity p T entity => exact leaves_of_insertPlan h
  | insertWithValues p T entity codec values =>
    rcases values with _ | ⟨value, _ | ⟨second, rest⟩⟩
    · exact leaves_of_insertPlan h
    · exact leaves_of_insertPlan h
    · cases h
  | delete p source =>
    simp only [plan] at h
    obtain ⟨change, hchange, rfl⟩ := Plan.change_of_writing h
    obtain ⟨place, -, hdelete⟩ := bind_eq_ok_iff.mp hchange
    rw [Option.map_some, (change_eq_ok hdelete).2.2]
    rfl

theorem KeyRefRequest.leaves_of_plan {request : KeyRefRequest α} {c : Contents} {answer : α}
    {change? : Option Mutation} (h : request.plan S c = .ok (answer, change?)) :
    request.leaves S = change?.map Mutation.payload? := by
  -- An insertion that goes through writes what a put of the same reference writes.
  have hput {ref : KeyRef} {change : Mutation} (hchange : putPlan S ref = .ok change) :
      S.leaves Codec.key ref.primaryKey = some change.payload? := by
    obtain ⟨place, -, hput⟩ := bind_eq_ok_iff.mp hchange
    exact leaves_of_putAt hput
  cases request with
  | build ref =>
    obtain ⟨⟨_, _⟩, hwriting, hsame⟩ := map_eq_ok_iff.mp h
    cases hsame
    obtain ⟨change, hchange, rfl⟩ := Plan.change_of_writing hwriting
    exact hput (putPlan_of_insertPlan hchange)
  | insert ref =>
    obtain ⟨change, hchange, rfl⟩ := Plan.change_of_writing h
    exact hput (putPlan_of_insertPlan hchange)
  | put ref =>
    simp only [plan] at h
    obtain ⟨change, hchange, rfl⟩ := Plan.change_of_writing h
    exact hput hchange
  | delete id =>
    simp only [plan] at h
    obtain ⟨change, hchange, rfl⟩ := Plan.change_of_writing h
    obtain ⟨place, -, hdelete⟩ := bind_eq_ok_iff.mp hchange
    rw [Option.map_some, (EntryRequest.change_eq_ok hdelete).2.2]
    rfl
  | lookup _ | getBy _ _ =>
    simp only [plan] at h
    rw [Plan.change_of_reading h]
    rfl

theorem StoreRequest.leaves_of_plan {request : StoreRequest α} {c : Contents} {answer : α}
    {change? : Option Mutation} (h : request.plan S c = .ok (answer, change?)) :
    request.leaves S = change?.map Mutation.payload? := by
  cases request with
  | entry request => exact request.leaves_of_plan h
  | keyRef request => exact request.leaves_of_plan h

end Plans

/-! ### The ledger keeps the journal -/

/-- A mutation as the ledger records it. -/
def JournalEntry.modification (entry : JournalEntry) : Modification :=
  ⟨entry.stamp.txId, entry.stamp.timestamp, entry.payload?.isNone, entry.payload?.getD []⟩

namespace Memory

def stamp (m : Memory) : Stamp := ⟨m.txId, m.timestamp⟩

theorem stamp_apply (m : Memory) (change : Mutation) : (m.apply change).stamp = m.stamp := by
  unfold apply
  split
  · next payload h =>
    exact (congrArg stamp (setting_written m change.partition change.key.spell payload) :)
  · exact (congrArg stamp (setting_deleted m change.partition change.key.spell) :)

theorem log_apply (m : Memory) (change : Mutation) (text : String) :
    (m.apply change).log text =
      if change.partition = .world ∧ change.key.spell = text then
        JournalEntry.modification ⟨m.stamp, change.payload?⟩ :: m.log text
      else m.log text := by
  unfold apply
  split
  · next payload h =>
    rw [log_written (spell_ne_empty change), h]
    rfl
  · next h =>
    rw [log_deleted (spell_ne_empty change), h]
    rfl

/-- The recorded mutations of a key are its journal, and the stored payload is the one that
    the newest of them left. -/
structure Keeps (m : Memory) (books : Books) : Prop where
  stamp_eq : m.stamp = books.stamp
  log_eq {key : Key} (h : key.IsStorable) :
    m.log key.spell = (books.journal key.parts).map JournalEntry.modification
  stored_eq {key : Key} (h : key.IsStorable) :
    m.stored? .world key.spell = (books.journal key.parts).head?.bind JournalEntry.payload?

theorem keeps_fresh (richQueries : Bool) (txId : String) (timestamp : Int) :
    (fresh richQueries txId timestamp).Keeps ⟨⟨txId, timestamp⟩, ∅⟩ where
  stamp_eq := rfl
  log_eq _ := rfl
  stored_eq _ := rfl

theorem Keeps.apply {m : Memory} {books : Books} (h : m.Keeps books) {change : Mutation}
    (hworld : change.partition = .world) :
    (m.apply change).Keeps
      { books with journal := books.journal.enter change.key ⟨books.stamp, change.payload?⟩ } where
  stamp_eq := (m.stamp_apply change).trans h.stamp_eq
  log_eq {key} hkey := by
    simp only [log_apply, h.log_eq hkey, h.stamp_eq, Journal.enter_key]
    by_cases heq : change.key = key
    · simp [hworld, heq]
    · simp [Key.spell_inj change.storable hkey, heq]
  stored_eq {key} hkey := by
    simp only [stored?_apply, h.stored_eq hkey, Journal.enter_key]
    by_cases heq : change.key = key
    · simp [hworld, heq]
    · simp [Key.spell_inj change.storable hkey, heq]

/-- Private changes are not recorded, and touch no public entry. -/
theorem Keeps.apply_private {m : Memory} {books : Books} (h : m.Keeps books) {change : Mutation}
    (hprivate : change.partition ≠ .world) : (m.apply change).Keeps books where
  stamp_eq := (m.stamp_apply change).trans h.stamp_eq
  log_eq hkey := by simp [log_apply, hprivate, h.log_eq hkey]
  stored_eq hkey := by simp [stored?_apply, hprivate, h.stored_eq hkey]

end Memory

/-! ### Steps keep the journal -/

section Steps

variable {S : Store Memory} {α : Type} {m : Memory} {books : Books}

theorem StoreRequest.keeps (hS : S.ledger = Memory.accessor)
    (hkeys : S.keys = KeyTransformer.identity) (request : StoreRequest α) (hm : m.IsQuiet)
    (h : m.Keeps books) :
    ((request.perform S).answer m).2.Keeps
      ((Step.request (.stored request)).record S
        ((request.perform S).answer m).1.isOk books) := by
  rw [request.follows hS m hm, Plan.onMemory]
  split
  · next answer change hplan =>
    -- The change lies at the key that the request named, because this store keeps keys as they
    -- are; so the book enters it under the same key.
    obtain ⟨place, hplace, hp, hkey⟩ := request.plan_changesAt hplan
    obtain ⟨hsource, hstored⟩ := Store.locate_eq_ok hplace
    rw [hkeys] at hstored
    have hnamed : request.target.2.normalize = .ok change.key := by
      rw [hsource, hkey, Except.ok.inj hstored]
    have hleaves := request.leaves_of_plan hplan
    cases htarget : request.target with
    | mk p source =>
      rw [htarget] at hp hnamed
      cases p with
      | world =>
        simp only [Step.record, Except.isOk, Except.toBool, if_true, StoreRequest.enter, htarget,
          hleaves, Option.map_some, hnamed]
        exact h.apply hp
      | collection name =>
        simp only [Step.record, Except.isOk, Except.toBool, if_true, StoreRequest.enter, htarget]
        exact h.apply_private (by simp [hp])
  · next answer hplan =>
    have hleaves := request.leaves_of_plan hplan
    have hsame : request.enter S books.stamp books.journal = books.journal := by
      simp [StoreRequest.enter, hleaves]
    simp only [Step.record, Except.isOk, Except.toBool, if_true, hsame]
    exact h
  · next error hplan => exact h

theorem Step.keeps (hS : S.ledger = Memory.accessor) (hkeys : S.keys = KeyTransformer.identity)
    (step : Step α) (hm : m.IsQuiet) (h : m.Keeps books) :
    ((step.perform S).answer m).2.IsQuiet ∧
      ((step.perform S).answer m).2.Keeps
        (step.record S ((step.perform S).answer m).1.isOk books) := by
  cases step with
  | beginTx txId timestamp =>
    exact ⟨⟨hm.reads, hm.rows⟩, rfl, h.log_eq, h.stored_eq⟩
  | request r =>
    refine ⟨(r.effect hS hm).1, ?_⟩
    cases r with
    | stored request => exact request.keeps hS hkeys hm h
    | scan request =>
      have hdata := request.data_perform hS m
      have hlog (text : String) := congrArg (fun m : Memory => m.log text) hdata
      have hstored (text : String) := congrArg (fun m : Memory => m.stored? .world text) hdata
      exact ⟨(congrArg Memory.stamp hdata).trans h.stamp_eq,
        fun hkey => (hlog _).trans (h.log_eq hkey),
        fun hkey => (hstored _).trans (h.stored_eq hkey)⟩

/-- **A run keeps the journal.** -/
theorem run_keeps (hS : S.ledger = Memory.accessor) (hkeys : S.keys = KeyTransformer.identity)
    (steps : List (Σ α : Type, Step α)) (hm : m.IsQuiet) (h : m.Keeps books) :
    let ran := runAll (fun r => (r.perform S).answer) steps m
    ran.2.IsQuiet ∧ ran.2.Keeps (books.after S steps ran.1) := by
  induction steps generalizing m books with
  | nil => exact ⟨hm, h⟩
  | cons step rest ih =>
    obtain ⟨α, step⟩ := step
    obtain ⟨hquiet, hkeeps⟩ := step.keeps hS hkeys hm h
    exact ih hquiet hkeeps

end Steps

/-! ### Reading the journal -/

section History

variable {S : Store Memory} {α : Type} {m : Memory}

/-- The scan of the recorded mutations of a key. -/
def Store.historyScan (S : Store Memory) (codec : Codec α) (key : ResolvedKey) :
    Scan (List (HistoryEntry α)) where
  opening := .history key.encoded
  make modification _ := S.historyEntry key codec modification
  finish _ entries := .ok entries
  target := key.encoded

/-- A history reads the recorded mutations of its key one by one. -/
theorem answer_history (hS : S.ledger = Memory.accessor) (hm : m.IsQuiet) {source : KeySource}
    {key : ResolvedKey} (hkey : S.resolve source = .ok key) (codec : Codec α) :
    ((S.history source codec).answer m).1 =
      (m.log key.encoded).mapM (S.historyEntry key codec) := by
  have hopen : (call ((S.historyScan codec key).opening.call Memory.accessor)).answer m =
      (.ok ⟨m.nextCursor, (m.log key.encoded).map .ok⟩,
        (m.openCursor (m.log key.encoded)).2) := by
    show ((Memory.historyOf key.encoded m).1.mapError StoreError.ledger,
      (Memory.historyOf key.encoded m).2) = _
    rw [Memory.historyOf_of_isQuiet hm]
    rfl
  have hperform : S.history source codec =
      scanning S.ledger .history ((S.resolve source).map (S.historyScan codec)) :=
    (ScanRequest.history source codec).perform_eq S
  rw [hperform, hkey, hS]
  show ((observe .history ((S.historyScan codec key).run Memory.accessor .history)).answer m).1 = _
  rw [answer_observe, Scan.answer_run (fun _ => rfl) hopen rfl List.mem_cons_self]
  exact bind_pure _

/-- The entry of a history that tells a mutation: its transaction, whether it deleted, and
    the value that it wrote, if that has a payload. -/
def JournalEntry.Tells (S : Store Memory) (codec : Codec α) (entry : JournalEntry)
    (told : HistoryEntry α) : Prop :=
  told.txId = entry.stamp.txId ∧ told.timestamp = entry.stamp.timestamp ∧
    told.isDeleted = entry.payload?.isNone ∧
    match entry.payload? with
    | none | some [] => told.value = none
    | some payload => ∃ value, told.value = some value ∧ S.decodeValue codec payload = .ok value

theorem JournalEntry.exists_tells (entry : JournalEntry) {codec : Codec α} (key : ResolvedKey)
    (hreadable : ∀ payload, entry.payload? = some payload → payload ≠ [] →
      ∃ value, S.decodeValue codec payload = .ok value) :
    ∃ told, S.historyEntry key codec entry.modification = .ok told ∧ entry.Tells S codec told := by
  obtain ⟨stamp, _ | _ | ⟨byte, rest⟩⟩ := entry
  · exact ⟨⟨stamp.txId, stamp.timestamp, true, none⟩, rfl, rfl, rfl, rfl, rfl⟩
  · exact ⟨⟨stamp.txId, stamp.timestamp, false, none⟩, rfl, rfl, rfl, rfl, rfl⟩
  · obtain ⟨value, hvalue⟩ := hreadable (byte :: rest) rfl nofun
    refine ⟨⟨stamp.txId, stamp.timestamp, false, some value⟩, ?_, rfl, rfl, rfl, value, rfl, hvalue⟩
    simp [Store.historyEntry, modification, hvalue]

end History

/-- **The history of a key is the journal of its mutations, and explains what is stored.**
    Take a store that keeps keys as they are, over an empty ledger, and any run of requests
    of all kinds and of transactions.  For every key that resolves, the journal of the run
    has an entry for each request that succeeded and that put, inserted or deleted the
    public entry of this key, the newest first.  If the payloads in it can be read, then
    the history of the key tells these entries one by one; and the stored payload is the
    one that the newest entry left: there is none if that entry deleted the key, or if
    there is no entry. -/
theorem history_is_journal {α : Type} (payloads : PayloadTransformer) (config : Config)
    (richQueries : Bool) (txId : String) (timestamp : Int) (steps : List (Σ α : Type, Step α))
    (source : KeySource) (codec : Codec α) (key : ResolvedKey) :
    let S := Store.inMemory KeyTransformer.identity payloads config
    let ran := runAll (fun r => (r.perform S).answer) steps
      (Memory.fresh richQueries txId timestamp)
    let journal := (Books.after S ⟨⟨txId, timestamp⟩, ∅⟩ steps ran.1).journal
    S.resolve source = .ok key →
      ((∀ entry ∈ journal key.parts.parts, ∀ payload, entry.payload? = some payload →
          payload ≠ [] → ∃ value, S.decodeValue codec payload = .ok value) →
        ∃ told, ((S.history source codec).answer ran.2).1 = .ok told ∧
          List.Forall₂ (JournalEntry.Tells S codec) (journal key.parts.parts) told) ∧
      ran.2.stored? .world key.encoded =
        (journal key.parts.parts).head?.bind JournalEntry.payload? := by
  intro S ran journal hkey
  obtain ⟨hquiet, hkeeps⟩ := run_keeps (S := S) rfl rfl steps
    (Memory.isQuiet_fresh richQueries txId timestamp)
    (Memory.keeps_fresh richQueries txId timestamp)
  have hlocate := hkey
  rw [Store.resolve_eq rfl] at hlocate
  obtain ⟨place, -, rfl⟩ := map_eq_ok_iff.mp hlocate
  refine ⟨fun hreadable => ?_, hkeeps.stored_eq place.storable⟩
  rw [answer_history rfl hquiet hkey, show place.resolved.encoded = place.key.spell from rfl,
    hkeeps.log_eq place.storable, List.mapM_map]
  refine exists_mapM_eq_ok ?_
  intro entry hentry
  exact entry.exists_tells place.resolved (hreadable entry hentry)

/-- The history of a book that was put, refused a second insertion, and deleted in a later
    transaction: the deletion, and before it the text. -/
theorem history_is_journal_book :
    let S := Store.inMemory KeyTransformer.identity PayloadTransformer.identity {}
    let book : KeySource := .given ⟨["book", "1"]⟩
    let steps : List (Σ α : Type, Step α) :=
      [⟨Unit, .request (.stored (.entry (.put .world book Codec.text "Dune")))⟩,
        ⟨Unit, .beginTx "tx-1" 7⟩,
        ⟨Unit, .request (.stored (.entry (.insert .world book Codec.text "Emma")))⟩,
        ⟨Unit, .request (.stored (.entry (.delete .world book)))⟩]
    let ran := runAll (fun r => (r.perform S).answer) steps (Memory.fresh false "tx-0" 0)
    ∃ told, ((S.history book Codec.text).answer ran.2).1 = .ok told ∧
      List.Forall₂ (JournalEntry.Tells S Codec.text)
        [⟨⟨"tx-1", 7⟩, none⟩, ⟨⟨"tx-0", 0⟩, some [68, 117, 110, 101]⟩] told := by
  intro S book steps ran
  have hkey : S.resolve book =
      .ok ⟨⟨["book", "1"]⟩, ⟨["book", "1"]⟩, (Key.mk ["book", "1"]).spell⟩ := by
    rfl
  -- The refused insertion leaves no entry in the journal.
  have hjournal : (Books.after S ⟨⟨"tx-0", 0⟩, ∅⟩ steps ran.1).journal ["book", "1"] =
      [⟨⟨"tx-1", 7⟩, none⟩, ⟨⟨"tx-0", 0⟩, some [68, 117, 110, 101]⟩] := by
    rfl
  have hhistory := (history_is_journal PayloadTransformer.identity {} false "tx-0" 0 steps book
    Codec.text _ hkey).1
  rw [hjournal] at hhistory
  refine hhistory ?_
  intro entry hentry payload hpayload _
  refine ⟨"Dune", ?_⟩
  simp only [List.mem_cons, List.not_mem_nil, or_false] at hentry
  rcases hentry with rfl | rfl
  · cases hpayload
  · cases hpayload
    rfl

end EntityStore
