/-
  EntityStore/Proofs/Store/Refinement.lean
  ========================================
  **The operations on single entries refine a map** from partitions and key parts to
  payloads.

  Each operation follows its plan on every quiet ledger (`EntryRequest.follows`), so a
  run of requests answers what the plans answer on the contents, and leaves the
  contents that they leave.
-/
import EntityStore.Proofs.Store.Request
import EntityStore.Proofs.Store.Run

namespace EntityStore

open EntityStore.Action

section Steps

variable {S : Store Memory} {m : Memory} {α : Type}

/-! ### Calls on the ledger, seen through contents -/

theorem Memory.payload_contents (m : Memory) (p : Partition) (place : Place) :
    m.contents.payload p place.key = (m.stored? p place.key.spell).getD [] := by
  rw [Contents.payload, m.contents_of_storable p place.storable]

theorem answer_read (hS : S.ledger = Memory.accessor) (hm : m.IsQuiet) (p : Partition)
    (place : Place) :
    (call (S.ledger.read p place.resolved.encoded)).answer m =
      (.ok (m.contents.payload p place.key), m) := by
  rw [answer_call, hS, m.payload_contents]
  show ((Memory.read p place.key.spell m).1.mapError StoreError.ledger,
    (Memory.read p place.key.spell m).2) = _
  rw [Memory.read_of_isQuiet hm]
  rfl

/-- A write sets the entry at a place, if anything can be kept there. -/
theorem answer_write (hS : S.ledger = Memory.accessor) (p : Partition) (place : Place)
    (payload : Bytes) :
    (call (S.ledger.write p place.resolved.encoded payload)).answer m =
      m.commit (place.change p (some payload)) := by
  rw [answer_call, hS]
  show ((Memory.write p place.key.spell payload m).1.mapError StoreError.ledger,
    (Memory.write p place.key.spell payload m).2) = _
  unfold Place.change
  split
  · next h =>
    rw [(Key.spell_eq_empty_iff place.storable).mpr h, Memory.write_of_empty]
    rfl
  · next h =>
    rw [Memory.write_of_ne (mt (Key.spell_eq_empty_iff place.storable).mp h)]
    rfl

theorem answer_delete (hS : S.ledger = Memory.accessor) (p : Partition) (place : Place) :
    (call (S.ledger.delete p place.resolved.encoded)).answer m =
      m.commit (place.change p none) := by
  rw [answer_call, hS]
  show ((Memory.delete p place.key.spell m).1.mapError StoreError.ledger,
    (Memory.delete p place.key.spell m).2) = _
  unfold Place.change
  split
  · next h =>
    rw [(Key.spell_eq_empty_iff place.storable).mpr h, Memory.delete_of_empty]
    rfl
  · next h =>
    rw [Memory.delete_of_ne (mt (Key.spell_eq_empty_iff place.storable).mp h)]
    rfl

theorem answer_commit_emit {first : Action Memory Unit} {change : Except StoreError Mutation}
    (event : Event) (h : first.answer m = m.commit change) :
    (first >>= fun _ => emit event).answer m = m.commit change := by
  cases change with
  | ok change => rw [answer_bind_of_ok h, answer_emit]; rfl
  | error error => rw [answer_bind_of_error h]; rfl

/-! ### Operations at a place -/

theorem answer_writeValue (hS : S.ledger = Memory.accessor) (p : Partition) (place : Place)
    (codec : Codec α) (value : α) (op : Operation) :
    (S.writeValue p place.resolved codec value op).answer m =
      m.commit (Contents.putAt S p place codec value) := by
  unfold Store.writeValue Contents.putAt
  rw [answer_ofExcept_bind]
  cases S.encodeValue codec value with
  | error error => rfl
  | ok payload => exact answer_commit_emit _ (answer_write hS p place payload)

theorem answer_putAt (hS : S.ledger = Memory.accessor) (p : Partition) (place : Place)
    (codec : Codec α) (value : α) :
    (S.putAt p place.resolved codec value).answer m =
      m.commit (Contents.putAt S p place codec value) :=
  answer_writeValue hS p place codec value .put

theorem answer_insertAt (hS : S.ledger = Memory.accessor) (hm : m.IsQuiet) (p : Partition)
    (place : Place) (codec : Codec α) (value : α) :
    (S.insertAt p place.resolved codec value).answer m =
      m.commit (m.contents.insertAt S p place codec value) := by
  have hread := answer_read hS hm p place
  unfold Store.insertAt Contents.insertAt Store.checkVacant
  rw [bind_assoc, answer_bind_of_ok hread]
  by_cases hvacant : m.contents.payload p place.key = []
  · rw [if_pos (by simp [hvacant]), if_pos hvacant, pure_bind]
    exact answer_writeValue hS p place codec value .insert
  · rw [if_neg (by simp [hvacant]), if_neg hvacant, bind_assoc, answer_emit_bind]
    exact answer_bind_of_error rfl

theorem answer_deleteAt (hS : S.ledger = Memory.accessor) (p : Partition) (place : Place) :
    (S.deleteAt p place.resolved).answer m = m.commit (place.change p none) :=
  answer_commit_emit _ (answer_delete hS p place)

theorem answer_fetch (hS : S.ledger = Memory.accessor) (hm : m.IsQuiet) (p : Partition)
    (source : KeySource) (codec : Codec α) :
    (S.fetch p source codec).answer m =
      ((S.locate source >>= fun place =>
        (m.contents.valueAt S p place codec).map fun value => (place.resolved, value)), m) := by
  unfold Store.fetch
  rw [answer_ofExcept_bind, Store.resolve_eq (by rw [hS]; rfl)]
  cases S.locate source with
  | error error => rfl
  | ok place =>
    refine (answer_bind_of_ok (answer_read hS hm p place)).trans ?_
    show _ = ((m.contents.valueAt S p place codec).map fun value => (place.resolved, value), m)
    rw [answer_emit_bind, Contents.valueAt]
    by_cases hvacant : m.contents.payload p place.key = []
    · rw [if_pos (by simp [hvacant]), if_pos hvacant]
      rfl
    · rw [if_neg (by simp [hvacant]), if_neg hvacant, answer_ofExcept_bind]
      cases S.decodeValue codec (m.contents.payload p place.key) <;> rfl

/-! ### Requests -/

/-- A request that looks a value up and answers from what it finds. -/
theorem follows_fetch (hS : S.ledger = Memory.accessor) {β : Type} {op : Operation}
    {p : Partition} {source : KeySource} {codec : Codec α}
    {body : ResolvedKey × Option α → Action Memory β} {plan : Contents → Except StoreError β}
    (result : Place → Option α → Except StoreError β)
    (hbody : ∀ (place : Place) (found : Option α) (m : Memory),
      (body (place.resolved, found)).answer m = (result place found, m))
    (hplan : ∀ c : Contents, plan c =
      S.locate source >>= fun place => c.valueAt S p place codec >>= result place) :
    (observe op (S.fetch p source codec >>= body)).Follows (.reading plan) := by
  intro m hm
  rw [Plan.onMemory_reading, hplan, answer_observe, answer_bind, answer_fetch hS hm]
  cases S.locate source with
  | error error => rfl
  | ok place =>
    cases hvalue : m.contents.valueAt S p place codec with
    | error error => simp only [bind, Except.bind, hvalue, Except.map]
    | ok found => simp only [bind, Except.bind, hvalue, Except.map, hbody]

theorem follows_get (hS : S.ledger = Memory.accessor) (p : Partition) (source : KeySource)
    (codec : Codec α) :
    (S.get p source codec).Follows (.reading fun c => c.get S p source codec) := by
  refine follows_fetch hS
    (fun place found => found.elim (.error (.notFound place.origin.display)) .ok) ?_ fun c => ?_
  · rintro place (_ | value) m <;> rfl
  · refine bind_congr fun place => bind_congr fun found => ?_
    cases found <;> rfl

theorem follows_get? (hS : S.ledger = Memory.accessor) (p : Partition) (source : KeySource)
    (codec : Codec α) :
    (S.get? p source codec).Follows (.reading fun c => c.get? S p source codec) := by
  refine follows_fetch hS (fun _ found => .ok found) (fun _ _ _ => rfl) fun c => ?_
  exact bind_congr fun place => (bind_pure (c.valueAt S p place codec)).symm

theorem follows_getD (hS : S.ledger = Memory.accessor) (p : Partition) (source : KeySource)
    (codec : Codec α) (default : α) :
    (S.getD p source codec default).Follows
      (.reading fun c => (c.get? S p source codec).map fun value => value.getD default) := by
  refine follows_fetch hS (fun _ found => .ok (found.getD default)) (fun _ _ _ => rfl) fun c => ?_
  rw [Contents.get?]
  cases S.locate source with
  | error error => rfl
  | ok place => exact (bind_pure_comp _ (c.valueAt S p place codec)).symm

theorem follows_contains (hS : S.ledger = Memory.accessor) (p : Partition) (source : KeySource) :
    (S.contains p source).Follows (.reading fun c => c.contains S p source) := by
  intro m hm
  rw [Plan.onMemory_reading, Store.contains, answer_observe, answer_ofExcept_bind,
    Store.resolve_eq (by rw [hS]; rfl), Contents.contains]
  cases S.locate source with
  | error error => rfl
  | ok place =>
    refine (answer_bind_of_ok (answer_read hS hm p place)).trans ?_
    rw [answer_emit_bind]
    rfl

/-- A request that finds a place and makes a change there. -/
theorem follows_change {op : Operation} {located : Except StoreError Place}
    {body : ResolvedKey → Action Memory Unit}
    (change : Contents → Place → Except StoreError Mutation)
    (h : ∀ m : Memory, m.IsQuiet → ∀ place : Place,
      (body place.resolved).answer m = m.commit (change m.contents place)) :
    (observe op (ofExcept (located.map Place.resolved) >>= body)).Follows
      (.writing fun c => located >>= change c) := by
  intro m hm
  rw [Plan.onMemory_writing, answer_observe, answer_ofExcept_bind]
  cases located with
  | error error => rfl
  | ok place => exact h m hm place

theorem follows_put (hS : S.ledger = Memory.accessor) (p : Partition) (source : KeySource)
    (codec : Codec α) (value : α) :
    (S.put p source codec value).Follows (EntryRequest.putPlan S p source codec value) := by
  unfold Store.put EntryRequest.putPlan
  rw [Store.resolveWritable_eq (by rw [hS]; rfl)]
  exact follows_change (fun _ place => Contents.putAt S p place codec value)
    fun m _ place => answer_putAt hS p place codec value

theorem follows_insert (hS : S.ledger = Memory.accessor) (p : Partition) (source : KeySource)
    (codec : Codec α) (value : α) :
    (S.insert p source codec value).Follows (EntryRequest.insertPlan S p source codec value) := by
  unfold Store.insert EntryRequest.insertPlan
  rw [Store.resolveWritable_eq (by rw [hS]; rfl)]
  exact follows_change (fun c place => c.insertAt S p place codec value)
    fun m hm place => answer_insertAt hS hm p place codec value

theorem follows_delete (hS : S.ledger = Memory.accessor) (p : Partition) (source : KeySource) :
    (S.delete p source).Follows (EntryRequest.plan S (.delete p source)) := by
  unfold Store.delete EntryRequest.plan
  rw [Store.resolveWritable_eq (by rw [hS]; rfl)]
  exact follows_change (fun _ place => place.change p none)
    fun m _ place => answer_deleteAt hS p place

theorem follows_refusal (op : Operation) (error : StoreError) :
    (observe op (fail error) : Action Memory α).Follows (.reading fun _ => .error error) := by
  intro m _
  rw [Plan.onMemory_reading, answer_observe, answer_fail]

/-- **Every request on a single entry follows its plan.** -/
theorem EntryRequest.follows (hS : S.ledger = Memory.accessor) (request : EntryRequest α) :
    (request.perform S).Follows (request.plan S) := by
  cases request with
  | get p source codec => exact follows_get hS p source codec
  | get? p source codec => exact follows_get? hS p source codec
  | getD p source codec default => exact follows_getD hS p source codec default
  | contains p source => exact follows_contains hS p source
  | put p source codec value => exact follows_put hS p source codec value
  | putEntity p T entity => exact follows_put hS p (T.source entity) T.codec entity
  | putWithValues p T entity codec values =>
    rcases values with _ | ⟨value, _ | ⟨second, rest⟩⟩
    · exact follows_put hS p (T.source entity) T.codec entity
    · exact follows_put hS p (T.source entity) codec value
    · exact follows_refusal .put _
  | insert p source codec value => exact follows_insert hS p source codec value
  | insertEntity p T entity => exact follows_insert hS p (T.source entity) T.codec entity
  | insertWithValues p T entity codec values =>
    rcases values with _ | ⟨value, _ | ⟨second, rest⟩⟩
    · exact follows_insert hS p (T.source entity) T.codec entity
    · exact follows_insert hS p (T.source entity) codec value
    · exact follows_refusal .insert _
  | delete p source => exact follows_delete hS p source

end Steps

/-! ### Runs -/

/-- An entry that a request is not about stays as it is. -/
theorem contents_other {α : Type} {S : Store Memory} (hS : S.ledger = Memory.accessor)
    (hkeys : S.keys = KeyTransformer.identity) {m : Memory} (hm : m.IsQuiet)
    (request : EntryRequest α) {p : Partition} {parts : List String}
    (hother : ¬ (request.target.1 = p ∧ request.target.2.normalize = .ok ⟨parts⟩)) :
    ((request.perform S).answer m).2.contents p parts = m.contents p parts := by
  rw [request.follows hS m hm, (Plan.contents_onMemory _ m).2, Plan.onContents]
  split
  · next answer change hplan =>
    obtain ⟨place, hplace, hp, hkey⟩ := EntryRequest.plan_changesAt hplan
    obtain ⟨hlocate, -⟩ := Store.locateWritable_eq_ok_iff.mp hplace
    obtain ⟨hsource, hstored⟩ := Store.locate_eq_ok hlocate
    rw [hkeys] at hstored
    have hsame : place.origin = place.key := Except.ok.inj hstored
    refine Contents.apply_other fun h => hother ⟨hp.symm.trans h.1, ?_⟩
    rw [hsource, ← h.2, hkey, hsame]
  · rfl
  · rfl

/-- **Reading and writing entries is reading and writing a map.**  Take a store that keeps
    keys as they are, over an empty ledger, and any run of requests on single entries.
    The answers are those of the plans on a map from partitions and key parts to
    payloads, and the ledger holds that map.  Behind the run, a request that fails leaves
    the ledger as it was, and no request touches an entry that it is not about. -/
theorem entries_refine_contents (payloads : PayloadTransformer) (config : Config)
    (richQueries : Bool) (txId : String) (timestamp : Int)
    (requests : List (Σ α : Type, EntryRequest α)) :
    let S := Store.inMemory KeyTransformer.identity payloads config
    let ledger := runAll (fun r => (r.perform S).answer) requests
      (Memory.fresh richQueries txId timestamp)
    let model := runAll (fun r => (r.plan S).onContents) requests ∅
    ledger.1 = model.1 ∧ ledger.2.contents = model.2 ∧
      (∀ (α : Type) (r : EntryRequest α) (error : StoreError),
        ((r.perform S).answer ledger.2).1 = .error error →
          ((r.perform S).answer ledger.2).2 = ledger.2) ∧
      (∀ (α : Type) (r : EntryRequest α) (p : Partition) (parts : List String),
        ¬ (r.target.1 = p ∧ r.target.2.normalize = .ok ⟨parts⟩) →
          ((r.perform S).answer ledger.2).2.contents p parts = ledger.2.contents p parts) := by
  intro S ledger model
  have hfollows {α : Type} (r : EntryRequest α) : (r.perform S).Follows (r.plan S) :=
    r.follows rfl
  obtain ⟨hanswers, hcontents, hquiet⟩ := runAll_refines hfollows requests
    (Memory.isQuiet_fresh richQueries txId timestamp)
  rw [Memory.contents_fresh] at hanswers hcontents
  refine ⟨hanswers, hcontents, fun α r error herror => ?_, fun α r p parts hother => ?_⟩
  · rw [hfollows r ledger.2 hquiet] at herror ⊢
    exact Plan.onMemory_of_error herror
  · exact contents_other rfl rfl hquiet r hother

end EntityStore
