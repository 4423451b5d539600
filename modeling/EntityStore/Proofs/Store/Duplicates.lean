/-
  EntityStore/Proofs/Store/Duplicates.lean
  ========================================
  **An insertion is refused while its entry is there.**

  An entry that was inserted stays as it is until a request that puts or deletes the
  entry of its key: every other request that changes an entry does so at another key, or
  has found nothing under its own (`EntryRequest.vacant_of_change`).  That an entry is
  there means that its payload is not empty, so the law has one exception: a value
  without a byte is stored, and the next insertion takes its place
  (`insert_twice_of_empty`).
-/
import EntityStore.Proofs.Codec.Scalar
import EntityStore.Proofs.KeyRef.Index
import EntityStore.Proofs.Store.Journal

namespace EntityStore

open EntityStore.Action

/-! ### Requests that overwrite -/

section Overwriting

variable {σ α : Type} {S : Store σ} {c : Contents}

/-- A request puts or deletes an entry, whatever is there. -/
def EntryRequest.Overwrites : EntryRequest α → Prop
  | .put .. | .putEntity .. | .putWithValues .. | .delete .. => True
  | .get .. | .get? .. | .getD .. | .contains .. | .insert .. | .insertEntity ..
  | .insertWithValues .. => False

/-- A step puts or deletes the entry of a key. -/
def Step.OverwritesAt (p : Partition) (key : Key) : Step α → Prop
  | .request (.stored (.entry r)) =>
    r.Overwrites ∧ r.target.1 = p ∧ r.target.2.normalize = .ok key
  | .request (.stored (.keyRef _)) | .request (.scan _) | .beginTx _ _ => False

theorem vacant_of_insertPlan {p : Partition} {source : KeySource} {codec : Codec α} {value : α}
    {change : Mutation}
    (h : EntryRequest.insertPlan S p source codec value c = .ok ((), some change)) :
    c.payload change.partition change.key = [] := by
  obtain ⟨place, -, hinsert⟩ := bind_eq_ok_iff.mp (Plan.writing_eq_change_iff.mp h)
  obtain ⟨hvacant, hput⟩ := EntryRequest.insertAt_eq_ok hinsert
  obtain ⟨hp, hkey, -⟩ := EntryRequest.putAt_eq_ok hput
  rw [hp, hkey]
  exact hvacant

/-- What a request changes that does not overwrite was vacant. -/
theorem EntryRequest.vacant_of_change {request : EntryRequest α} (hkeeps : ¬ request.Overwrites)
    {answer : α} {change : Mutation} (h : request.plan S c = .ok (answer, some change)) :
    c.payload change.partition change.key = [] := by
  cases request with
  | get _ _ _ | get? _ _ _ | getD _ _ _ _ | contains _ _ =>
    simp only [plan] at h
    exact (Plan.reading_changes_nothing h).elim
  | put _ _ _ _ | putEntity _ _ _ | putWithValues _ _ _ _ _ | delete _ _ =>
    exact (hkeeps trivial).elim
  | insert p source codec value => exact vacant_of_insertPlan h
  | insertEntity p T entity => exact vacant_of_insertPlan h
  | insertWithValues p T entity codec values =>
    rcases values with _ | ⟨value, _ | ⟨second, rest⟩⟩
    · exact vacant_of_insertPlan h
    · exact vacant_of_insertPlan h
    · cases h

end Overwriting

/-! ### Entries that stay -/

section Steps

variable {S : Store Memory} {α : Type} {c : Contents} {p : Partition} {key : Key} {payload : Bytes}

/-- A change made by a step that does not overwrite an entry is not a change of it. -/
theorem StoreRequest.change_elsewhere (hkeys : S.keys = KeyTransformer.identity)
    (hname : key.namespace? ≠ some Store.keyRefNamespace) (hpayload : payload ≠ [])
    (hlive : c p key.parts = some payload) {request : StoreRequest α}
    (hkeeps : ¬ (Step.request (.stored request)).OverwritesAt p key) {answer : α}
    {change : Mutation} (h : request.plan S c = .ok (answer, some change)) :
    ¬ (change.partition = p ∧ change.key.parts = key.parts) := by
  rintro ⟨rfl, hparts⟩
  obtain rfl : change.key = key := congrArg Key.mk hparts
  obtain ⟨place, hplace, hp, hkey⟩ := request.plan_changesAt h
  cases request with
  | keyRef request =>
    have hseparates : S.keys.Separates Set.univ := hkeys ▸ KeyTransformer.separates_identity _
    rw [hkey] at hname
    exact hname (locate_keyRef hseparates hplace).2
  | entry request =>
    -- An insertion finds the entry and is refused, so only a request that overwrites could have
    -- changed it.
    by_cases hover : request.Overwrites
    · obtain ⟨hsource, hstored⟩ := Store.locate_eq_ok hplace
      rw [hkeys] at hstored
      refine hkeeps ⟨hover, hp.symm, ?_⟩
      rw [hkey, ← Except.ok.inj hstored]
      exact hsource
    · have hvacant := request.vacant_of_change hover h
      rw [Contents.payload, hlive] at hvacant
      exact hpayload hvacant

variable {m : Memory}

/-- **A step that does not overwrite an entry leaves it as it is.** -/
theorem Step.keeps_entry (hS : S.ledger = Memory.accessor)
    (hkeys : S.keys = KeyTransformer.identity)
    (hname : key.namespace? ≠ some Store.keyRefNamespace) (hpayload : payload ≠ [])
    (step : Step α) (hkeeps : ¬ step.OverwritesAt p key) (hm : m.IsQuiet)
    (hlive : m.contents p key.parts = some payload) :
    ((step.perform S).answer m).2.IsQuiet ∧
      ((step.perform S).answer m).2.contents p key.parts = some payload := by
  cases step with
  | beginTx txId timestamp => exact ⟨⟨hm.reads, hm.rows⟩, hlive⟩
  | request r =>
    obtain ⟨hquiet, hcontents⟩ := r.effect hS hm
    refine ⟨hquiet, ?_⟩
    rw [perform, hcontents]
    cases r with
    | scan request => exact hlive
    | stored request =>
      simp only [AnyRequest.after, Plan.onContents]
      split
      · next answer change hplan =>
        have hother := request.change_elsewhere hkeys hname hpayload hlive hkeeps hplan
        exact (Contents.apply_other hother).trans hlive
      · exact hlive
      · exact hlive

/-- **A run that does not overwrite an entry leaves it as it is.** -/
theorem run_keeps_entry (hS : S.ledger = Memory.accessor)
    (hkeys : S.keys = KeyTransformer.identity)
    (hname : key.namespace? ≠ some Store.keyRefNamespace) (hpayload : payload ≠ [])
    (steps : List (Σ α : Type, Step α)) (hkeeps : ∀ step ∈ steps, ¬ step.2.OverwritesAt p key)
    (hm : m.IsQuiet) (hlive : m.contents p key.parts = some payload) :
    let ran := (runAll (fun step => (step.perform S).answer) steps m).2
    ran.IsQuiet ∧ ran.contents p key.parts = some payload := by
  induction steps generalizing m with
  | nil => exact ⟨hm, hlive⟩
  | cons step rest ih =>
    obtain ⟨hstep, hrest⟩ := List.forall_mem_cons.mp hkeeps
    obtain ⟨α, step⟩ := step
    obtain ⟨hquiet, hnext⟩ := step.keeps_entry hS hkeys hname hpayload hstep hm hlive
    exact ih hrest hquiet hnext

/-! ### Insertions -/

variable {source : KeySource} {codec : Codec α} {value : α}

/-- What an insertion that succeeded has stored. -/
theorem stored_of_insert (hS : S.ledger = Memory.accessor) (hm : m.IsQuiet)
    (h : ((S.insert p source codec value).answer m).1 = .ok ()) :
    ∃ place payload, S.locateWritable source = .ok place ∧
      S.encodeValue codec value = .ok payload ∧
      ((S.insert p source codec value).answer m).2.IsQuiet ∧
      ((S.insert p source codec value).answer m).2.contents p place.key.parts = some payload := by
  have hplan := follows_insert hS p source codec value m hm
  rw [EntryRequest.insertPlan, Plan.onMemory_writing] at hplan
  rw [hplan] at h ⊢
  rcases hchange : (S.locateWritable source >>= fun place =>
    m.contents.insertAt S p place codec value) with error | change
  · rw [hchange] at h
    cases h
  · obtain ⟨place, hplace, hinsert⟩ := bind_eq_ok_iff.mp hchange
    obtain ⟨hp, hkey, payload, hpayload, hset⟩ :=
      EntryRequest.putAt_eq_ok (EntryRequest.insertAt_eq_ok hinsert).2
    refine ⟨place, payload, hplace, hpayload, hm.apply change, ?_⟩
    show (m.apply change).contents p place.key.parts = _
    rw [m.contents_apply, ← hp, ← hkey, Contents.apply_same, hset]

theorem answer_insert_of_live (hS : S.ledger = Memory.accessor) (hm : m.IsQuiet) {place : Place}
    (hplace : S.locateWritable source = .ok place) (hpayload : payload ≠ [])
    (hlive : m.contents p place.key.parts = some payload) :
    ((S.insert p source codec value).answer m).1 =
      .error (.alreadyExists place.origin.display) := by
  have hoccupied : m.contents.payload p place.key ≠ [] := by
    rw [Contents.payload, hlive]
    exact hpayload
  rw [follows_insert hS p source codec value m hm, EntryRequest.insertPlan, Plan.onMemory_writing,
    hplace]
  show (m.commit (m.contents.insertAt S p place codec value)).1 = _
  rw [Contents.insertAt, if_neg hoccupied]
  rfl

/-- While its entry is there, the value at a place is that of the payload. -/
theorem valueAt_of_live {place : Place} (hpayload : payload ≠ [])
    (hlive : m.contents p place.key.parts = some payload)
    (hvalue : S.decodeValue codec payload = .ok value) :
    m.contents.valueAt S p place codec = .ok (some value) := by
  have hstored : m.contents.payload p place.key = payload := by rw [Contents.payload, hlive]; rfl
  rw [Contents.valueAt, hstored, if_neg hpayload, hvalue]
  rfl

theorem answer_get_of_live (hS : S.ledger = Memory.accessor) (hm : m.IsQuiet) {place : Place}
    (hplace : S.locate source = .ok place) (hpayload : payload ≠ [])
    (hlive : m.contents p place.key.parts = some payload)
    (hvalue : S.decodeValue codec payload = .ok value) :
    ((S.get p source codec).answer m).1 = .ok value := by
  rw [follows_get hS p source codec m hm, Plan.onMemory_reading]
  show m.contents.get S p source codec = _
  rw [Contents.get, hplace]
  show (m.contents.valueAt S p place codec >>= fun found => _) = _
  rw [valueAt_of_live hpayload hlive hvalue]
  rfl

end Steps

/-- **An insertion is refused until its entry is put or deleted.**  Take a store that keeps
    keys and payloads as they are, over any ledger in memory that is not told to fail, and
    insert a text, bytes or a scalar that has a payload of at least one byte.  If this
    succeeds, then after any steps that neither put nor delete the entry of the same key in
    the same partition, every insertion under the key fails, and getting it at the shape of
    the value answers the value. -/
theorem insert_rejects_duplicates {α : Type} (config : Config) (m : Memory) (p : Partition)
    (source : KeySource) (key : Key) (shape : PlainShape α) (value : α)
    (steps : List (Σ α : Type, Step α)) :
    let S := Store.inMemory KeyTransformer.identity PayloadTransformer.identity config
    let inserted := (S.insert p source shape.codec value).answer m
    let later := (runAll (fun step => (step.perform S).answer) steps inserted.2).2
    m.IsQuiet → source.normalize = .ok key → shape.codec.encode value ≠ .ok [] →
      inserted.1 = .ok () → (∀ step ∈ steps, ¬ step.2.OverwritesAt p key) →
      ∀ other : KeySource, other.normalize = .ok key →
        (∀ {β : Type} (codec : Codec β) (newValue : β),
          ((S.insert p other codec newValue).answer later).1 =
            .error (.alreadyExists key.display)) ∧
          ∃ found, ((S.get p other shape.codec).answer later).1 = .ok found ∧
            shape.Same value found := by
  intro S inserted later hm hsource hencode hinserted hkeeps other hother
  obtain ⟨place, payload, hplace, hpayload, hquiet, hlive⟩ := stored_of_insert rfl hm hinserted
  obtain ⟨hlocate, hname⟩ := Store.locateWritable_eq_ok_iff.mp hplace
  obtain ⟨horigin, hstored⟩ := Store.locate_eq_ok hlocate
  have horigin : place.origin = key := Except.ok.inj (horigin.symm.trans hsource)
  obtain rfl : place.key = key := (Except.ok.inj hstored).symm.trans horigin
  have hwritten := Store.encode_of_encodeValue (S := S) rfl hpayload
  have hnonempty : payload ≠ [] := by
    rintro rfl
    exact hencode hwritten
  obtain ⟨hquiet, hlive⟩ := run_keeps_entry (S := S) rfl rfl (horigin ▸ hname) hnonempty steps
    hkeeps hquiet hlive
  -- every other source of the key stands for the same place
  have hother : S.locate other = .ok place := by
    unfold Store.locate at hlocate ⊢
    rw [hother, ← hsource]
    exact hlocate
  have hwritable := Store.locateWritable_eq_ok_iff.mpr ⟨hother, hname⟩
  refine ⟨fun codec newValue => ?_, ?_⟩
  · rw [← horigin]
    exact answer_insert_of_live rfl hquiet hwritable hnonempty hlive
  · obtain ⟨found, hfound, hsame⟩ := shape.exists_decode hwritten
    obtain ⟨hvalue, -⟩ := Store.decodeValue_encodeValue (S := S)
      PayloadTransformer.isLossless_identity hwritten hfound hpayload
    exact ⟨found, answer_get_of_live rfl hquiet hother hnonempty hlive hvalue, hsame⟩

/-- A number in a private collection, refused a second insertion while the public entry of
    its key is put and deleted. -/
theorem insert_rejects_duplicates_private :
    let S := Store.inMemory KeyTransformer.identity PayloadTransformer.identity {}
    let price : KeySource := .given ⟨["book", "1"]⟩
    let p : Partition := .collection "prices"
    let steps : List (Σ α : Type, Step α) :=
      [⟨Unit, .request (.stored (.entry (.put .world price Codec.text "Dune")))⟩,
        ⟨Unit, .beginTx "tx-1" 7⟩,
        ⟨Unit, .request (.stored (.entry (.insert p price Codec.int32 24)))⟩,
        ⟨Unit, .request (.stored (.entry (.delete .world price)))⟩]
    let inserted := (S.insert p price Codec.int32 42).answer (Memory.fresh false "tx-0" 0)
    let later := (runAll (fun step => (step.perform S).answer) steps inserted.2).2
    ((S.insert p price Codec.int64 7).answer later).1 =
        .error (.alreadyExists (Key.mk ["book", "1"]).display) ∧
      ((S.get p price Codec.int32).answer later).1 = .ok 42 := by
  intro S price p steps inserted later
  have hkeeps : ∀ step ∈ steps, ¬ step.2.OverwritesAt p ⟨["book", "1"]⟩ := by
    simp [steps, Step.OverwritesAt, EntryRequest.Overwrites, EntryRequest.target, p]
  obtain ⟨hrefused, found, hfound, hsame⟩ := insert_rejects_duplicates {}
    (Memory.fresh false "tx-0" 0) p price ⟨["book", "1"]⟩ .int32 42 steps
    (Memory.isQuiet_fresh false "tx-0" 0) rfl (by decide) rfl hkeeps price rfl
  obtain rfl : found = 42 := hsame
  exact ⟨hrefused Codec.int64 7, hfound⟩

/-- **A value without a byte does not keep its place**: the second insertion succeeds. -/
theorem insert_twice_of_empty :
    let S := Store.inMemory KeyTransformer.identity PayloadTransformer.identity {}
    let book : KeySource := .given ⟨["BOOK", "1"]⟩
    let inserted := (S.insert .world book Codec.text "").answer (Memory.fresh false "tx-0" 0)
    inserted.1 = .ok () ∧
      ((S.insert .world book Codec.text "x").answer inserted.2).1 = .ok () := by
  exact ⟨rfl, rfl⟩

end EntityStore
