/-
  EntityStore/Proofs/KeyRef/Index.lean
  ====================================
  **Key references are a unique index.**

  A run of requests claims references and gives them up; `KeyRefIndex.after` keeps the
  books from the requests and their answers alone.  The invariant `Contents.Holds` ties
  these books to the stored rows: every row of a reference is the one that was claimed
  last.  Entries cannot touch a row, since a row's namespace is not theirs, and neither
  can other references, since no two of them have one key.
-/
import EntityStore.Proofs.Json.Texts
import EntityStore.Proofs.Key.Transform
import EntityStore.Proofs.KeyRef.Request
import EntityStore.Proofs.Store.Payload

namespace EntityStore

/-! ### The books -/

/-- Where each reference leads. -/
def KeyRefIndex := KeyRefId → Option Key

namespace KeyRefIndex

instance : EmptyCollection KeyRefIndex := ⟨fun _ => none⟩

/-- The index with one reference changed. -/
def set (index : KeyRefIndex) (id : KeyRefId) (primaryKey? : Option Key) : KeyRefIndex :=
  fun other => if other = id then primaryKey? else index other

theorem set_same (index : KeyRefIndex) (id : KeyRefId) (primaryKey? : Option Key) :
    index.set id primaryKey? id = primaryKey? := if_pos rfl

theorem set_other (index : KeyRefIndex) {id other : KeyRefId} (primaryKey? : Option Key)
    (h : other ≠ id) : index.set id primaryKey? other = index other := if_neg h

end KeyRefIndex

/-- Enters a request in the books: a reference that was stored leads to its primary key,
    and a deleted one leads nowhere. -/
def KeyRefRequest.record {α : Type} (succeeded : Bool) (index : KeyRefIndex) :
    KeyRefRequest α → KeyRefIndex
  | .build ref | .insert ref | .put ref =>
    if succeeded then index.set ref.id (some ref.primaryKey) else index
  | .delete id => index.set id none
  | .lookup _ | .getBy _ _ => index

namespace StoreRequest

/-- Enters a request in the books; requests about entries leave no mark. -/
def record {α : Type} (succeeded : Bool) (index : KeyRefIndex) : StoreRequest α → KeyRefIndex
  | .entry _ => index
  | .keyRef request => request.record succeeded index

/-- The reference that a request is about, if it is about one. -/
def keyRefId? {α : Type} : StoreRequest α → Option KeyRefId
  | .entry _ => none
  | .keyRef request => some request.target

end StoreRequest

/-- The books behind requests and their answers. -/
def KeyRefIndex.after (index : KeyRefIndex) :
    List (Σ α : Type, StoreRequest α) → List (Σ α : Type, Except StoreError α) → KeyRefIndex
  | ⟨_, request⟩ :: requests, ⟨_, answer⟩ :: answers =>
    after (request.record answer.isOk index) requests answers
  | _, _ => index

/-! ### Where references are stored -/

/-- The parts of an identity behind the namespace of the references. -/
def KeyRefId.parts (id : KeyRefId) : List String := id.schema :: id.index :: id.refKey.parts

theorem KeyRefId.parts_inj {a b : KeyRefId} (h : a.parts = b.parts) : a = b := by
  obtain ⟨schema, index, ⟨parts⟩⟩ := a
  obtain ⟨schema', index', ⟨parts'⟩⟩ := b
  simp only [KeyRefId.parts, List.cons.injEq] at h
  obtain ⟨rfl, rfl, rfl⟩ := h
  rfl

theorem KeyRefId.key_eq_ok {id : KeyRefId} {key : Key} (h : id.key = .ok key) :
    key = ⟨Store.keyRefNamespace :: id.parts⟩ := by
  unfold KeyRefId.key at h
  split at h
  · cases h
  · cases h
    rfl

section Rows

variable {σ : Type} {S : Store σ} {used : Set String}

theorem key_of_locate {id : KeyRefId} {place : Place} (h : S.locate id.source = .ok place) :
    id.key = .ok place.origin := by
  have horigin := (Store.locate_eq_ok h).1
  rw [KeyRefId.source, KeySource.normalize] at horigin
  cases hkey : id.key with
  | error error =>
    rw [hkey] at horigin
    cases horigin
  | ok key =>
    rw [hkey] at horigin
    exact horigin

theorem locate_keyRef (hkeys : S.keys.Separates used) {id : KeyRefId} {place : Place}
    (h : S.locate id.source = .ok place) :
    place.origin = ⟨Store.keyRefNamespace :: id.parts⟩ ∧
      place.key.namespace? = some Store.keyRefNamespace := by
  have hparts := KeyRefId.key_eq_ok (key_of_locate h)
  refine ⟨hparts, ?_⟩
  rw [hkeys.namespace_eq (Store.locate_eq_ok h).2, hparts]
  rfl

/-- Two references of used parts never share a place. -/
theorem locate_keyRef_inj (hkeys : S.keys.Separates used) {a b : KeyRefId} {p q : Place}
    (ha : ∀ part ∈ a.parts, part ∈ used) (hb : ∀ part ∈ b.parts, part ∈ used)
    (hp : S.locate a.source = .ok p) (hq : S.locate b.source = .ok q)
    (hsame : p.key.parts = q.key.parts) : a = b := by
  have hpkey := (Store.locate_eq_ok hp).2
  have hqkey := (Store.locate_eq_ok hq).2
  rw [(locate_keyRef hkeys hp).1] at hpkey
  rw [(locate_keyRef hkeys hq).1] at hqkey
  have hkey : p.key = q.key := congrArg Key.mk hsame
  rw [hkey] at hpkey
  exact KeyRefId.parts_inj (hkeys.tail_inj ha hb hpkey hqkey)

/-! ### The invariant -/

/-- The row of a reference that leads to a key, or nowhere. -/
def IsRow (S : Store σ) : Option Key → Option Bytes → Prop
  | none, row => row = none
  | some primaryKey, row =>
    ∃ payload, S.encodeValue Codec.key primaryKey = .ok payload ∧ row = some payload

/-- The rows of the references with used parts are those of the books. -/
def Contents.Holds (c : Contents) (S : Store σ) (used : Set String) (index : KeyRefIndex) : Prop :=
  ∀ (id : KeyRefId) (place : Place), (∀ part ∈ id.parts, part ∈ used) →
    S.locate id.source = .ok place → IsRow S (index id) (c .world place.key.parts)

theorem holds_empty : Contents.Holds ∅ S used ∅ := by
  intro id place _ _
  rfl

theorem holds_apply (hkeys : S.keys.Separates used) {c : Contents} {index : KeyRefIndex}
    (h : c.Holds S used index) {id : KeyRefId} {place : Place} {change : Mutation}
    {primaryKey? : Option Key} (hid : ∀ part ∈ id.parts, part ∈ used)
    (hplace : S.locate id.source = .ok place) (hworld : change.partition = .world)
    (hkey : change.key = place.key) (hrow : IsRow S primaryKey? change.payload?) :
    (c.apply change).Holds S used (index.set id primaryKey?) := by
  intro other spot hother hspot
  by_cases hsame : other = id
  · subst hsame
    have : spot = place := Except.ok.inj (hspot.symm.trans hplace)
    subst this
    rw [KeyRefIndex.set_same, ← hworld, ← hkey, Contents.apply_same]
    exact hrow
  · rw [KeyRefIndex.set_other _ _ hsame, Contents.apply_other]
    · exact h other spot hother hspot
    · rintro ⟨-, hparts⟩
      rw [hkey] at hparts
      exact hsame (locate_keyRef_inj hkeys hother hid hspot hplace hparts.symm)

/-- A request about an entry touches no row of a reference. -/
theorem entry_keeps_row (hkeys : S.keys.Separates used) {α : Type} (request : EntryRequest α)
    (c : Contents) {id : KeyRefId} {place : Place} (hplace : S.locate id.source = .ok place) :
    ((request.plan S).onContents c).2 .world place.key.parts = c .world place.key.parts := by
  unfold Plan.onContents
  split
  · next answer change hplan =>
    obtain ⟨found, hfound, -, hkey⟩ := EntryRequest.plan_changesAt hplan
    obtain ⟨hlocate, hname⟩ := Store.locateWritable_eq_ok_iff.mp hfound
    refine Contents.apply_other ?_
    rintro ⟨-, hparts⟩
    have horigin := hkeys.namespace_eq (Store.locate_eq_ok hlocate).2
    have hrow := (locate_keyRef hkeys hplace).2
    rw [Key.namespace?, ← hparts, hkey] at hrow
    exact hname (horigin.symm.trans hrow)
  · rfl
  · rfl

/-! ### Requests keep the books -/

theorem holds_put (hkeys : S.keys.Separates used) {c : Contents} {index : KeyRefIndex}
    (h : c.Holds S used index) {ref : KeyRef} (hid : ∀ part ∈ ref.id.parts, part ∈ used)
    {change : Mutation} (hchange : KeyRefRequest.putPlan S ref = .ok change) :
    (c.apply change).Holds S used (index.set ref.id (some ref.primaryKey)) := by
  obtain ⟨place, hplace, hput⟩ := bind_eq_ok_iff.mp hchange
  obtain ⟨hworld, hkey, payload, hpayload, hset⟩ := EntryRequest.putAt_eq_ok hput
  exact holds_apply hkeys h hid hplace hworld hkey ⟨payload, hpayload, hset⟩

/-- Deleting a reference that has a place never fails. -/
theorem deletePlan_eq_ok (hkeys : S.keys.Separates used) {id : KeyRefId} {place : Place}
    (hplace : S.locate id.source = .ok place) :
    ∃ change, KeyRefRequest.deletePlan S id = .ok change ∧ change.partition = .world ∧
      change.key = place.key ∧ change.payload? = none := by
  have hroot : place.key.parts ≠ [""] := by
    intro hparts
    have hname := (locate_keyRef hkeys hplace).2
    rw [Key.namespace?, hparts] at hname
    exact absurd hname (by decide)
  refine ⟨⟨.world, place.key, place.storable, hroot, none⟩, ?_, rfl, rfl, rfl⟩
  exact bind_eq_ok_iff.mpr ⟨place, hplace, dif_neg hroot⟩

theorem holds_delete (hkeys : S.keys.Separates used) {c : Contents} {index : KeyRefIndex}
    (h : c.Holds S used index) {id : KeyRefId} (hid : ∀ part ∈ id.parts, part ∈ used) :
    (c.commit (KeyRefRequest.deletePlan S id)).2.Holds S used (index.set id none) := by
  cases hlocate : S.locate id.source with
  | error error =>
    have hplan : KeyRefRequest.deletePlan S id = .error error := by
      rw [KeyRefRequest.deletePlan, hlocate]
      rfl
    rw [hplan]
    intro other place hother hplace
    rw [KeyRefIndex.set_other]
    · exact h other place hother hplace
    · rintro rfl
      rw [hlocate] at hplace
      cases hplace
  | ok place =>
    obtain ⟨change, hplan, hworld, hkey, hset⟩ := deletePlan_eq_ok hkeys hlocate
    rw [hplan]
    exact holds_apply hkeys h hid hlocate hworld hkey hset

theorem holds_commit {c : Contents} {index next : KeyRefIndex} (h : c.Holds S used index)
    {change? : Except StoreError Mutation}
    (hchange : ∀ change, change? = .ok change → (c.apply change).Holds S used next) :
    (c.commit change?).2.Holds S used (if (c.commit change?).1.isOk then next else index) := by
  cases change? with
  | ok change => exact hchange change rfl
  | error error => exact h

/-- **One request keeps rows and books together.** -/
theorem holds_step (hkeys : S.keys.Separates used) {c : Contents} {index : KeyRefIndex}
    (h : c.Holds S used index) {α : Type} (request : StoreRequest α)
    (hid : ∀ id, request.keyRefId? = some id → ∀ part ∈ id.parts, part ∈ used) :
    ((request.plan S).onContents c).2.Holds S used
      (request.record ((request.plan S).onContents c).1.isOk index) := by
  cases request with
  | entry request =>
    -- a request about an entry writes no row of the index
    intro id place hparts hplace
    rw [StoreRequest.plan, entry_keeps_row hkeys request c hplace]
    exact h id place hparts hplace
  | keyRef request =>
    -- what is claimed, replaced or given up is the row of the request's own reference
    have hid := hid request.target rfl
    cases request with
    | build ref =>
      have hinsert := holds_commit h fun change hchange =>
        holds_put hkeys h hid (KeyRefRequest.putPlan_of_insertPlan (c := c) hchange)
      simp only [StoreRequest.plan, KeyRefRequest.plan, Plan.onContents_map,
        Plan.onContents_writing]
      cases hplan : KeyRefRequest.insertPlan S ref c with
      | ok change =>
        rw [hplan] at hinsert
        exact hinsert
      | error error => exact h
    | insert ref =>
      rw [StoreRequest.plan, KeyRefRequest.plan, Plan.onContents_writing]
      exact holds_commit h fun change hchange =>
        holds_put hkeys h hid (KeyRefRequest.putPlan_of_insertPlan hchange)
    | put ref =>
      rw [StoreRequest.plan, KeyRefRequest.plan, Plan.onContents_writing]
      exact holds_commit h fun change hchange => holds_put hkeys h hid hchange
    | delete id =>
      rw [StoreRequest.plan, KeyRefRequest.plan, Plan.onContents_writing]
      exact holds_delete hkeys h hid
    | lookup id =>
      rw [StoreRequest.plan, KeyRefRequest.plan, Plan.onContents_reading]
      exact h
    | getBy id codec =>
      rw [StoreRequest.plan, KeyRefRequest.plan, Plan.onContents_reading]
      exact h

/-- **A run keeps rows and books together.** -/
theorem holds_run (hkeys : S.keys.Separates used) (requests : List (Σ α : Type, StoreRequest α))
    (hids : ∀ request ∈ requests, ∀ id, request.2.keyRefId? = some id →
      ∀ part ∈ id.parts, part ∈ used)
    {c : Contents} {index : KeyRefIndex} (h : c.Holds S used index) :
    let ran := runAll (fun r => (r.plan S).onContents) requests c
    ran.2.Holds S used (index.after requests ran.1) := by
  induction requests generalizing c index with
  | nil => exact h
  | cons request rest ih =>
    obtain ⟨α, request⟩ := request
    have hstep := holds_step hkeys h request (hids _ List.mem_cons_self)
    exact ih (fun other hother => hids other (List.mem_cons_of_mem _ hother)) hstep

/-! ### What the books say of the answers -/

theorem key_encode_ne_nil (key : Key) : ∃ written, Codec.key.encode key = .ok written ∧
    Codec.key.decode written = .ok key ∧ 2 ≤ written.length := by
  refine ⟨(Json.ofTexts key.parts).toBytes, rfl, Codec.key_decode_encode key, ?_⟩
  have hlength := Json.length_le_textsBytes key.parts
  rw [Json.toBytes_ofTexts]
  omega

/-- Where rows and books agree, a reference has a payload exactly if it leads somewhere. -/
theorem payload_of_row (hpayloads : S.payloads.IsLossless) {c : Contents} {place : Place}
    {primaryKey : Key} (h : IsRow S (some primaryKey) (c .world place.key.parts)) :
    c.payload .world place.key ≠ [] ∧
      S.decodeValue Codec.key (c.payload .world place.key) = .ok primaryKey := by
  obtain ⟨payload, hencoded, hrow⟩ := h
  obtain ⟨written, hwritten, hread, hlong⟩ := key_encode_ne_nil primaryKey
  obtain ⟨hdecoded, hlength⟩ := Store.decodeValue_encodeValue hpayloads hwritten hread hencoded
  rw [Contents.payload, hrow, Option.getD_some]
  refine ⟨?_, hdecoded⟩
  rintro rfl
  rw [List.length_nil] at hlength
  omega

theorem lookup_of_holds (hpayloads : S.payloads.IsLossless) {c : Contents} {index : KeyRefIndex}
    (h : c.Holds S used index) {id : KeyRefId} {place : Place}
    (hid : ∀ part ∈ id.parts, part ∈ used) (hplace : S.locate id.source = .ok place) :
    c.get? S .world id.source Codec.key = .ok (index id) := by
  have hrow := h id place hid hplace
  refine bind_eq_ok_iff.mpr ⟨place, hplace, ?_⟩
  unfold Contents.valueAt
  cases hindex : index id with
  | none =>
    rw [hindex] at hrow
    have hvacant : c.payload .world place.key = [] := by
      rw [Contents.payload, hrow]
      rfl
    rw [if_pos hvacant]
  | some primaryKey =>
    rw [hindex] at hrow
    obtain ⟨hpayload, hdecoded⟩ := payload_of_row hpayloads hrow
    rw [if_neg hpayload, hdecoded]
    rfl

theorem insert_of_claimed (hpayloads : S.payloads.IsLossless) {c : Contents} {index : KeyRefIndex}
    (h : c.Holds S used index) (ref : KeyRef) {place : Place}
    (hid : ∀ part ∈ ref.id.parts, part ∈ used) (hplace : S.locate ref.id.source = .ok place)
    {primaryKey : Key} (hindex : index ref.id = some primaryKey) :
    KeyRefRequest.insertPlan S ref c = .error (.alreadyExists place.origin.display) := by
  have hrow := h ref.id place hid hplace
  rw [hindex] at hrow
  rw [KeyRefRequest.insertPlan, hplace]
  exact if_neg (payload_of_row hpayloads hrow).1

/-- A reference that leads nowhere is not: if it is refused, then for its length. -/
theorem insert_of_vacant (hpayloads : S.payloads.IsLossless)
    {c : Contents} {index : KeyRefIndex} (h : c.Holds S used index) (ref : KeyRef) {place : Place}
    (hid : ∀ part ∈ ref.id.parts, part ∈ used) (hplace : S.locate ref.id.source = .ok place)
    (hindex : index ref.id = none) (shown : String) :
    KeyRefRequest.insertPlan S ref c ≠ .error (.alreadyExists shown) := by
  have hrow := h ref.id place hid hplace
  rw [hindex] at hrow
  have hvacant : c.payload .world place.key = [] := by
    rw [Contents.payload, hrow]
    rfl
  have hplan : KeyRefRequest.insertPlan S ref c =
      Contents.putAt S .world place Codec.key ref.primaryKey := by
    rw [KeyRefRequest.insertPlan, hplace]
    exact if_pos hvacant
  -- writing a vacant row may fail, but not for what is there
  rw [hplan, Contents.putAt]
  intro hfailed
  obtain ⟨written, hwritten, -, -⟩ := key_encode_ne_nil ref.primaryKey
  cases hencoded : S.encodeValue Codec.key ref.primaryKey with
  | error error =>
    obtain ⟨detail, rfl⟩ := Store.encodeValue_eq_error hpayloads hwritten hencoded
    rw [hencoded] at hfailed
    cases hfailed
  | ok payload =>
    rw [hencoded] at hfailed
    replace hfailed : place.change .world (some payload) = .error (.alreadyExists shown) := hfailed
    unfold Place.change at hfailed
    split at hfailed
    · cases hfailed
    · cases hfailed

end Rows

/-! ### Answers of a store in memory -/

section Answers

variable {S : Store Memory} {used : Set String} {m : Memory} {index : KeyRefIndex}
  {id : KeyRefId} {place : Place}

theorem answer_lookup (hS : S.ledger = Memory.accessor) (hm : m.IsQuiet)
    (hpayloads : S.payloads.IsLossless) (h : m.contents.Holds S used index)
    (hid : ∀ part ∈ id.parts, part ∈ used) (hplace : S.locate id.source = .ok place) :
    (S.lookupKeyRef id).answer m = (.ok (index id), m) := by
  rw [KeyRefRequest.follows_lookup hS id m hm, Plan.onMemory_reading,
    lookup_of_holds hpayloads h hid hplace]

theorem answer_insert (hS : S.ledger = Memory.accessor) (hm : m.IsQuiet)
    (hpayloads : S.payloads.IsLossless) (h : m.contents.Holds S used index)
    (hid : ∀ part ∈ id.parts, part ∈ used) (hplace : S.locate id.source = .ok place)
    (primaryKey : Key) :
    (∃ shown, ((S.insertKeyRef ⟨id.schema, id.index, id.refKey, primaryKey⟩).answer m).1 =
      .error (.alreadyExists shown)) ↔ (index id).isSome := by
  rw [KeyRefRequest.follows_insert hS _ m hm, Plan.onMemory_writing]
  constructor
  · rintro ⟨shown, hrefused⟩
    cases hindex : index id with
    | some primaryKey => rfl
    | none =>
      have hplan := insert_of_vacant hpayloads h ⟨id.schema, id.index, id.refKey, primaryKey⟩ hid
        hplace hindex shown
      -- The insertion may fail for other reasons, but not because something is there.
      generalize KeyRefRequest.insertPlan S _ m.contents = change? at hrefused hplan
      cases change? with
      | ok change => cases hrefused
      | error error =>
        cases hrefused
        exact absurd rfl hplan
  · intro hclaimed
    obtain ⟨claim, hindex⟩ := Option.isSome_iff_exists.mp hclaimed
    rw [insert_of_claimed hpayloads h ⟨id.schema, id.index, id.refKey, primaryKey⟩ hid hplace
      hindex]
    exact ⟨_, rfl⟩

theorem answer_getBy (hS : S.ledger = Memory.accessor) (hm : m.IsQuiet)
    (hpayloads : S.payloads.IsLossless) (h : m.contents.Holds S used index)
    (hid : ∀ part ∈ id.parts, part ∈ used) (hplace : S.locate id.source = .ok place)
    {α : Type} (codec : Codec α) :
    (S.getByKeyRef id codec).answer m =
      match index id with
      | some primaryKey => (S.get .world (.given primaryKey) codec).answer m
      | none => (.error (.notFound place.origin.display), m) := by
  have hlookup := answer_lookup hS hm hpayloads h hid hplace
  rw [Store.getByKeyRef, Action.answer_bind_of_ok hlookup]
  cases index id with
  | some primaryKey => rfl
  | none =>
    simp only
    rw [Action.answer_ofExcept_bind, key_of_locate hplace]
    exact Action.answer_observe .keyRef _ m

theorem answer_lookup_entry (hS : S.ledger = Memory.accessor) (hm : m.IsQuiet)
    (hkeys : S.keys.Separates used) {α : Type} (r : EntryRequest α) (id : KeyRefId) :
    ((S.lookupKeyRef id).answer ((r.perform S).answer m).2).1 =
      ((S.lookupKeyRef id).answer m).1 := by
  have hquiet : ((r.perform S).answer m).2.IsQuiet := by
    rw [r.follows hS m hm]
    exact Plan.isQuiet_onMemory hm _
  rw [KeyRefRequest.follows_lookup hS id _ hquiet, KeyRefRequest.follows_lookup hS id m hm,
    Plan.onMemory_reading, Plan.onMemory_reading, r.follows hS m hm,
    (Plan.contents_onMemory _ m).2]
  unfold Contents.get? Contents.valueAt Contents.payload
  cases hplace : S.locate id.source with
  | error error => rfl
  | ok place =>
    have hrow := entry_keeps_row hkeys r m.contents hplace
    simp only [bind, Except.bind, hrow]

end Answers

/-! ### Runs -/

/-- **Key references are a unique index.**  Take a store that keeps keys as they are, or
    hides their parts behind digests that tell the used parts apart; that keeps payloads
    as they are, or seals them; and any run of requests from an empty ledger.  Behind it,
    a reference leads where its latest insertion or replacement says, unless it was
    deleted since; it is refused as a duplicate exactly if it leads somewhere; what it
    leads to is what its primary key gives; and requests about entries change none of
    that. -/
theorem keyRefs_are_latest_claims (keys : KeyTransformer) (payloads : PayloadTransformer)
    (config : Config) (richQueries : Bool) (txId : String) (timestamp : Int) (used : Set String)
    (hkeys : keys = KeyTransformer.identity ∨
      keys = KeyTransformer.hashed ∧ Set.InjOn KeyTransformer.digestPart used)
    (hpayloads : payloads = PayloadTransformer.identity ∨
      payloads = PayloadTransformer.digestEnvelope)
    (requests : List (Σ α : Type, StoreRequest α))
    (hids : ∀ request ∈ requests, ∀ id, request.2.keyRefId? = some id →
      ∀ part ∈ id.parts, part ∈ used) :
    let S := Store.inMemory keys payloads config
    let ran := runAll (fun r => (r.perform S).answer) requests
      (Memory.fresh richQueries txId timestamp)
    let index := KeyRefIndex.after ∅ requests ran.1
    (∀ (id : KeyRefId) (key : ResolvedKey), (∀ part ∈ id.parts, part ∈ used) →
      S.resolve id.source = .ok key →
        ((S.lookupKeyRef id).answer ran.2).1 = .ok (index id) ∧
        (∀ primaryKey : Key,
          (∃ shown, ((S.insertKeyRef ⟨id.schema, id.index, id.refKey, primaryKey⟩).answer
            ran.2).1 = .error (.alreadyExists shown)) ↔ (index id).isSome) ∧
        (∀ (α : Type) (codec : Codec α), ((S.getByKeyRef id codec).answer ran.2).1 =
          match index id with
          | some primaryKey => ((S.get .world (.given primaryKey) codec).answer ran.2).1
          | none => .error (.notFound key.origin.display))) ∧
      ∀ (α : Type) (r : EntryRequest α) (id : KeyRefId),
        ((S.lookupKeyRef id).answer ((r.perform S).answer ran.2).2).1 =
          ((S.lookupKeyRef id).answer ran.2).1 := by
  intro S ran index
  have hseparates : S.keys.Separates used := by
    rcases hkeys with hkeys | ⟨hkeys, hdigests⟩
    · show keys.Separates used
      rw [hkeys]
      exact KeyTransformer.separates_identity used
    · show keys.Separates used
      rw [hkeys]
      exact KeyTransformer.separates_hashed hdigests
  have hlossless : S.payloads.IsLossless := by
    rcases hpayloads with hpayloads | hpayloads
    · show payloads.IsLossless
      rw [hpayloads]
      exact PayloadTransformer.isLossless_identity
    · show payloads.IsLossless
      rw [hpayloads]
      exact PayloadTransformer.isLossless_digestEnvelope
  -- each request follows its plan, so the run on the ledger is a run on its contents
  have hfollows {α : Type} (r : StoreRequest α) : (r.perform S).Follows (r.plan S) :=
    r.follows rfl
  obtain ⟨hanswers, hcontents, hquiet⟩ := runAll_refines hfollows requests
    (Memory.isQuiet_fresh richQueries txId timestamp)
  rw [Memory.contents_fresh] at hanswers hcontents
  -- rows and books agree behind the run, and each answer is read off one row
  have hholds : ran.2.contents.Holds S used index := by
    have hrun := holds_run hseparates requests hids (c := ∅) holds_empty
    show ran.2.contents.Holds S used (KeyRefIndex.after ∅ requests ran.1)
    rw [hcontents, hanswers]
    exact hrun
  refine ⟨?_, fun α r id => answer_lookup_entry rfl hquiet hseparates r id⟩
  intro id key hid hkey
  rw [Store.resolve_eq rfl] at hkey
  obtain ⟨place, hplace, rfl⟩ := map_eq_ok_iff.mp hkey
  refine ⟨?_, ?_, ?_⟩
  · rw [answer_lookup rfl hquiet hlossless hholds hid hplace]
  · exact answer_insert rfl hquiet hlossless hholds hid hplace
  · intro α codec
    rw [answer_getBy rfl hquiet hlossless hholds hid hplace]
    cases index id <;> rfl

/-- A reference that was built, refused to a second key and then moved leads to the key it
    was moved to. -/
theorem keyRefs_are_latest_claims_moved :
    let S := Store.inMemory KeyTransformer.identity PayloadTransformer.identity {}
    let dune : KeyRefId := ⟨"book", "title", ⟨["Dune"]⟩⟩
    let requests : List (Σ α : Type, StoreRequest α) :=
      [⟨Unit, .entry (.put .world (.given ⟨["book", "1"]⟩) Codec.text "Dune")⟩,
        ⟨KeyRef, .keyRef (.build ⟨"book", "title", ⟨["Dune"]⟩, ⟨["book", "1"]⟩⟩)⟩,
        ⟨Unit, .keyRef (.insert ⟨"book", "title", ⟨["Dune"]⟩, ⟨["book", "2"]⟩⟩)⟩,
        ⟨Unit, .keyRef (.put ⟨"book", "title", ⟨["Dune"]⟩, ⟨["book", "3"]⟩⟩)⟩]
    let ran := runAll (fun r => (r.perform S).answer) requests (Memory.fresh false "tx" 0)
    ((S.lookupKeyRef dune).answer ran.2).1 = .ok (some ⟨["book", "3"]⟩) := by
  have hkey : (Store.inMemory KeyTransformer.identity PayloadTransformer.identity {}).resolve
      (KeyRefId.source ⟨"book", "title", ⟨["Dune"]⟩⟩) =
        .ok ⟨⟨["_idx", "book", "title", "Dune"]⟩, ⟨["_idx", "book", "title", "Dune"]⟩,
          (Key.mk ["_idx", "book", "title", "Dune"]).spell⟩ := by
    rfl
  refine ((keyRefs_are_latest_claims KeyTransformer.identity PayloadTransformer.identity {} false
    "tx" 0 Set.univ (.inl rfl) (.inl rfl) _ (fun _ _ _ _ _ _ => trivial)).1 _ _
    (fun _ _ => trivial) hkey).1.trans (congrArg Except.ok ?_)
  rfl

end EntityStore
