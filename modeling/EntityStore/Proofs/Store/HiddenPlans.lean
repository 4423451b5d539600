/-
  EntityStore/Proofs/Store/HiddenPlans.lean
  =========================================
  **Plans under hidden keys.**  A store and the same store behind hidden keys
  (`Store.hiding`) plan alike: on contents of which one holds under each hidden key what
  the other holds under the key itself (`Contents.Hidden`), a request has the same answer,
  and changes the same entry to the same payload (`EntryRequest.agree_plan`,
  `KeyRefRequest.agree_plan`).

  A primary key is stored as it is, and only hidden when the entity is fetched.  So the
  keys that the references lead to must have used parts as well (`Contents.RefsUse`).
-/
import EntityStore.Proofs.Key.Hiding
import EntityStore.Proofs.KeyRef.Index
import EntityStore.Proofs.Store.Agreement

namespace EntityStore

/-! ### Hidden contents -/

/-- The same store with the parts of its keys hidden. -/
def Store.hiding {σ : Type} (S : Store σ) : Store σ := { S with keys := KeyTransformer.hashed }

section Contents

variable {σ α : Type} {S : Store σ} {used : Set String} {c d : Contents}

/-- Under each hidden key stands what stands under the key itself, and nothing else is
    there. -/
structure Contents.Hidden (used : Set String) (c d : Contents) : Prop where
  same {key : Key} (h : key.Uses used) (p : Partition) : d p key.hide.parts = c p key.parts
  only {p : Partition} {key : Key} {payload : Bytes} :
    c p key.parts = some payload → key.Uses used
  every {p : Partition} {key : Key} {payload : Bytes} :
    d p key.parts = some payload → ∃ origin : Key, origin.Uses used ∧ origin.hide = key

theorem Contents.hidden_empty : Contents.Hidden used ∅ ∅ where
  same _ _ := rfl
  only hlive := by cases hlive
  every hlive := by cases hlive

/-- Two places of one key: the key as it is, and hidden. -/
structure Place.Hidden (used : Set String) (p q : Place) : Prop where
  origin_eq : q.origin = p.origin
  key_eq : p.key = p.origin
  hide_eq : q.key = p.origin.hide
  uses : p.origin.Uses used

/-- Two changes that set one entry to the same payload: under its key, and under the
    hidden key. -/
structure Mutation.Hidden (used : Set String) (a b : Mutation) : Prop where
  partition_eq : b.partition = a.partition
  key_eq : b.key = a.key.hide
  payload_eq : b.payload? = a.payload?
  uses : a.key.Uses used

/-- A key source stands for no key but one with used parts. -/
def KeySource.Uses (source : KeySource) (used : Set String) : Prop :=
  ∀ key, source.normalize = .ok key → key.Uses used

theorem agree_locate (hkeys : S.keys = KeyTransformer.identity) {source : KeySource}
    (hsource : source.Uses used) :
    Agree (Place.Hidden used) (S.locate source) (S.hiding.locate source) := by
  unfold Store.locate
  cases hnormal : source.normalize with
  | error error => exact .error rfl
  | ok origin =>
    have huses := hsource origin hnormal
    show Agree _ (S.keys origin >>= Place.ofKey origin)
      (KeyTransformer.hashed origin >>= Place.ofKey origin)
    rw [hkeys]
    by_cases hparts : origin.parts = []
    · rcases origin with ⟨parts⟩
      subst hparts
      exact .error rfl
    · have hplain : KeyTransformer.identity origin >>= Place.ofKey origin =
          .ok ⟨origin, origin, huses.isStorable hparts⟩ := Place.ofKey_of_storable _
      rw [hplain, Key.hashed_eq_hide hparts]
      show Agree _ _ (Place.ofKey origin origin.hide)
      rw [Place.ofKey_of_storable (huses.isStorable_hide hparts)]
      exact .ok ⟨rfl, rfl, rfl, huses⟩

theorem agree_locateWritable (hkeys : S.keys = KeyTransformer.identity) {source : KeySource}
    (hsource : source.Uses used) :
    Agree (Place.Hidden used) (S.locateWritable source) (S.hiding.locateWritable source) := by
  refine (agree_locate hkeys hsource).bind fun p q hpq => ?_
  rw [hpq.origin_eq]
  split
  · exact .error rfl
  · exact .ok hpq

theorem Contents.Hidden.payload_eq (h : c.Hidden used d) (p : Partition) {place place' : Place}
    (hplace : place.Hidden used place') : d.payload p place'.key = c.payload p place.key := by
  rw [payload, payload, hplace.hide_eq, hplace.key_eq, h.same hplace.uses]

theorem agree_change {place place' : Place} (hplace : place.Hidden used place') (p : Partition)
    (payload? : Option Bytes) :
    Agree (Mutation.Hidden used) (place.change p payload?) (place'.change p payload?) := by
  have hroot : place'.key.parts = [""] ↔ place.key.parts = [""] := by
    rw [hplace.hide_eq, hplace.key_eq]
    exact Key.hide_eq_root_iff
  unfold Place.change
  -- Only the root key is refused, and hiding leaves the root key where it is.
  split
  · next hempty =>
    rw [dif_pos (hroot.mpr hempty)]
    exact .error rfl
  · next hne =>
    rw [dif_neg fun hempty => hne (hroot.mp hempty)]
    refine .ok ⟨rfl, ?_, rfl, ?_⟩
    · show place'.key = place.key.hide
      rw [hplace.hide_eq, hplace.key_eq]
    · show place.key.Uses used
      rw [hplace.key_eq]
      exact hplace.uses

theorem agree_putAt {place place' : Place} (hplace : place.Hidden used place') (p : Partition)
    (codec : Codec α) (value : α) :
    Agree (Mutation.Hidden used) (Contents.putAt S p place codec value)
      (Contents.putAt S.hiding p place' codec value) := by
  refine (Agree.of_eq (b := S.encodeValue codec value) rfl).bind fun payload _ hpayload => ?_
  subst hpayload
  exact agree_change hplace p (some payload)

end Contents

/-! ### Plans agree -/

section Plans

variable {σ α : Type} {S : Store σ} {used : Set String} {c d : Contents}

/-- Two plans give one answer, and make the same change if they make one. -/
def Planned (used : Set String) (a b : α × Option Mutation) : Prop :=
  a.1 = b.1 ∧ Option.Rel (Mutation.Hidden used) a.2 b.2

theorem agree_reading {a b : Contents → Except StoreError α} (h : Agree Eq (a c) (b d)) :
    Agree (Planned used) (Plan.reading a c) (Plan.reading b d) :=
  h.map fun _ _ hsame => ⟨hsame, .none⟩

theorem agree_writing {a b : Contents → Except StoreError Mutation}
    (h : Agree (Mutation.Hidden used) (a c) (b d)) :
    Agree (Planned used) (Plan.writing a c) (Plan.writing b d) :=
  h.map fun _ _ hchange => ⟨rfl, .some hchange⟩

theorem agree_putPlan (hkeys : S.keys = KeyTransformer.identity) {source : KeySource}
    (hsource : source.Uses used) (p : Partition) (codec : Codec α) (value : α) :
    Agree (Planned used) (EntryRequest.putPlan S p source codec value c)
      (EntryRequest.putPlan S.hiding p source codec value d) := by
  refine agree_writing ((agree_locateWritable hkeys hsource).bind fun place place' hplace => ?_)
  exact agree_putAt hplace p codec value

variable (hkeys : S.keys = KeyTransformer.identity) (h : c.Hidden used d)

include h

theorem valueAt_hidden {place place' : Place} (hplace : place.Hidden used place') (p : Partition)
    (codec : Codec α) : d.valueAt S.hiding p place' codec = c.valueAt S p place codec := by
  unfold Contents.valueAt
  rw [h.payload_eq p hplace]
  rfl

theorem agree_insertAt {place place' : Place} (hplace : place.Hidden used place') (p : Partition)
    (codec : Codec α) (value : α) :
    Agree (Mutation.Hidden used) (c.insertAt S p place codec value)
      (d.insertAt S.hiding p place' codec value) := by
  unfold Contents.insertAt
  rw [h.payload_eq p hplace]
  split
  · exact agree_putAt hplace p codec value
  · exact .error rfl

include hkeys

theorem agree_get? {source : KeySource} (hsource : source.Uses used) (p : Partition)
    (codec : Codec α) :
    Agree Eq (c.get? S p source codec) (d.get? S.hiding p source codec) := by
  refine (agree_locate hkeys hsource).bind fun place place' hplace => ?_
  exact Agree.of_eq (valueAt_hidden h hplace p codec).symm

theorem agree_get {source : KeySource} (hsource : source.Uses used) (p : Partition)
    (codec : Codec α) :
    Agree Eq (c.get S p source codec) (d.get S.hiding p source codec) := by
  refine (agree_locate hkeys hsource).bind fun place place' hplace => ?_
  rw [valueAt_hidden h hplace p codec, hplace.origin_eq]
  exact Agree.of_eq rfl

theorem agree_contains {source : KeySource} (hsource : source.Uses used) (p : Partition) :
    Agree Eq (c.contains S p source) (d.contains S.hiding p source) := by
  refine (agree_locate hkeys hsource).bind fun place place' hplace => ?_
  rw [h.payload_eq p hplace]
  exact Agree.of_eq rfl

theorem agree_insertPlan {source : KeySource} (hsource : source.Uses used) (p : Partition)
    (codec : Codec α) (value : α) :
    Agree (Planned used) (EntryRequest.insertPlan S p source codec value c)
      (EntryRequest.insertPlan S.hiding p source codec value d) := by
  refine agree_writing ((agree_locateWritable hkeys hsource).bind fun place place' hplace => ?_)
  exact agree_insertAt h hplace p codec value

theorem EntryRequest.agree_plan (request : EntryRequest α) (huses : request.target.2.Uses used) :
    Agree (Planned used) (request.plan S c) (request.plan S.hiding d) := by
  -- Reads agree because the payloads do; writes agree because the two places are related, so the
  -- changes made of them are.
  cases request with
  | get p source codec =>
    simp only [plan]
    exact agree_reading (agree_get hkeys h huses p codec)
  | get? p source codec =>
    simp only [plan]
    exact agree_reading (agree_get? hkeys h huses p codec)
  | getD p source codec default =>
    simp only [plan]
    refine agree_reading ((agree_get? hkeys h huses p codec).map fun x y hxy => ?_)
    rw [hxy]
  | contains p source =>
    simp only [plan]
    exact agree_reading (agree_contains hkeys h huses p)
  | put p source codec value => exact agree_putPlan hkeys huses p codec value
  | putEntity p T entity => exact agree_putPlan hkeys huses p T.codec entity
  | putWithValues p T entity codec values =>
    rcases values with _ | ⟨value, _ | ⟨second, rest⟩⟩
    · exact agree_putPlan hkeys huses p T.codec entity
    · exact agree_putPlan hkeys huses p codec value
    · exact .error rfl
  | insert p source codec value => exact agree_insertPlan hkeys h huses p codec value
  | insertEntity p T entity => exact agree_insertPlan hkeys h huses p T.codec entity
  | insertWithValues p T entity codec values =>
    rcases values with _ | ⟨value, _ | ⟨second, rest⟩⟩
    · exact agree_insertPlan hkeys h huses p T.codec entity
    · exact agree_insertPlan hkeys h huses p codec value
    · exact .error rfl
  | delete p source =>
    simp only [plan]
    refine agree_writing ((agree_locateWritable hkeys huses).bind fun place place' hplace => ?_)
    exact agree_change hplace p none

end Plans

/-! ### Primary keys -/

section PrimaryKeys

variable {σ α : Type} {S : Store σ} {used : Set String} {c d : Contents}

/-- What a primary key is when it is read back from the payload that was made of it. -/
def Store.ReadsBack (S : Store σ) (key found : Key) : Prop :=
  ∃ payload, S.encodeValue Codec.key key = .ok payload ∧
    S.decodeValue Codec.key payload = .ok found

/-- A lossless transformer gives back the key itself. -/
theorem Store.ReadsBack.eq_of_lossless (hpayloads : S.payloads.IsLossless) {key found : Key}
    (h : S.ReadsBack key found) : found = key := by
  obtain ⟨payload, hencoded, hdecoded⟩ := h
  obtain ⟨written, hwritten, hread, -⟩ := key_encode_ne_nil key
  have hsame := (Store.decodeValue_encodeValue hpayloads hwritten hread hencoded).1
  exact Except.ok.inj (hdecoded.symm.trans hsame)

/-- The references lead to keys with used parts. -/
def Contents.RefsUse (S : Store σ) (used : Set String) (c : Contents) : Prop :=
  ∀ (key : Key) (payload : Bytes) (found : Key), key.namespace? = some Store.keyRefNamespace →
    c .world key.parts = some payload → S.decodeValue Codec.key payload = .ok found →
      found.Uses used

theorem primaryKey_of_get? (hkeys : S.keys = KeyTransformer.identity) (hrefs : c.RefsUse S used)
    {id : KeyRefId} {primaryKey : Key}
    (h : c.get? S .world id.source Codec.key = .ok (some primaryKey)) : primaryKey.Uses used := by
  obtain ⟨place, hplace, hvalue⟩ := bind_eq_ok_iff.mp h
  have hname : place.key.namespace? = some Store.keyRefNamespace := by
    have hseparates := KeyTransformer.separates_identity used
    rw [← hkeys] at hseparates
    exact (locate_keyRef hseparates hplace).2
  unfold Contents.valueAt Contents.payload at hvalue
  cases hlive : c .world place.key.parts with
  | none =>
    rw [hlive] at hvalue
    cases hvalue
  | some payload =>
    rw [hlive, Option.getD_some] at hvalue
    split at hvalue
    · cases hvalue
    · obtain ⟨found, hfound, hsame⟩ := map_eq_ok_iff.mp hvalue
      cases hsame
      exact hrefs place.key payload primaryKey hname hlive hfound

theorem KeyRefRequest.agree_plan (hkeys : S.keys = KeyTransformer.identity) (h : c.Hidden used d)
    (hrefs : c.RefsUse S used) (request : KeyRefRequest α)
    (huses : request.target.source.Uses used) :
    Agree (Planned used) (request.plan S c) (request.plan S.hiding d) := by
  have hinsert (ref : KeyRef) (huses : ref.id.source.Uses used) :
      Agree (Mutation.Hidden used) (insertPlan S ref c) (insertPlan S.hiding ref d) :=
    (agree_locate hkeys huses).bind fun place place' hplace =>
      agree_insertAt h hplace .world Codec.key ref.primaryKey
  cases request with
  | build ref =>
    refine (agree_writing (hinsert ref huses)).map fun x y hxy => ?_
    exact ⟨rfl, hxy.2⟩
  | insert ref => exact agree_writing (hinsert ref huses)
  | put ref =>
    simp only [plan]
    refine agree_writing ((agree_locate hkeys huses).bind fun place place' hplace => ?_)
    exact agree_putAt hplace .world Codec.key ref.primaryKey
  | delete id =>
    simp only [plan]
    refine agree_writing ((agree_locate hkeys huses).bind fun place place' hplace => ?_)
    exact agree_change hplace .world none
  | lookup id =>
    simp only [plan]
    exact agree_reading (agree_get? hkeys h huses .world Codec.key)
  | getBy id codec =>
    simp only [plan]
    -- The lookup must also tell that the primary key it gives is a used one: the second read is
    -- made there, and used keys are all the two contents are related at.
    have hlookup := (agree_get? hkeys h huses .world Codec.key).and_left
      (P := fun x => ∀ primaryKey, x = some primaryKey → primaryKey.Uses used) ?_
    · refine agree_reading (hlookup.bind ?_)
      rintro (_ | primaryKey) _ ⟨rfl, hfound⟩
      · exact Agree.of_eq rfl
      · refine agree_get hkeys h ?_ .world codec
        rintro _ ⟨⟩
        exact hfound primaryKey rfl
    · rintro x hx primaryKey rfl
      exact primaryKey_of_get? hkeys hrefs hx

end PrimaryKeys

end EntityStore
