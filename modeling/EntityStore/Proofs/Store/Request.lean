/-
  EntityStore/Proofs/Store/Request.lean
  =====================================
  **Requests about single entries, and what they are planned to do.**

  `EntryRequest` lists the operations on single entries; `perform` runs one on a
  store, and `plan` says what it is meant to do in terms of contents alone.  Where a
  key is refused, where a write is refused and which of two refusals wins is part of
  the plan.  `EntryRequest.follows` is the agreement of the two.
-/
import EntityStore.Proofs.Except
import EntityStore.Proofs.Store.Contents

namespace EntityStore

/-! ### Places -/

/-- Where a request looks: the key as the caller gave it, and the key as it is stored,
    which is one that the ledger can hold. -/
structure Place where
  origin : Key
  key : Key
  storable : key.IsStorable

namespace Place

/-- The place with its ledger key. -/
def resolved (place : Place) : ResolvedKey := ⟨place.origin, place.key, place.key.spell⟩

/-- The place of a key that the ledger can hold. -/
def ofKey (origin key : Key) : Except StoreError Place :=
  match storable : key.check with
  | .ok () => .ok ⟨origin, key, storable⟩
  | .error error => .error error

theorem ofKey_of_storable {origin key : Key} (h : key.IsStorable) :
    ofKey origin key = .ok ⟨origin, key, h⟩ := by
  unfold ofKey
  split
  · rfl
  · next error herror => exact absurd (herror.symm.trans h) nofun

theorem map_resolved_ofKey (origin key : Key) :
    (ofKey origin key).map resolved = key.encode.map fun encoded => ⟨origin, key, encoded⟩ := by
  have hencode := key.encode_eq
  unfold ofKey
  split
  · next h =>
    rw [h] at hencode
    rw [hencode]
    rfl
  · next error h =>
    rw [h] at hencode
    rw [hencode]
    rfl

/-- The change of the entry at a place.  Nothing can be kept under the simple key of the
    empty part. -/
def change (place : Place) (p : Partition) (payload? : Option Bytes) :
    Except StoreError Mutation :=
  if h : place.key.parts = [""] then .error (.ledger Memory.emptyKeyError)
  else .ok ⟨p, place.key, place.storable, h, payload?⟩

end Place

namespace Store

variable {σ α : Type} (S : Store σ)

/-- The place that a source stands for. -/
def locate (source : KeySource) : Except StoreError Place := do
  let origin ← source.normalize
  let key ← S.keys origin
  Place.ofKey origin key

/-- The place that a source stands for, outside the namespace of the key references. -/
def locateWritable (source : KeySource) : Except StoreError Place := do
  let place ← S.locate source
  if place.origin.namespace? = some keyRefNamespace then
    .error (.reservedNamespace keyRefNamespace)
  else .ok place

variable {S}

theorem resolve_eq (hjoin : S.ledger.joinKey = Composite.encode) (source : KeySource) :
    S.resolve source = (S.locate source).map Place.resolved := by
  unfold resolve locate
  cases source.normalize with
  | error error => rfl
  | ok origin =>
    cases hkey : S.keys origin with
    | error error => simp [hkey, bind, Except.bind, Except.map]
    | ok key =>
      have hencode : key.encodeWith S.ledger.joinKey = key.encode := by rw [hjoin]; rfl
      simp only [bind, Except.bind, hkey, hencode, Place.map_resolved_ofKey]
      cases key.encode <;> rfl

theorem resolveWritable_eq (hjoin : S.ledger.joinKey = Composite.encode) (source : KeySource) :
    S.resolveWritable source = (S.locateWritable source).map Place.resolved := by
  unfold resolveWritable locateWritable
  rw [resolve_eq hjoin]
  cases S.locate source with
  | error error => rfl
  | ok place =>
    by_cases hname : place.origin.namespace? = some keyRefNamespace
    · simp [Except.map, bind, Except.bind, guardNamespace, Place.resolved, hname]
    · simp [Except.map, bind, Except.bind, guardNamespace, Place.resolved, hname, pure, Except.pure]

theorem locateWritable_eq_ok_iff {source : KeySource} {place : Place} :
    S.locateWritable source = .ok place ↔
      S.locate source = .ok place ∧ place.origin.namespace? ≠ some keyRefNamespace := by
  unfold locateWritable
  rw [bind_eq_ok_iff]
  constructor
  · rintro ⟨found, hfound, hplace⟩
    split at hplace
    · cases hplace
    · next hname =>
      cases hplace
      exact ⟨hfound, hname⟩
  · rintro ⟨hplace, hname⟩
    exact ⟨place, hplace, if_neg hname⟩

theorem locate_given {origin key : Key} (hkey : S.keys origin = .ok key)
    (hstorable : key.IsStorable) :
    S.locate (.given origin) = .ok ⟨origin, key, hstorable⟩ := by
  refine bind_eq_ok_iff.mpr ⟨origin, rfl, ?_⟩
  exact bind_eq_ok_iff.mpr ⟨key, hkey, Place.ofKey_of_storable hstorable⟩

theorem locate_eq_ok {source : KeySource} {place : Place} (h : S.locate source = .ok place) :
    source.normalize = .ok place.origin ∧ S.keys place.origin = .ok place.key := by
  obtain ⟨origin, horigin, h⟩ := bind_eq_ok_iff.mp h
  obtain ⟨key, hkey, h⟩ := bind_eq_ok_iff.mp h
  unfold Place.ofKey at h
  split at h
  · cases h
    exact ⟨horigin, hkey⟩
  · cases h

end Store

/-! ### Requests -/

/-- An operation on a single entry, public or private, and the type of its answer. -/
inductive EntryRequest : Type → Type 1 where
  | get {α : Type} (p : Partition) (source : KeySource) (codec : Codec α) : EntryRequest α
  | get? {α : Type} (p : Partition) (source : KeySource) (codec : Codec α) :
    EntryRequest (Option α)
  | getD {α : Type} (p : Partition) (source : KeySource) (codec : Codec α) (default : α) :
    EntryRequest α
  | contains (p : Partition) (source : KeySource) : EntryRequest Bool
  | put {α : Type} (p : Partition) (source : KeySource) (codec : Codec α) (value : α) :
    EntryRequest Unit
  | putEntity {ε : Type} (p : Partition) (T : EntityType ε) (entity : ε) : EntryRequest Unit
  | putWithValues {ε α : Type} (p : Partition) (T : EntityType ε) (entity : ε)
    (codec : Codec α) (values : List α) : EntryRequest Unit
  | insert {α : Type} (p : Partition) (source : KeySource) (codec : Codec α) (value : α) :
    EntryRequest Unit
  | insertEntity {ε : Type} (p : Partition) (T : EntityType ε) (entity : ε) : EntryRequest Unit
  | insertWithValues {ε α : Type} (p : Partition) (T : EntityType ε) (entity : ε)
    (codec : Codec α) (values : List α) : EntryRequest Unit
  | delete (p : Partition) (source : KeySource) : EntryRequest Unit

/-- Runs a request on a store. -/
def EntryRequest.perform {σ α : Type} (S : Store σ) : EntryRequest α → Action σ α
  | .get p source codec => S.get p source codec
  | .get? p source codec => S.get? p source codec
  | .getD p source codec default => S.getD p source codec default
  | .contains p source => S.contains p source
  | .put p source codec value => S.put p source codec value
  | .putEntity p T entity => S.putEntity p T entity
  | .putWithValues p T entity codec values => S.putWithValues p T entity codec values
  | .insert p source codec value => S.insert p source codec value
  | .insertEntity p T entity => S.insertEntity p T entity
  | .insertWithValues p T entity codec values => S.insertWithValues p T entity codec values
  | .delete p source => S.delete p source

/-- The partition and the key source that a request is about. -/
def EntryRequest.target {α : Type} : EntryRequest α → Partition × KeySource
  | .get p source _ => (p, source)
  | .get? p source _ => (p, source)
  | .getD p source _ _ => (p, source)
  | .contains p source => (p, source)
  | .put p source _ _ => (p, source)
  | .putEntity p T entity => (p, T.source entity)
  | .putWithValues p T entity _ _ => (p, T.source entity)
  | .insert p source _ _ => (p, source)
  | .insertEntity p T entity => (p, T.source entity)
  | .insertWithValues p T entity _ _ => (p, T.source entity)
  | .delete p source => (p, source)

/-! ### What requests are planned to do -/

namespace Contents

variable {σ α : Type} (S : Store σ)

/-- The value at a place; an empty payload counts as none. -/
def valueAt (c : Contents) (p : Partition) (place : Place) (codec : Codec α) :
    Except StoreError (Option α) :=
  if c.payload p place.key = [] then .ok none
  else (S.decodeValue codec (c.payload p place.key)).map some

/-- The value at the place of a source. -/
def get? (c : Contents) (p : Partition) (source : KeySource) (codec : Codec α) :
    Except StoreError (Option α) := do
  let place ← S.locate source
  c.valueAt S p place codec

/-- The value at the place of a source, which must be there. -/
def get (c : Contents) (p : Partition) (source : KeySource) (codec : Codec α) :
    Except StoreError α := do
  let place ← S.locate source
  match ← c.valueAt S p place codec with
  | some value => .ok value
  | none => .error (.notFound place.origin.display)

/-- The payload at the place of a source is not empty. -/
def contains (c : Contents) (p : Partition) (source : KeySource) : Except StoreError Bool := do
  let place ← S.locate source
  return !(c.payload p place.key).isEmpty

/-- The change that puts a value at a place, whatever was there. -/
def putAt (p : Partition) (place : Place) (codec : Codec α) (value : α) :
    Except StoreError Mutation := do
  let payload ← S.encodeValue codec value
  place.change p (some payload)

/-- The change that puts a value at a place that holds none. -/
def insertAt (c : Contents) (p : Partition) (place : Place) (codec : Codec α) (value : α) :
    Except StoreError Mutation :=
  if c.payload p place.key = [] then putAt S p place codec value
  else .error (.alreadyExists place.origin.display)

end Contents

namespace EntryRequest

variable {σ α : Type} (S : Store σ)

/-- Puts a value at the place of a source. -/
def putPlan (p : Partition) (source : KeySource) (codec : Codec α) (value : α) : Plan Unit :=
  .writing fun _ => do
    let place ← S.locateWritable source
    Contents.putAt S p place codec value

/-- Puts a value at the place of a source, which must hold none. -/
def insertPlan (p : Partition) (source : KeySource) (codec : Codec α) (value : α) : Plan Unit :=
  .writing fun c => do
    let place ← S.locateWritable source
    c.insertAt S p place codec value

/-- What a request is meant to do. -/
def plan : EntryRequest α → Plan α
  | .get p source codec => .reading fun c => c.get S p source codec
  | .get? p source codec => .reading fun c => c.get? S p source codec
  | .getD p source codec default => .reading fun c =>
    (c.get? S p source codec).map fun value => value.getD default
  | .contains p source => .reading fun c => c.contains S p source
  | .put p source codec value => putPlan S p source codec value
  | .putEntity p T entity => putPlan S p (T.source entity) T.codec entity
  | .putWithValues p T entity codec values =>
    match values with
    | [] => putPlan S p (T.source entity) T.codec entity
    | [value] => putPlan S p (T.source entity) codec value
    | values => .reading fun _ => .error (.tooManyValues values.length)
  | .insert p source codec value => insertPlan S p source codec value
  | .insertEntity p T entity => insertPlan S p (T.source entity) T.codec entity
  | .insertWithValues p T entity codec values =>
    match values with
    | [] => insertPlan S p (T.source entity) T.codec entity
    | [value] => insertPlan S p (T.source entity) codec value
    | values => .reading fun _ => .error (.tooManyValues values.length)
  | .delete p source => .writing fun _ => do
    let place ← S.locateWritable source
    place.change p none

/-! ### Which entry a request changes -/

/-- A change that was planned for a place is a change of the entry there. -/
def ChangesAt (p : Partition) (source : KeySource) (change : Mutation) : Prop :=
  ∃ place, S.locateWritable source = .ok place ∧
    change.partition = p ∧ change.key = place.key

variable {S}

theorem change_eq_ok {place : Place} {p : Partition} {payload? : Option Bytes}
    {change : Mutation} (h : place.change p payload? = .ok change) :
    change.partition = p ∧ change.key = place.key ∧ change.payload? = payload? := by
  unfold Place.change at h
  split at h
  · cases h
  · cases h
    exact ⟨rfl, rfl, rfl⟩

theorem putAt_eq_ok {p : Partition} {place : Place} {codec : Codec α} {value : α}
    {change : Mutation} (h : Contents.putAt S p place codec value = .ok change) :
    change.partition = p ∧ change.key = place.key ∧
      ∃ payload, S.encodeValue codec value = .ok payload ∧ change.payload? = some payload := by
  obtain ⟨payload, hpayload, hchange⟩ := bind_eq_ok_iff.mp h
  obtain ⟨hp, hkey, hset⟩ := change_eq_ok hchange
  exact ⟨hp, hkey, payload, hpayload, hset⟩

theorem insertAt_eq_ok {c : Contents} {p : Partition} {place : Place} {codec : Codec α}
    {value : α} {change : Mutation} (h : c.insertAt S p place codec value = .ok change) :
    c.payload p place.key = [] ∧ Contents.putAt S p place codec value = .ok change := by
  unfold Contents.insertAt at h
  split at h
  · next hvacant => exact ⟨hvacant, h⟩
  · cases h

theorem putPlan_changesAt {c : Contents} {p : Partition} {source : KeySource}
    {codec : Codec α} {value : α} {change : Mutation}
    (h : putPlan S p source codec value c = .ok ((), some change)) :
    ChangesAt S p source change := by
  obtain ⟨place, hplace, hput⟩ := bind_eq_ok_iff.mp (Plan.writing_eq_change_iff.mp h)
  obtain ⟨hp, hkey, -⟩ := putAt_eq_ok hput
  exact ⟨place, hplace, hp, hkey⟩

theorem insertPlan_changesAt {c : Contents} {p : Partition} {source : KeySource}
    {codec : Codec α} {value : α} {change : Mutation}
    (h : insertPlan S p source codec value c = .ok ((), some change)) :
    ChangesAt S p source change := by
  obtain ⟨place, hplace, hinsert⟩ := bind_eq_ok_iff.mp (Plan.writing_eq_change_iff.mp h)
  obtain ⟨hp, hkey, -⟩ := putAt_eq_ok (insertAt_eq_ok hinsert).2
  exact ⟨place, hplace, hp, hkey⟩

/-- **A request changes no entry but the one it is about**, and none in the namespace of
    the key references. -/
theorem plan_changesAt {request : EntryRequest α} {c : Contents} {answer : α}
    {change : Mutation} (h : request.plan S c = .ok (answer, some change)) :
    ChangesAt S request.target.1 request.target.2 change := by
  -- Plans that only read change nothing, so the hypothesis excludes them; the others write at the
  -- place that was located.
  cases request with
  | get p source codec =>
    simp only [plan] at h
    exact (Plan.reading_changes_nothing h).elim
  | get? p source codec =>
    simp only [plan] at h
    exact (Plan.reading_changes_nothing h).elim
  | getD p source codec default =>
    simp only [plan] at h
    exact (Plan.reading_changes_nothing h).elim
  | contains p source =>
    simp only [plan] at h
    exact (Plan.reading_changes_nothing h).elim
  | put p source codec value => exact putPlan_changesAt h
  | putEntity p T entity => exact putPlan_changesAt h
  | putWithValues p T entity codec values =>
    rcases values with _ | ⟨value, _ | ⟨second, rest⟩⟩
    · exact putPlan_changesAt h
    · exact putPlan_changesAt h
    · simp only [plan] at h
      exact (Plan.reading_changes_nothing h).elim
  | insert p source codec value => exact insertPlan_changesAt h
  | insertEntity p T entity => exact insertPlan_changesAt h
  | insertWithValues p T entity codec values =>
    rcases values with _ | ⟨value, _ | ⟨second, rest⟩⟩
    · exact insertPlan_changesAt h
    · exact insertPlan_changesAt h
    · simp only [plan] at h
      exact (Plan.reading_changes_nothing h).elim
  | delete p source =>
    simp only [plan] at h
    obtain ⟨place, hplace, hchange⟩ := bind_eq_ok_iff.mp (Plan.writing_eq_change_iff.mp h)
    obtain ⟨hp, hkey, -⟩ := change_eq_ok hchange
    exact ⟨place, hplace, hp, hkey⟩

end EntryRequest

end EntityStore
