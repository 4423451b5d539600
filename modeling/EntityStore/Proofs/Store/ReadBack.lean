/-
  EntityStore/Proofs/Store/ReadBack.lean
  ======================================
  **What a put accepts, the store gives back.**

  A put either sets the entry of its key to the payload of the value, or finds this payload
  too long and leaves the ledger as it was (`answer_put_of_stored`).  The entry then stays
  until a step overwrites it, and the record of the put stays for good, whichever stores
  the steps are made by.  As long as the entry is there, every way to read it gives the
  value (`readsAs_of_live`): the requests for the one entry, and the scans that read its
  row.
-/
import EntityStore.Proofs.Store.Duplicates
import EntityStore.Proofs.Store.Mirrored
import EntityStore.Proofs.Store.RowValues

namespace EntityStore

open EntityStore.Action

/-! ### Values that are read back as they are -/

namespace PlainShape

variable {α : Type}

/-- Texts, bytes, truth values and integers are read back as they are, and so are the
    floating-point numbers apart from those that are none. -/
def IsExact : PlainShape α → α → Prop
  | binary64, x => x.isNaN = false
  | _, _ => True

theorem exists_encode (shape : PlainShape α) (value : α) :
    ∃ payload, shape.codec.encode value = .ok payload := by
  cases shape <;> exact ⟨_, rfl⟩

theorem decode_of_exact (shape : PlainShape α) {value : α} {payload : Bytes}
    (hexact : shape.IsExact value) (h : shape.codec.encode value = .ok payload) :
    shape.codec.decode payload = .ok value := by
  obtain ⟨found, hfound, hsame⟩ := shape.exists_decode h
  rw [hfound]
  refine congrArg Except.ok ?_
  cases shape with
  | binary64 =>
    rcases hsame with rfl | ⟨hnan, -⟩
    · rfl
    · exact absurd (hexact.symm.trans hnan) nofun
  | text | bytes | bool | int32 | int64 | word32 | word64 => exact hsame

end PlainShape

/-! ### Puts -/

section Puts

variable {S : Store Memory} {m : Memory} {α : Type} {p : Partition} {source : KeySource}
  {codec : Codec α} {value : α} {place : Place} {written stored : Bytes}

theorem Store.encodeValue_eq (hwritten : codec.encode value = .ok written)
    (hstored : S.payloads.encode written = .ok stored) :
    S.encodeValue codec value =
      if S.config.maxValueBytes < stored.length then
        .error (.encode (oversized stored.length S.config.maxValueBytes))
      else .ok stored := by
  unfold Store.encodeValue
  simp only [hwritten, hstored, bind, Except.bind]

/-- The change that sets an entry to a payload. -/
def Place.setting (place : Place) (p : Partition) (hparts : place.key.parts ≠ [""])
    (payload : Bytes) : Mutation :=
  ⟨p, place.key, place.storable, hparts, some payload⟩

/-- A put sets the entry, if the payload of the value is within the bound. -/
theorem answer_put_of_stored (hS : S.ledger = Memory.accessor) (hm : m.IsQuiet)
    (hplace : S.locateWritable source = .ok place) (hparts : place.key.parts ≠ [""])
    (hwritten : codec.encode value = .ok written)
    (hstored : S.payloads.encode written = .ok stored) :
    (S.put p source codec value).answer m =
      if S.config.maxValueBytes < stored.length then
        (.error (.encode (Store.oversized stored.length S.config.maxValueBytes)), m)
      else (.ok (), m.apply (place.setting p hparts stored)) := by
  rw [follows_put hS p source codec value m hm, EntryRequest.putPlan, Plan.onMemory_writing, hplace]
  show m.commit (Contents.putAt S p place codec value) = _
  rw [Contents.putAt, Store.encodeValue_eq hwritten hstored]
  split
  · rfl
  · show m.commit (place.change p (some stored)) = _
    rw [Place.change, dif_neg hparts]
    rfl

end Puts

/-! ### Steps by stores of all kinds -/

/-- A step made by a store that keeps keys as they are.  The store may treat payloads
    differently from one step to the next. -/
structure PlainStep (α : Type) where
  payloads : PayloadTransformer
  config : Config
  step : Step α

namespace PlainStep

variable {α : Type} (s : PlainStep α)

/-- The store that makes a step. -/
def store : Store Memory := Store.inMemory KeyTransformer.identity s.payloads s.config

def perform : Action Memory α := s.step.perform s.store

end PlainStep

/-- A run spares the entry of a key: whatever was to put or delete it was refused. -/
def Spares (p : Partition) (key : Key) (steps : List (Σ α : Type, PlainStep α))
    (answers : List (Σ α : Type, Except StoreError α)) : Prop :=
  List.Forall₂ (fun made answer => made.2.step.OverwritesAt p key → answer.2.isOk = false)
    steps answers

section Steps

variable {m : Memory} {α : Type} {p : Partition} {key : Key} {payload : Bytes}

theorem Step.follows_stored {S : Store Memory} (hS : S.ledger = Memory.accessor)
    (request : StoreRequest α) (hm : m.IsQuiet) :
    ((Step.request (.stored request)).perform S).answer m = (request.plan S).onMemory m :=
  request.follows hS m hm

/-- A refused put or deletion leaves the ledger as it was. -/
theorem Step.unchanged_of_refused {S : Store Memory} (hS : S.ledger = Memory.accessor)
    {step : Step α} (hover : step.OverwritesAt p key) (hm : m.IsQuiet)
    (hrefused : ((step.perform S).answer m).1.isOk = false) :
    ((step.perform S).answer m).2 = m := by
  cases step with
  | beginTx txId timestamp => cases hover
  | request r =>
    cases r with
    | scan request => cases hover
    | stored request =>
      rw [Step.follows_stored hS request hm] at hrefused ⊢
      cases hanswer : ((request.plan S).onMemory m).1 with
      | error error => exact Plan.onMemory_of_error hanswer
      | ok value =>
        rw [hanswer] at hrefused
        cases hrefused

/-- **A step that spares an entry leaves it as it is.** -/
theorem PlainStep.keeps_entry (hname : key.namespace? ≠ some Store.keyRefNamespace)
    (hpayload : payload ≠ []) (s : PlainStep α)
    (hspared : s.step.OverwritesAt p key → (s.perform.answer m).1.isOk = false) (hm : m.IsQuiet)
    (hlive : m.contents p key.parts = some payload) :
    (s.perform.answer m).2.IsQuiet ∧
      (s.perform.answer m).2.contents p key.parts = some payload := by
  by_cases hover : s.step.OverwritesAt p key
  · have hsame : (s.perform.answer m).2 = m :=
      Step.unchanged_of_refused rfl hover hm (hspared hover)
    rw [hsame]
    exact ⟨hm, hlive⟩
  · exact s.step.keeps_entry (S := s.store) rfl rfl hname hpayload hover hm hlive

/-- **A run that spares an entry leaves it as it is.** -/
theorem run_keeps_spared (hname : key.namespace? ≠ some Store.keyRefNamespace)
    (hpayload : payload ≠ []) (steps : List (Σ α : Type, PlainStep α)) (hm : m.IsQuiet)
    (hlive : m.contents p key.parts = some payload) :
    let ran := runAll (fun s => s.perform.answer) steps m
    Spares p key steps ran.1 → ran.2.IsQuiet ∧ ran.2.contents p key.parts = some payload := by
  induction steps generalizing m with
  | nil => exact fun _ => ⟨hm, hlive⟩
  | cons made rest ih =>
    obtain ⟨α, s⟩ := made
    intro ran hspares
    obtain ⟨hspared, hrest⟩ := List.forall₂_cons.mp hspares
    obtain ⟨hquiet, hnext⟩ := s.keeps_entry hname hpayload hspared hm hlive
    exact ih hquiet hnext hrest

/-! ### Records stay -/

theorem Memory.log_suffix_apply (m : Memory) (change : Mutation) (text : String) :
    m.log text <:+ (m.apply change).log text := by
  rw [Memory.log_apply]
  split
  · exact List.suffix_cons _ _
  · exact List.suffix_rfl

/-- A step adds to the records of a key, and takes none away. -/
theorem Step.log_suffix {S : Store Memory} (hS : S.ledger = Memory.accessor) (step : Step α)
    (hm : m.IsQuiet) (text : String) :
    ((step.perform S).answer m).2.IsQuiet ∧
      m.log text <:+ ((step.perform S).answer m).2.log text := by
  cases step with
  | beginTx txId timestamp => exact ⟨⟨hm.reads, hm.rows⟩, List.suffix_rfl⟩
  | request r =>
    refine ⟨(r.effect hS hm).1, ?_⟩
    cases r with
    | scan request =>
      have hlog := congrArg (fun m : Memory => m.log text) (request.data_perform hS m)
      exact ⟨[], hlog.symm⟩
    | stored request =>
      rw [Step.follows_stored hS request hm]
      rcases (request.plan S).onMemory_cases m with hsame | ⟨change, hchange⟩
      · have hlog := congrArg (fun m : Memory => m.log text) hsame
        exact ⟨[], hlog.symm⟩
      · rw [hchange]
        exact m.log_suffix_apply change text

/-- **A run adds to the records of a key, and takes none away.** -/
theorem run_log_suffix (steps : List (Σ α : Type, PlainStep α)) (hm : m.IsQuiet) (text : String) :
    let ran := (runAll (fun s => s.perform.answer) steps m).2
    ran.IsQuiet ∧ m.log text <:+ ran.log text := by
  refine runAll_induction _
    (motive := fun ran : Memory => ran.IsQuiet ∧ m.log text <:+ ran.log text) ?_ steps
    ⟨hm, List.suffix_rfl⟩
  rintro α s state ⟨hquiet, hsuffix⟩
  obtain ⟨hquiet', hlonger⟩ := s.step.log_suffix (S := s.store) rfl hquiet text
  exact ⟨hquiet', hsuffix.trans hlonger⟩

end Steps

/-! ### Every way to read an entry -/

/-- An answer with one value for each row, among them a given one in the place of a given
    row: the other rows are read as ever, and a failure is the failure of one of them. -/
def GivesInPlace {ρ β : Type} (read : ρ → Except StoreError β) (rows : List ρ) (row : ρ)
    (value : β) (answer : Except StoreError (List β)) : Prop :=
  ∃ before after, rows = before ++ row :: after ∧
    answer = do
      let first ← before.mapM read
      let last ← after.mapM read
      return first ++ value :: last

theorem givesInPlace_of_mem {ρ β : Type} {read : ρ → Except StoreError β} {rows : List ρ} {row : ρ}
    {value : β} (hrow : row ∈ rows) (hvalue : read row = .ok value) :
    GivesInPlace read rows row value (rows.mapM read) := by
  obtain ⟨before, after, rfl⟩ := List.append_of_mem hrow
  refine ⟨before, after, rfl, ?_⟩
  rw [List.mapM_append, List.mapM_cons, hvalue]
  cases before.mapM read with
  | error error => rfl
  | ok first => cases after.mapM read <;> rfl

/-- The listing that reads the rows of a partition under a prefix. -/
def Partition.listing (p : Partition) (root : KeySource) : ValueScan :=
  match p with
  | .world => .list root
  | .collection name => .listPrivate name root

/-- In whatever way a store reads the entry of a key, it gives one value. -/
structure Store.ReadsAs {α : Type} (S : Store Memory) (m : Memory) (p : Partition)
    (key : ResolvedKey) (codec : Codec α) (value : α) : Prop where
  get {source : KeySource} (h : S.resolve source = .ok key) :
    ((S.get p source codec).answer m).1 = .ok value
  get? {source : KeySource} (h : S.resolve source = .ok key) :
    ((S.get? p source codec).answer m).1 = .ok (some value)
  getD {source : KeySource} (h : S.resolve source = .ok key) (default : α) :
    ((S.getD p source codec default).answer m).1 = .ok value
  /-- A scan that reads the row of the key gives the value in its place. -/
  scan {scan : ValueScan} {rows : List Row} {row : Row} (hpartition : scan.partition = p)
    (hrows : scan.rows S m = .ok rows) (hrow : row ∈ rows) (hkey : row.key = key.encoded) :
    GivesInPlace (S.readRow codec) rows row value (scan.values S codec m)
  /-- The listing under a prefix of the key reads its row. -/
  listed {root : KeySource} {objectType : String} {attributes : List String}
    (hroot : S.listingPrefix root = .ok (objectType, attributes))
    (hmany : 2 ≤ key.parts.parts.length) (hunder : objectType :: attributes <+: key.parts.parts) :
    ∃ rows, (p.listing root).rows S m = .ok rows ∧ ∃ row ∈ rows, row.key = key.encoded
  /-- A listing by the public keys gives the private value in the place of the key. -/
  mirrored {collection : String} {root : KeySource} {objectType : String}
    {attributes : List String} (hpartition : p = .collection collection)
    (hroot : S.listingPrefix root = .ok (objectType, attributes))
    (hmany : 2 ≤ key.parts.parts.length) (hunder : objectType :: attributes <+: key.parts.parts)
    (hpublic : (m.stored? .world key.encoded).isSome) :
    GivesInPlace (S.privateValue m collection codec)
      (m.keysBetween .world (Composite.rangeStart objectType attributes)
        (Composite.rangeStop objectType attributes))
      key.encoded value ((S.listPrivateWith collection .publicKeys root codec).answer m).1

section Reading

variable {S : Store Memory} {m : Memory} {α : Type} {p : Partition} {source : KeySource}
  {codec : Codec α} {value : α} {place : Place} {payload : Bytes}

theorem locate_of_resolve (hS : S.ledger = Memory.accessor)
    (h : S.resolve source = .ok place.resolved) : S.locate source = .ok place := by
  rw [Store.resolve_eq (by rw [hS]; rfl)] at h
  obtain ⟨found, hfound, hsame⟩ := map_eq_ok_iff.mp h
  obtain ⟨horigin, hkey, -⟩ := ResolvedKey.mk.inj hsame
  obtain ⟨origin, key, storable⟩ := found
  obtain ⟨origin', key', storable'⟩ := place
  cases horigin
  cases hkey
  exact hfound

theorem get?_of_live (hplace : S.locate source = .ok place) (hpayload : payload ≠ [])
    (hlive : m.contents p place.key.parts = some payload)
    (hvalue : S.decodeValue codec payload = .ok value) :
    m.contents.get? S p source codec = .ok (some value) :=
  bind_eq_ok_iff.mpr ⟨place, hplace, valueAt_of_live hpayload hlive hvalue⟩

/-- **An entry that is there is read back in every way.** -/
theorem readsAs_of_live (hS : S.ledger = Memory.accessor) (hm : m.IsQuiet) (hpayload : payload ≠ [])
    (hlive : m.contents p place.key.parts = some payload)
    (hvalue : S.decodeValue codec payload = .ok value) :
    S.ReadsAs m p place.resolved codec value := by
  have hstored : m.stored? p place.key.spell = some payload := by
    rw [← m.contents_of_storable p place.storable]
    exact hlive
  have hrow : S.decodeRow codec place.key.spell payload = .ok value := mapError_eq_ok_iff.mpr hvalue
  -- Point reads follow the contents, scans follow the rows that are stored; the entry is in both.
  constructor
  case get =>
    intro source hsource
    exact answer_get_of_live hS hm (locate_of_resolve hS hsource) hpayload hlive hvalue
  case get? =>
    intro source hsource
    have hfound := get?_of_live (locate_of_resolve hS hsource) hpayload hlive hvalue
    rw [follows_get? hS p source codec m hm, Plan.onMemory_reading, hfound]
  case getD =>
    intro source hsource default
    have hfound := get?_of_live (locate_of_resolve hS hsource) hpayload hlive hvalue
    rw [follows_getD hS p source codec default m hm, Plan.onMemory_reading, hfound]
    rfl
  case scan =>
    intro scan rows row hpartition hrows hmem hkey
    -- Any row under this key is the stored one, so its value is the one that was put.
    have hsame := ValueScan.stored_of_mem_rows hm hrows hmem
    rw [hpartition, hkey, show place.resolved.encoded = place.key.spell from rfl, hstored] at hsame
    rw [scan.values_eq hS hm codec, hrows]
    refine givesInPlace_of_mem hmem ?_
    rw [Store.readRow, hkey, ← Option.some.inj hsame]
    exact hrow
  case listed =>
    intro root objectType attributes hroot hmany hunder
    have hplain := plain_of_listingPrefix hroot
    have hrange := (Key.spell_mem_range_iff hplain place.storable).mpr ⟨hmany, hunder⟩
    refine ⟨m.rowsBetween p (Composite.rangeStart objectType attributes)
      (Composite.rangeStop objectType attributes), ?_, ⟨place.key.spell, payload⟩,
      Memory.mem_rowsBetween.mpr ⟨hstored, hrange⟩, rfl⟩
    have hfound := Opening.found_scan hm p hplain
    cases p with
    | world => exact bind_eq_ok_iff.mpr ⟨_, hroot, hfound⟩
    | collection name => exact bind_eq_ok_iff.mpr ⟨_, hroot, hfound⟩
  case mirrored =>
    rintro collection root objectType attributes rfl hroot hmany hunder hpublic
    have hplain := plain_of_listingPrefix hroot
    have hrange := (Key.spell_mem_range_iff hplain place.storable).mpr ⟨hmany, hunder⟩
    show GivesInPlace _ _ _ _ (S.listPrivateWith collection .publicKeys root codec m).result
    rw [result_listPrivateWith hroot, privateItems_publicKeys hS hm hplain]
    refine givesInPlace_of_mem (Memory.mem_keysBetween.mpr ⟨hrange, hpublic⟩) ?_
    exact (privateValue_of_stored hstored hpayload).trans hrow

theorem historyEntry_of_written (hpayload : payload ≠ [])
    (hvalue : S.decodeValue codec payload = .ok value) (key : ResolvedKey) (txId : String)
    (timestamp : Int) :
    S.historyEntry key codec ⟨txId, timestamp, false, payload⟩ =
      .ok ⟨txId, timestamp, false, some value⟩ := by
  unfold Store.historyEntry
  rw [if_neg (by simpa using hpayload), hvalue]

/-- **Behind a run an entry that was set is read back**: in every way as long as the run
    spares it, and in the history of a public key for good. -/
theorem reads_back_of_set (hS : S.ledger = Memory.accessor) (hm : m.IsQuiet)
    (hname : place.key.namespace? ≠ some Store.keyRefNamespace)
    (hparts : place.key.parts ≠ [""]) (hpayload : payload ≠ [])
    (hvalue : S.decodeValue codec payload = .ok value) (steps : List (Σ α : Type, PlainStep α)) :
    let ran := runAll (fun s => s.perform.answer) steps (m.apply (place.setting p hparts payload))
    (Spares p place.key steps ran.1 → S.ReadsAs ran.2 p place.resolved codec value) ∧
      (p = .world → ∀ source, S.resolve source = .ok place.resolved →
        let written : Modification := ⟨m.txId, m.timestamp, false, payload⟩
        written :: m.log place.key.spell <:+ ran.2.log place.key.spell ∧
          GivesInPlace (S.historyEntry place.resolved codec) (ran.2.log place.key.spell) written
            ⟨m.txId, m.timestamp, false, some value⟩
            ((S.history source codec).answer ran.2).1) := by
  intro ran
  have hquiet : (m.apply (place.setting p hparts payload)).IsQuiet := hm.apply _
  constructor
  · intro hspares
    have hlive : (m.apply (place.setting p hparts payload)).contents p place.key.parts =
        some payload := by
      rw [Memory.contents_apply]
      exact Contents.apply_same m.contents (place.setting p hparts payload)
    obtain ⟨hquiet, hlive⟩ := run_keeps_spared hname hpayload steps hquiet hlive hspares
    exact readsAs_of_live hS hquiet hpayload hlive hvalue
  · rintro rfl source hsource written
    -- A history only grows at its new end, so the record of this put is never lost.
    obtain ⟨hquiet, hsuffix⟩ := run_log_suffix steps hquiet place.key.spell
    have hlog : (m.apply (place.setting .world hparts payload)).log place.key.spell =
        written :: m.log place.key.spell := by
      rw [Memory.log_apply]
      exact if_pos ⟨rfl, rfl⟩
    rw [hlog] at hsuffix
    refine ⟨hsuffix, ?_⟩
    rw [answer_history hS hquiet hsource codec]
    exact givesInPlace_of_mem (hsuffix.subset List.mem_cons_self)
      (historyEntry_of_written hpayload hvalue _ _ _)

end Reading

/-- **What a put accepts, the store gives back.**  Take a store that keeps keys as they are and
    keeps payloads as they are or seals them, over any ledger in memory that is not told to
    fail, and put a value of a plain shape under a key that can hold one and is outside the
    namespace of the key references.  The put succeeds just if the transformed payload is
    within the bound, and changes nothing if it is refused.

    If it succeeds and the stored payload is not empty, then behind any run of steps, whatever
    payload transformers and bounds their stores have, a store with the same transformers and
    a bound that is no smaller reads the value back: every request for the entry and every
    scan of its row gives it as long as no step of the run has put or deleted the entry
    again, and the history of a public key gives it for good. -/
theorem put_reads_back {α : Type} (payloads : PayloadTransformer) (config : Config) (m : Memory)
    (p : Partition) (source : KeySource) (key : ResolvedKey) (shape : PlainShape α) (value : α) :
    let S := Store.inMemory KeyTransformer.identity payloads config
    let put := (S.put p source shape.codec value).answer m
    (payloads = PayloadTransformer.identity ∨ payloads = PayloadTransformer.digestEnvelope) →
      m.IsQuiet → S.resolve source = .ok key → key.encoded ≠ "" →
      key.origin.namespace? ≠ some Store.keyRefNamespace → shape.IsExact value →
      ∃ stored, (shape.codec.encode value >>= payloads.encode) = .ok stored ∧
        (put.1 = .ok () ↔ stored.length ≤ config.maxValueBytes) ∧
        (put.1 ≠ .ok () → put.2 = m) ∧
        (put.1 = .ok () → stored ≠ [] →
          ∀ (steps : List (Σ α : Type, PlainStep α)) (later : Config),
            config.maxValueBytes ≤ later.maxValueBytes →
            let ran := runAll (fun s => s.perform.answer) steps put.2
            let S' := Store.inMemory KeyTransformer.identity payloads later
            (Spares p key.parts steps ran.1 → S'.ReadsAs ran.2 p key shape.codec value) ∧
            (p = .world → ∀ reading, S'.resolve reading = .ok key →
              let written : Modification := ⟨m.txId, m.timestamp, false, stored⟩
              written :: m.log key.encoded <:+ ran.2.log key.encoded ∧
                GivesInPlace (S'.historyEntry key shape.codec) (ran.2.log key.encoded) written
                  ⟨m.txId, m.timestamp, false, some value⟩
                  ((S'.history reading shape.codec).answer ran.2).1)) := by
  intro S put hpayloads hm hkey hencoded hname hexact
  have hlossless : payloads.IsLossless := by
    rcases hpayloads with rfl | rfl
    · exact PayloadTransformer.isLossless_identity
    · exact PayloadTransformer.isLossless_digestEnvelope
  obtain ⟨payload, hpayload⟩ := shape.exists_encode value
  have hdecoded := shape.decode_of_exact hexact hpayload
  obtain ⟨stored, hstored, -⟩ := hlossless payload
  -- the key is that of a place, and the ledger can hold something there
  have hlocated := hkey
  rw [Store.resolve_eq rfl] at hlocated
  obtain ⟨place, hplace, rfl⟩ := map_eq_ok_iff.mp hlocated
  have hidentity : place.origin = place.key := Except.ok.inj (Store.locate_eq_ok hplace).2
  have hparts : place.key.parts ≠ [""] := mt (Key.spell_eq_empty_iff place.storable).mpr hencoded
  have hput : put = if config.maxValueBytes < stored.length then
      (.error (.encode (Store.oversized stored.length config.maxValueBytes)), m)
    else (.ok (), m.apply (place.setting p hparts stored)) :=
    answer_put_of_stored rfl hm (Store.locateWritable_eq_ok_iff.mpr ⟨hplace, hname⟩) hparts
      hpayload hstored
  refine ⟨stored, bind_eq_ok_iff.mpr ⟨payload, hpayload, hstored⟩, ?_⟩
  clear_value put
  by_cases hlong : config.maxValueBytes < stored.length
  · obtain rfl := hput.trans (if_pos hlong)
    exact ⟨⟨nofun, fun hfits => absurd hlong (Nat.not_lt.mpr hfits)⟩, fun _ => rfl, nofun⟩
  · obtain rfl := hput.trans (if_neg hlong)
    refine ⟨⟨fun _ => Nat.not_lt.mp hlong, fun _ => rfl⟩, fun hrefused => absurd rfl hrefused, ?_⟩
    intro _ hpresent steps later hlater ran S'
    have hfits : ¬ later.maxValueBytes < stored.length := by omega
    have hencode : S'.encodeValue shape.codec value = .ok stored :=
      (Store.encodeValue_eq hpayload hstored).trans (if_neg hfits)
    obtain ⟨hvalue, -⟩ := Store.decodeValue_encodeValue hlossless hpayload hdecoded hencode
    exact reads_back_of_set rfl hm (hidentity ▸ hname) hparts hpresent hvalue steps

/-- A sealed text that fills its bound, behind a longer text that was refused and a second
    book: a store with a larger bound reads it, also in the place of its row in the listing
    of the books. -/
theorem put_reads_back_sealed :
    let S (bound : Nat) := Store.inMemory KeyTransformer.identity
      PayloadTransformer.digestEnvelope { maxValueBytes := bound }
    let book (number : String) : KeySource := .given ⟨["BOOK", number]⟩
    let putting (bound : Nat) (number title : String) : Σ α : Type, PlainStep α :=
      ⟨Unit, PayloadTransformer.digestEnvelope, { maxValueBytes := bound },
        .request (.stored (.entry (.put .world (book number) Codec.text title)))⟩
    let put := ((S 36).put .world (book "1") Codec.text "Dune").answer
      (Memory.fresh false "tx-0" 0)
    let ran := runAll (fun s => s.perform.answer)
      [putting 36 "1" "Middlemarch", putting 40 "2" "Emma"] put.2
    put.1 = .ok () ∧
      (((S 40).get .world (book "1") Codec.text).answer ran.2).1 = .ok "Dune" ∧
      ∃ rows row, row ∈ rows ∧ row.key = (Key.mk ["BOOK", "1"]).spell ∧
        GivesInPlace ((S 40).readRow Codec.text) rows row "Dune"
          (((S 40).list (.given ⟨["BOOK"]⟩) Codec.text).answer ran.2).1 := by
  intro S book putting put ran
  obtain ⟨stored, hstored, hfits, -, hread⟩ := put_reads_back PayloadTransformer.digestEnvelope
    { maxValueBytes := 36 } (Memory.fresh false "tx-0" 0) .world (book "1")
    ⟨⟨["BOOK", "1"]⟩, ⟨["BOOK", "1"]⟩, (Key.mk ["BOOK", "1"]).spell⟩ .text "Dune" (.inr rfl)
    (Memory.isQuiet_fresh false "tx-0" 0) rfl (by decide +kernel) (by decide) trivial
  obtain rfl := Except.ok.inj hstored
  have hput : put.1 = .ok () := hfits.mpr (by decide +kernel)
  obtain ⟨hreads, -⟩ := hread hput (by decide +kernel)
    [putting 36 "1" "Middlemarch", putting 40 "2" "Emma"] { maxValueBytes := 40 } (by decide)
  -- The refused put counts for nothing, and the other book has another key.
  have hspares : Spares .world ⟨["BOOK", "1"]⟩
      [putting 36 "1" "Middlemarch", putting 40 "2" "Emma"] ran.1 := by
    refine .cons (fun _ => ?_) (.cons (fun hover => ?_) .nil)
    · decide +kernel
    · have hsame : (Except.ok ⟨["BOOK", "2"]⟩ : Except StoreError Key) = .ok ⟨["BOOK", "1"]⟩ :=
        hover.2.2
      exact absurd hsame (by decide)
  have hback := hreads hspares
  have hroot : (S 40).listingPrefix (.given ⟨["BOOK"]⟩) = .ok ("BOOK", []) := rfl
  obtain ⟨rows, hrows, row, hrow, hkey⟩ := hback.listed hroot (by decide) (by decide)
  have hworld : (ValueScan.list (.given ⟨["BOOK"]⟩)).partition = .world := rfl
  have hlisted := hback.scan hworld hrows hrow hkey
  exact ⟨hput, hback.get rfl, rows, row, hrow, hkey, hlisted⟩

end EntityStore
