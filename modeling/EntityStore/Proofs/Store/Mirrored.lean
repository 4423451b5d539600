/-
  EntityStore/Proofs/Store/Mirrored.lean
  ======================================
  **The two ways to list a private collection.**

  One way reads the range of the collection itself; the other reads the range of the
  public keys and looks up each of them in the collection.  Neither changes more of the
  ledger than the number of its next cursor, so each comes down to one step over a list
  (`privateItems_iterator`, `privateItems_publicKeys`), and where the public keys mirror
  the collection the two lists are the same.
-/
import EntityStore.Proofs.Store.Listing
import Mathlib.Data.List.Sort

namespace EntityStore

open EntityStore.Action

/-! ### Keys of a range -/

namespace Memory

/-- The keys of a partition with `start ≤ key < stop`, in order. -/
def keysBetween (m : Memory) (p : Partition) (start stop : String) : List String :=
  (m.rowsBetween p start stop).map Row.key

variable {m : Memory} {p q : Partition} {start stop key : String}

theorem sorted_keysBetween (m : Memory) (p : Partition) (start stop : String) :
    (m.keysBetween p start stop).Pairwise (· < ·) := by
  rw [keysBetween, List.pairwise_map]
  exact m.sorted_rowsBetween p start stop

theorem mem_keysBetween :
    key ∈ m.keysBetween p start stop ↔
      (start ≤ key ∧ key < stop) ∧ (m.stored? p key).isSome := by
  rw [keysBetween, List.mem_map]
  constructor
  · rintro ⟨row, hrow, rfl⟩
    obtain ⟨hstored, hrange⟩ := mem_rowsBetween.mp hrow
    exact ⟨hrange, Option.isSome_of_eq_some hstored⟩
  · rintro ⟨hrange, hsome⟩
    obtain ⟨payload, hstored⟩ := Option.isSome_iff_exists.mp hsome
    exact ⟨⟨key, payload⟩, mem_rowsBetween.mpr ⟨hstored, hrange⟩, rfl⟩

theorem keysBetween_eq
    (h : ∀ key, start ≤ key → key < stop → ((m.stored? p key).isSome ↔ (m.stored? q key).isSome)) :
    m.keysBetween p start stop = m.keysBetween q start stop := by
  refine (m.sorted_keysBetween p start stop).eq_of_mem_iff (m.sorted_keysBetween q start stop)
    fun key => ?_
  rw [mem_keysBetween, mem_keysBetween]
  exact and_congr_right fun hrange => h key hrange.1 hrange.2

/-- The ledger behind a cursor that was opened, read and closed. -/
def afterCursor (m : Memory) : Memory :=
  { m with nextCursor := m.nextCursor + 1, failingRow := none }

theorem close_openCursor {ρ : Type} (m : Memory) (rows : List ρ) :
    { (m.openCursor rows).2 with
      openCursors := (m.openCursor rows).2.openCursors.erase m.nextCursor } = m.afterCursor := by
  simp [openCursor, afterCursor]

end Memory

section

variable {S : Store Memory} {m : Memory} {α : Type} {collection key : String}
  {objectType : String} {attributes : List String} {codec : Codec α}

/-! ### One key -/

/-- What the collection holds under a key: its value, if a payload is there that is not
    empty. -/
def Store.privateValue (S : Store Memory) (m : Memory) (collection : String) (codec : Codec α)
    (key : String) : Except StoreError α :=
  match (m.stored? (.collection collection) key).getD [] with
  | [] => .error (.notFound key)
  | payload => S.decodeRow codec key payload

/-- The collection holds a payload under a key that is not empty, and this is its value. -/
def Store.HoldsValue (S : Store Memory) (m : Memory) (collection : String) (codec : Codec α)
    (key : String) (value : α) : Prop :=
  ∃ payload, m.stored? (.collection collection) key = some payload ∧ payload ≠ [] ∧
    S.decodeValue codec payload = .ok value

/-- Nothing is stored under a key, or an empty payload is. -/
def Memory.Lacks (m : Memory) (collection key : String) : Prop :=
  m.stored? (.collection collection) key = none ∨ m.stored? (.collection collection) key = some []

theorem privateValue_of_lacks (h : m.Lacks collection key) :
    S.privateValue m collection codec key = .error (.notFound key) := by
  rcases h with h | h <;> rw [Store.privateValue, h] <;> rfl

theorem privateValue_of_stored {payload : Bytes}
    (h : m.stored? (.collection collection) key = some payload) (hpresent : payload ≠ []) :
    S.privateValue m collection codec key = S.decodeRow codec key payload := by
  obtain ⟨byte, rest, rfl⟩ := List.exists_cons_of_ne_nil hpresent
  rw [Store.privateValue, h]
  rfl

theorem privateValue_eq_ok_iff {value : α} :
    S.privateValue m collection codec key = .ok value ↔
      S.HoldsValue m collection codec key value := by
  constructor
  · intro h
    cases hstored : m.stored? (.collection collection) key with
    | none =>
      rw [privateValue_of_lacks (.inl hstored)] at h
      cases h
    | some payload =>
      by_cases hpresent : payload = []
      · subst hpresent
        rw [privateValue_of_lacks (.inr hstored)] at h
        cases h
      · rw [privateValue_of_stored hstored hpresent] at h
        exact ⟨payload, hstored, hpresent, mapError_eq_ok_iff.mp h⟩
  · rintro ⟨payload, hstored, hpresent, hvalue⟩
    rw [privateValue_of_stored hstored hpresent]
    exact mapError_eq_ok_iff.mpr hvalue

/-! ### The two ways -/

theorem call_scan (hm : m.IsQuiet) (p : Partition)
    (hplain : ∀ part ∈ objectType :: attributes, Composite.IsPlain part) :
    let rows := m.rowsBetween p (Composite.rangeStart objectType attributes)
      (Composite.rangeStop objectType attributes)
    call (Memory.accessor.scan p objectType attributes) m =
      ⟨.ok ⟨m.nextCursor, rows.map .ok⟩, (m.openCursor rows).2, []⟩ :=
  call_of_ok (Memory.scan_of_isQuiet hm p (Composite.range_eq hplain))

/-- The range of the collection: each row is decoded. -/
theorem privateItems_iterator (hS : S.ledger = Memory.accessor) (hm : m.IsQuiet)
    (hplain : ∀ part ∈ objectType :: attributes, Composite.IsPlain part) :
    S.privateItems collection .privateIterator objectType attributes codec m =
      ⟨(m.rowsBetween (.collection collection) (Composite.rangeStart objectType attributes)
          (Composite.rangeStop objectType attributes)).mapM
        (fun row => S.decodeRow codec row.key row.payload), m.afterCursor, []⟩ := by
  rw [Store.privateItems, hS, bind_of_silent (call_scan hm _ hplain), Store.decodeRows, hS,
    drain_rows List.mem_cons_self (fun _ _ => rfl) none, Memory.close_openCursor, Memory.upTo_none]

/-- The range of the public keys: each key is looked up in the collection. -/
theorem privateItems_publicKeys (hS : S.ledger = Memory.accessor) (hm : m.IsQuiet)
    (hplain : ∀ part ∈ objectType :: attributes, Composite.IsPlain part) :
    S.privateItems collection .publicKeys objectType attributes codec m =
      ⟨(m.keysBetween .world (Composite.rangeStart objectType attributes)
          (Composite.rangeStop objectType attributes)).mapM (S.privateValue m collection codec),
        m.afterCursor, []⟩ := by
  have heach (rows : List Row) (row : Row) :
      S.privateValueAt collection codec row (m.openCursor rows).2 =
        ⟨S.privateValue m collection codec row.key, (m.openCursor rows).2, []⟩ := by
    have hread : call (Memory.accessor.read (.collection collection) row.key)
        (m.openCursor rows).2 =
          ⟨.ok ((m.stored? (.collection collection) row.key).getD []), (m.openCursor rows).2, []⟩ :=
      call_of_ok (Memory.read_of_isQuiet (hm.openCursor rows) _ _)
    rw [Store.privateValueAt, hS, bind_of_silent hread, Store.privateValue]
    cases (m.stored? (.collection collection) row.key).getD [] <;> rfl
  rw [Store.privateItems, hS, bind_of_silent (call_scan hm _ hplain),
    drain_rows List.mem_cons_self (fun row _ => heach _ row) none, Memory.close_openCursor,
    Memory.upTo_none, Memory.keysBetween, List.mapM_map]
  rfl

theorem privateItems_of_mirrored (hS : S.ledger = Memory.accessor) (hm : m.IsQuiet)
    (hplain : ∀ part ∈ objectType :: attributes, Composite.IsPlain part)
    (hmirrored : ∀ key, Composite.rangeStart objectType attributes ≤ key →
      key < Composite.rangeStop objectType attributes →
        ((m.stored? .world key).isSome ↔ (m.stored? (.collection collection) key).isSome) ∧
          m.stored? (.collection collection) key ≠ some []) :
    S.privateItems collection .privateIterator objectType attributes codec m =
      S.privateItems collection .publicKeys objectType attributes codec m := by
  rw [privateItems_iterator hS hm hplain, privateItems_publicKeys hS hm hplain,
    Memory.keysBetween_eq fun key hle hlt => (hmirrored key hle hlt).1, Memory.keysBetween,
    List.mapM_map]
  congr 1
  refine mapM_congr fun row hrow => ?_
  obtain ⟨hstored, hle, hlt⟩ := Memory.mem_rowsBetween.mp hrow
  have hpresent : row.payload ≠ [] := by
    intro hempty
    rw [hempty] at hstored
    exact (hmirrored row.key hle hlt).2 hstored
  exact (privateValue_of_stored hstored hpresent).symm

/-! ### Listings -/

/-- Behind its prefix a listing reports how many items it gives. -/
theorem listPrivateWith_eq {source : KeySource}
    (hlisted : S.listingPrefix source = .ok (objectType, attributes)) (way : PrivateListing) :
    S.listPrivateWith collection way source codec =
      observe .list (S.privateItems collection way objectType attributes codec >>= fun items =>
        emit (.scan .list objectType (some collection) items.length) >>= fun _ => pure items) := by
  rw [Store.listPrivateWith, hlisted]
  rfl

theorem result_listPrivateWith {source : KeySource}
    (hlisted : S.listingPrefix source = .ok (objectType, attributes)) (way : PrivateListing) :
    (S.listPrivateWith collection way source codec m).result =
      (S.privateItems collection way objectType attributes codec m).result := by
  rw [listPrivateWith_eq hlisted]
  show ((observe .list _).answer m).1 = _
  rw [answer_observe, answer_bind, answer]
  cases (S.privateItems collection way objectType attributes codec m).result <;> rfl

/-- **The two ways to list a private collection agree on mirrored data**, in what they
    answer, report and leave: if under a prefix the public keys are those of the
    collection, and no payload there is empty.

    Whether or not they mirror it, the public keys give one value each, in their order, and
    only if each of them has one.  The first that has none fails the listing: as not found
    if the collection holds nothing there or an empty payload, and else as a row that cannot
    be decoded. -/
theorem mirrored_listings_agree (hS : S.ledger = Memory.accessor) (hm : m.IsQuiet)
    (collection : String) {source : KeySource}
    (hlisted : S.listingPrefix source = .ok (objectType, attributes)) (codec : Codec α) :
    let start := Composite.rangeStart objectType attributes
    let stop := Composite.rangeStop objectType attributes
    let private? (key : String) := m.stored? (.collection collection) key
    let listed (way : PrivateListing) := S.listPrivateWith collection way source codec m
    ((∀ key, start ≤ key → key < stop →
        ((m.stored? .world key).isSome ↔ (private? key).isSome) ∧ private? key ≠ some []) →
      listed .privateIterator = listed .publicKeys) ∧
    ∃ keys : List String,
      keys.Pairwise (· < ·) ∧
      (∀ key, key ∈ keys ↔ (start ≤ key ∧ key < stop) ∧ (m.stored? .world key).isSome) ∧
      (∀ values, (listed .publicKeys).result = .ok values ↔
        List.Forall₂ (S.HoldsValue m collection codec) keys values) ∧
      (∀ before key after values, keys = before ++ key :: after →
        List.Forall₂ (S.HoldsValue m collection codec) before values →
          (m.Lacks collection key → (listed .publicKeys).result = .error (.notFound key)) ∧
          ∀ payload error, private? key = some payload → payload ≠ [] →
            S.decodeValue codec payload = .error error →
              (listed .publicKeys).result = .error
                (.unexpected ("row " ++ Text.quoted key ++ ": " ++ error.message))) ∧
      ∀ key ∈ keys, m.Lacks collection key →
        ∃ error, (listed .publicKeys).result = .error error := by
  intro start stop private? listed
  have hplain := plain_of_listingPrefix hlisted
  have hlistedKeys : (listed .publicKeys).result =
      (m.keysBetween .world start stop).mapM (S.privateValue m collection codec) := by
    show (S.listPrivateWith collection .publicKeys source codec m).result = _
    rw [result_listPrivateWith hlisted, privateItems_publicKeys hS hm hplain]
  have hvalues (keys : List String) (values : List α) :
      keys.mapM (S.privateValue m collection codec) = .ok values ↔
        List.Forall₂ (S.HoldsValue m collection codec) keys values := by
    simp only [mapM_eq_ok_iff, privateValue_eq_ok_iff]
  refine ⟨fun hmirrored => ?_, m.keysBetween .world start stop,
    m.sorted_keysBetween .world start stop, fun key => Memory.mem_keysBetween, ?_, ?_, ?_⟩
  · have hitems : S.privateItems collection .privateIterator objectType attributes codec m =
        S.privateItems collection .publicKeys objectType attributes codec m :=
      privateItems_of_mirrored hS hm hplain hmirrored
    show S.listPrivateWith collection .privateIterator source codec m =
      S.listPrivateWith collection .publicKeys source codec m
    rw [listPrivateWith_eq hlisted, listPrivateWith_eq hlisted]
    simp only [observe, bind_eq, andThen, hitems]
  · intro values
    rw [hlistedKeys, hvalues]
  · intro before key after values hkeys hbefore
    have hfails {error : StoreError} (h : S.privateValue m collection codec key = .error error) :
        (listed .publicKeys).result = .error error := by
      rw [hlistedKeys, hkeys]
      exact mapM_append_error ((hvalues before values).mpr hbefore) h
    refine ⟨fun hlacks => hfails (privateValue_of_lacks hlacks), ?_⟩
    intro payload error hstored hpresent herror
    apply hfails
    rw [privateValue_of_stored hstored hpresent, Store.decodeRow, herror]
    rfl
  · intro key hkey hlacks
    cases hresult : (listed .publicKeys).result with
    | error error => exact ⟨error, rfl⟩
    | ok values =>
      -- a value of this key would be a payload that is not there
      rw [hlistedKeys] at hresult
      obtain ⟨value, hvalue⟩ := exists_ok_of_mapM hresult key hkey
      rw [privateValue_of_lacks hlacks] at hvalue
      cases hvalue

end

/-- Two books with an audit note each: both ways list the two notes.  Without the second
    note the public keys list nothing. -/
theorem mirrored_listings_agree_notes :
    let key (number : String) := (Key.mk ["BOOK", number]).spell
    let notes : Partition := .collection "notes"
    let books := (Memory.empty.written .world (key "1") [0x61]).written .world (key "2") [0x62]
    let noted := books.written notes (key "1") [0x78]
    let both := noted.written notes (key "2") [0x79]
    let S := Store.inMemory KeyTransformer.identity PayloadTransformer.identity {}
    let listed (way : PrivateListing) :=
      S.listPrivateWith "notes" way (.given ⟨["BOOK"]⟩) Codec.bytes
    listed .privateIterator both = listed .publicKeys both ∧
      (listed .publicKeys both).result.toOption = some [[0x78], [0x79]] ∧
      ∃ error, (listed .publicKeys noted).result = .error error := by
  intro key notes books noted both S listed
  have hkeys : key "1" ≠ "" ∧ key "2" ≠ "" ∧ key "1" ≠ key "2" := by decide +kernel
  have hquiet (m : Memory) (h : m.failingReads = 0 ∧ m.failingRow = none) : m.IsQuiet := ⟨h.1, h.2⟩
  have hprefix : S.listingPrefix (.given ⟨["BOOK"]⟩) = .ok ("BOOK", []) := rfl
  refine ⟨?_, by decide +kernel, ?_⟩
  · refine (mirrored_listings_agree rfl (hquiet both ⟨rfl, rfl⟩) "notes" hprefix Codec.bytes).1 ?_
    intro other _ _
    -- Both partitions hold something under the same two keys.
    have hworld : both.stored? .world other =
        if key "2" = other then some [0x62] else if key "1" = other then some [0x61] else none := by
      simp [both, noted, books, notes, Memory.stored?_written, hkeys]
      rfl
    have hnotes : both.stored? notes other =
        if key "2" = other then some [0x79] else if key "1" = other then some [0x78] else none := by
      simp [both, noted, books, notes, Memory.stored?_written, hkeys]
      rfl
    show ((both.stored? .world other).isSome ↔ (both.stored? notes other).isSome) ∧
      both.stored? notes other ≠ some []
    rw [hworld, hnotes]
    split
    · simp
    · split <;> simp
  · obtain ⟨keys, -, hmem, -, -, hlacks⟩ :=
      (mirrored_listings_agree rfl (hquiet noted ⟨rfl, rfl⟩) "notes" hprefix Codec.bytes).2
    exact hlacks (key "2") ((hmem _).mpr (by decide +kernel)) (.inl (by decide +kernel))

end EntityStore
