/-
  EntityStore/Proofs/Store/Presence.lean
  ======================================
  **Which entries exist, for listings and for point reads.**

  A point read takes an empty payload for no entry at all; a listing takes every key that
  is stored.  So a listing gives the values that point reads give, in key order, and
  besides them an empty value for every key under which an empty payload is stored
  (`listing_without_empty_values_is_point_reads`).  Such a key counts as missing and is
  listed all the same (`missing_entry_is_listed`).
-/
import EntityStore.Proofs.Store.Listing

namespace EntityStore

open EntityStore.Action

section PointReads

variable {S : Store Memory} {m : Memory} {key : Key} {payload : Bytes}

/-! ### Point reads of a key as it is stored -/

/-- An entry exists if a payload is stored that is not empty. -/
theorem contains_iff (hS : S.ledger = Memory.accessor) (hkeys : S.keys = KeyTransformer.identity)
    (hm : m.IsQuiet) :
    ((S.contains .world (.given key)).answer m).1 = .ok true ↔
      ∃ payload, payload ≠ [] ∧ m.contents .world key.parts = some payload := by
  rw [follows_contains hS .world (.given key) m hm, Plan.onMemory_reading, Contents.contains,
    bind_eq_ok_iff]
  constructor
  · rintro ⟨place, hplace, hfound⟩
    obtain ⟨horigin, hstored⟩ := Store.locate_eq_ok hplace
    rw [hkeys] at hstored
    obtain rfl : key = place.key := (Except.ok.inj horigin).trans (Except.ok.inj hstored)
    have hpresent : m.contents.payload .world place.key ≠ [] := by
      simpa [pure, Except.pure] using hfound
    refine ⟨_, hpresent, ?_⟩
    -- A payload that is read as not empty is a stored one.
    cases hlive : m.contents .world place.key.parts with
    | none => simp [Contents.payload, hlive] at hpresent
    | some found => simp [Contents.payload, hlive]
  · rintro ⟨payload, hpresent, hlive⟩
    have hstorable := m.storable_of_contents hlive
    have hkey : S.keys key = .ok key := by rw [hkeys]; rfl
    refine ⟨_, Store.locate_given hkey hstorable, ?_⟩
    simp [Contents.payload, hlive, hpresent, pure, Except.pure]

/-- Getting an entry that exists decodes its payload. -/
theorem get_of_present (hS : S.ledger = Memory.accessor)
    (hkeys : S.keys = KeyTransformer.identity) (hm : m.IsQuiet) {α : Type} (codec : Codec α)
    (hpresent : payload ≠ []) (hlive : m.contents .world key.parts = some payload) :
    ((S.get .world (.given key) codec).answer m).1 = S.decodeValue codec payload := by
  have hstorable := m.storable_of_contents hlive
  have hkey : S.keys key = .ok key := by rw [hkeys]; rfl
  have hstored : m.contents.payload .world key = payload := by simp [Contents.payload, hlive]
  rw [follows_get hS .world (.given key) codec m hm, Plan.onMemory_reading, Contents.get,
    Store.locate_given hkey hstorable]
  show (m.contents.valueAt S .world _ codec >>= _) = _
  rw [Contents.valueAt, hstored, if_neg hpresent]
  cases S.decodeValue codec payload <;> rfl

end PointReads

/-! ### Bytes -/

section Bytes

variable {σ : Type} {S : Store σ}

/-- Bytes that are stored as they are are read as they are, within the bound. -/
theorem decodeValue_bytes_iff (hpayloads : S.payloads = PayloadTransformer.identity)
    {payload value : Bytes} :
    S.decodeValue Codec.bytes payload = .ok value ↔
      payload.length ≤ S.config.maxValueBytes ∧ value = payload := by
  rw [Store.decodeValue, hpayloads]
  by_cases hlong : S.config.maxValueBytes < payload.length
  · simp [hlong, Nat.not_le.mpr hlong]
  · rw [if_neg hlong]
    constructor
    · intro h
      cases h
      exact ⟨Nat.not_lt.mp hlong, rfl⟩
    · rintro ⟨-, rfl⟩
      rfl

theorem decodeRow_bytes_iff (hpayloads : S.payloads = PayloadTransformer.identity) {key : String}
    {payload value : Bytes} :
    S.decodeRow Codec.bytes key payload = .ok value ↔
      payload.length ≤ S.config.maxValueBytes ∧ value = payload := by
  rw [Store.decodeRow, mapError_eq_ok_iff, decodeValue_bytes_iff hpayloads]

end Bytes

/-! ### Listings against point reads -/

/-- **A listing without its empty values is what point reads give.**  Take any run of
    requests to stores that keep keys as they are, and a store behind it that keeps keys and
    payloads as they are.  The keys under a prefix that exist can be put in order; the
    prefix can be listed if all of them can be got, and then the listed values that are not
    empty are those that are got under these keys, one for each and in order.  An empty
    value is listed just if an empty payload is stored under the prefix. -/
theorem listing_without_empty_values_is_point_reads
    (requests : List (Σ α : Type, PlainRequest α)) (richQueries : Bool) (txId : String)
    (timestamp : Int) (config : Config) (source : KeySource) (root : Key)
    (hsource : source.normalize = .ok root) (hparts : root.parts ≠ [])
    (hplain : ∀ part ∈ root.parts, Composite.IsPlain part) :
    let S := Store.inMemory KeyTransformer.identity PayloadTransformer.identity config
    let ledger := (runAll (fun r => r.perform.answer) requests
      (Memory.fresh richQueries txId timestamp)).2
    let listed := ((S.list source Codec.bytes).answer ledger).1
    let got (key : Key) := ((S.get .world (.given key) Codec.bytes).answer ledger).1
    let exists? (key : Key) := ((S.contains .world (.given key)).answer ledger).1
    ∃ keys : List Key,
      keys.Pairwise (· < ·) ∧
      (∀ key, key ∈ keys ↔
        2 ≤ key.parts.length ∧ root.parts <+: key.parts ∧ exists? key = .ok true) ∧
      ((∃ values, listed = .ok values) ↔ ∃ values, keys.mapM got = .ok values) ∧
      ∀ values, listed = .ok values →
        keys.mapM got = .ok (values.filter fun value => value ≠ []) ∧
        ([] ∈ values ↔ ∃ key : Key, 2 ≤ key.parts.length ∧ root.parts <+: key.parts ∧
          ledger.contents .world key.parts = some []) := by
  intro S ledger listed got exists?
  have hquiet := Memory.isQuiet_fresh richQueries txId timestamp
  obtain ⟨hquiet', hspelled⟩ := run_isSpelled requests hquiet
    (Memory.isSpelled_fresh richQueries txId timestamp)
  obtain ⟨_ | ⟨objectType, attributes⟩⟩ := root
  · exact absurd rfl hparts
  obtain ⟨entries, hrows, hsorted, hmem⟩ := rows_of_prefix hspelled hplain
  let present := entries.filter fun entry => entry.2 ≠ []
  let fits (entry : Key × Bytes) : Prop := entry.2.length ≤ config.maxValueBytes
  have hlisted (values : List Bytes) :
      listed = .ok values ↔ (∀ entry ∈ entries, fits entry) ∧ values = entries.map Prod.snd := by
    show ((S.list source Codec.bytes).answer ledger).1 = _ ↔ _
    rw [answer_list rfl rfl hquiet' hsource hplain, hrows, List.mapM_map]
    exact mapM_eq_ok_map_iff fun entry _ value => decodeRow_bytes_iff rfl
  have hgot (values : List Bytes) : (present.map Prod.fst).mapM got = .ok values ↔
      (∀ entry ∈ present, fits entry) ∧ values = present.map Prod.snd := by
    rw [List.mapM_map]
    refine mapM_eq_ok_map_iff fun entry hentry value => ?_
    obtain ⟨hentry, hpresent⟩ := List.mem_filter.mp hentry
    have hlive := (hmem entry.1 entry.2).mp hentry
    show ((S.get .world (.given entry.1) Codec.bytes).answer ledger).1 = _ ↔ _
    rw [get_of_present rfl rfl hquiet' Codec.bytes (of_decide_eq_true hpresent) hlive.1]
    exact decodeValue_bytes_iff rfl
  -- an empty payload is within every bound
  have hfits : (∀ entry ∈ entries, fits entry) ↔ ∀ entry ∈ present, fits entry := by
    constructor
    · intro h entry hentry
      exact h entry (List.mem_of_mem_filter hentry)
    · intro h entry hentry
      by_cases hempty : entry.2 = []
      · simp [fits, hempty]
      · exact h entry (List.mem_filter.mpr ⟨hentry, decide_eq_true hempty⟩)
  refine ⟨present.map Prod.fst, ?_, ?_, ?_, ?_⟩
  · rw [List.pairwise_map]
    exact hsorted.filter _
  · intro key
    have hexists : exists? key = .ok true ↔ _ := contains_iff rfl rfl hquiet'
    rw [hexists, List.mem_map]
    constructor
    · rintro ⟨⟨key, payload⟩, hentry, rfl⟩
      obtain ⟨hentry, hpresent⟩ := List.mem_filter.mp hentry
      obtain ⟨hlive, hmany, hunder⟩ := (hmem key payload).mp hentry
      exact ⟨hmany, hunder, payload, of_decide_eq_true hpresent, hlive⟩
    · rintro ⟨hmany, hunder, payload, hpresent, hlive⟩
      have hentry := (hmem key payload).mpr ⟨hlive, hmany, hunder⟩
      exact ⟨(key, payload), List.mem_filter.mpr ⟨hentry, decide_eq_true hpresent⟩, rfl⟩
  · simp only [hlisted, hgot, hfits, exists_and_left, exists_eq, and_true]
  · intro values hvalues
    obtain ⟨hall, rfl⟩ := (hlisted values).mp hvalues
    constructor
    · rw [hgot, ← hfits]
      exact ⟨hall, List.filter_map⟩
    · constructor
      · intro hempty
        obtain ⟨⟨key, payload⟩, hentry, rfl⟩ := List.mem_map.mp hempty
        obtain ⟨hlive, hmany, hunder⟩ := (hmem key []).mp hentry
        exact ⟨key, hmany, hunder, hlive⟩
      · rintro ⟨key, hmany, hunder, hlive⟩
        exact List.mem_map.mpr ⟨(key, []), (hmem key []).mpr ⟨hlive, hmany, hunder⟩, rfl⟩

/-- Of a text and an empty text under one prefix only the first exists, and only a listing
    that leaves the second out agrees with what is got. -/
theorem listing_without_empty_values_is_point_reads_book :
    let requests : List (Σ α : Type, PlainRequest α) :=
      [("1", "Dune"), ("2", "")].map fun (number, title) =>
        ⟨Unit, ⟨PayloadTransformer.identity, {},
          .entry (.put .world (.given ⟨["BOOK", number]⟩) Codec.text title)⟩⟩
    let S := Store.inMemory KeyTransformer.identity PayloadTransformer.identity {}
    let ledger := (runAll (fun r => r.perform.answer) requests (Memory.fresh true "tx" 0)).2
    let listed := ((S.list (.given ⟨["BOOK"]⟩) Codec.bytes).answer ledger).1
    ∃ keys : List Key,
      (∀ key, key ∈ keys ↔ 2 ≤ key.parts.length ∧ ["BOOK"] <+: key.parts ∧
        ((S.contains .world (.given key)).answer ledger).1 = .ok true) ∧
      ∀ values, listed = .ok values →
        keys.mapM (fun key => ((S.get .world (.given key) Codec.bytes).answer ledger).1) =
          .ok (values.filter fun value => value ≠ []) := by
  intro requests S ledger listed
  obtain ⟨keys, -, hkeys, -, hvalues⟩ := listing_without_empty_values_is_point_reads requests true
    "tx" 0 {} (.given ⟨["BOOK"]⟩) ⟨["BOOK"]⟩ rfl (by decide) (by decide +kernel)
  exact ⟨keys, hkeys, fun values hlisted => (hvalues values hlisted).1⟩

/-- **A key that counts as missing is listed** when an empty payload is stored under it. -/
theorem missing_entry_is_listed :
    let S := Store.inMemory KeyTransformer.identity PayloadTransformer.identity {}
    let book : KeySource := .given ⟨["BOOK", "1"]⟩
    let wrote := (S.put .world book Codec.text "").answer (Memory.fresh false "tx-0" 0)
    wrote.1 = .ok () ∧
      ((S.contains .world book).answer wrote.2).1 = .ok false ∧
      ((S.get .world book Codec.bytes).answer wrote.2).1 = .error (.notFound "BOOK | 1") ∧
      ((S.list (.given ⟨["BOOK"]⟩) Codec.bytes).answer wrote.2).1 = .ok [[]] := by
  exact ⟨rfl, rfl, rfl, rfl⟩

end EntityStore
