/-
  EntityStore/Proofs/Store/Prefixes.lean
  ======================================
  **Listing prefixes are checked before the ledger, and like keys.**

  `PrefixFault` says what can be wrong with the parts of a prefix, and which failure tells
  it.  A listing is refused just for these faults (`Store.listingPrefix_eq_error_iff`), and
  where a prefix has several parts the same check stands in front of a point read
  (`Store.resolve_eq_error_iff`).  A refused request does nothing to the ledger, and an
  accepted one opens a cursor (`ScanRequest.perform_opens`).
-/
import EntityStore.Proofs.Key.Hiding
import EntityStore.Proofs.Store.Accounts
import EntityStore.Proofs.Store.Cursor

namespace EntityStore

open EntityStore.Action

variable {σ α β : Type}

/-! ### What can be wrong with parts -/

namespace Composite

/-- The failure that tells the first reserved rune of a part. -/
inductive PartFault (part : String) : StoreError → Prop
  | holdsSeparator {before after : List Char} (hpart : part.toList = before ++ separator :: after)
    (hbefore : ∀ c ∈ before, c ≠ separator ∧ c ≠ lastRune) :
    PartFault part (.invalidKeyPart part "contains the composite separator U+0000")
  | holdsLastRune {before after : List Char} (hpart : part.toList = before ++ lastRune :: after)
    (hbefore : ∀ c ∈ before, c ≠ separator ∧ c ≠ lastRune) :
    PartFault part (.invalidKeyPart part "contains the range terminator U+10FFFF")

/-- The failure that tells what is wrong with the parts of a prefix: there are none, or the
    first part that is not plain. -/
inductive PrefixFault : List String → StoreError → Prop
  | noParts : PrefixFault [] .emptyKey
  | atPart {before after : List String} {part : String} {error : StoreError}
    (hbefore : ∀ other ∈ before, IsPlain other) (hpart : PartFault part error) :
    PrefixFault (before ++ part :: after) error

theorem find?_isReserved_iff {cs : List Char} {rune : Char} :
    cs.find? isReserved = some rune ↔
      (rune = separator ∨ rune = lastRune) ∧
        ∃ before after, cs = before ++ rune :: after ∧
          ∀ c ∈ before, c ≠ separator ∧ c ≠ lastRune := by
  simp [List.find?_eq_some_iff_append, isReserved]

theorem partFault_iff {part : String} {error : StoreError} :
    PartFault part error ↔
      ∃ rune, part.toList.find? isReserved = some rune ∧
        error = (CompositeError.reservedRune part rune.toNat).toStoreError := by
  constructor
  · intro h
    cases h with
    | holdsSeparator hpart hbefore =>
      exact ⟨separator, find?_isReserved_iff.mpr ⟨.inl rfl, _, _, hpart, hbefore⟩, rfl⟩
    | holdsLastRune hpart hbefore =>
      exact ⟨lastRune, find?_isReserved_iff.mpr ⟨.inr rfl, _, _, hpart, hbefore⟩, rfl⟩
  · rintro ⟨rune, hrune, rfl⟩
    obtain ⟨rfl | rfl, before, after, hpart, hbefore⟩ := find?_isReserved_iff.mp hrune
    · exact .holdsSeparator hpart hbefore
    · exact .holdsLastRune hpart hbefore

theorem PartFault.not_isPlain {part : String} {error : StoreError} (h : PartFault part error) :
    ¬ IsPlain part := by
  intro hplain
  cases h with
  | holdsSeparator hpart _ => exact (hplain separator (by simp [hpart])).1 rfl
  | holdsLastRune hpart _ => exact (hplain lastRune (by simp [hpart])).2 rfl

theorem checkPart_eq_error_iff {part : String} {error : StoreError} :
    (checkPart part).mapError CompositeError.toStoreError = .error error ↔
      PartFault part error := by
  rw [partFault_iff, checkPart]
  cases part.toList.find? isReserved with
  | none => simp [Except.mapError]
  | some rune => simp [Except.mapError, eq_comm]

theorem checkParts_eq_error_iff {parts : List String} {error : StoreError} :
    (checkParts parts).mapError CompositeError.toStoreError = .error error ↔
      ∃ before part after, parts = before ++ part :: after ∧
        (∀ other ∈ before, IsPlain other) ∧ PartFault part error := by
  induction parts with
  | nil => simp [checkParts, Except.mapError]
  | cons first rest ih =>
    rw [checkParts]
    cases hfirst : checkPart first with
    | error fault =>
      -- the first part is the faulty one, so nothing can stand in front of it
      have hiff : (Except.error fault).mapError CompositeError.toStoreError = .error error ↔
          PartFault first error := hfirst ▸ checkPart_eq_error_iff
      refine hiff.trans ?_
      constructor
      · exact fun h => ⟨[], first, rest, rfl, List.forall_mem_nil _, h⟩
      · rintro ⟨_ | ⟨other, before⟩, part, after, hparts, hbefore, hpart⟩
        · obtain ⟨rfl, -⟩ := List.cons.inj hparts
          exact hpart
        · obtain ⟨rfl, -⟩ := List.cons.inj hparts
          have hplain := checkPart_eq_ok_iff.mpr (hbefore first List.mem_cons_self)
          cases hfirst.symm.trans hplain
    | ok _ =>
      have hplain : IsPlain first := checkPart_eq_ok_iff.mp hfirst
      rw [ih]
      constructor
      · rintro ⟨before, part, after, rfl, hbefore, hpart⟩
        exact ⟨first :: before, part, after, rfl, List.forall_mem_cons.mpr ⟨hplain, hbefore⟩, hpart⟩
      · rintro ⟨_ | ⟨other, before⟩, part, after, hparts, hbefore, hpart⟩
        · obtain ⟨rfl, -⟩ := List.cons.inj hparts
          exact absurd hplain hpart.not_isPlain
        · obtain ⟨rfl, rfl⟩ := List.cons.inj hparts
          exact ⟨before, part, after, rfl, (List.forall_mem_cons.mp hbefore).2, hpart⟩

/-- Where there are parts, the check of each of them is all that is done. -/
theorem prefixFault_iff {parts : List String} (h : parts ≠ []) {error : StoreError} :
    PrefixFault parts error ↔
      (checkParts parts).mapError CompositeError.toStoreError = .error error := by
  rw [checkParts_eq_error_iff]
  constructor
  · intro hfault
    cases hfault with
    | noParts => exact absurd rfl h
    | atPart hbefore hpart => exact ⟨_, _, _, rfl, hbefore, hpart⟩
  · rintro ⟨before, part, after, rfl, hbefore, hpart⟩
    exact .atPart hbefore hpart

theorem prefixFault_nil_iff {error : StoreError} : PrefixFault [] error ↔ error = .emptyKey := by
  constructor
  · intro hfault
    generalize hparts : ([] : List String) = parts at hfault
    cases hfault with
    | noParts => rfl
    | atPart _ _ => simp at hparts
  · rintro rfl
    exact .noParts

end Composite

open Composite

/-! ### The parts that a store looks for -/

/-- The parts under which a store with one of the two key transformers looks for a key. -/
inductive KeyTransformer.LooksFor : KeyTransformer → Key → List String → Prop
  | plain (origin : Key) : LooksFor identity origin origin.parts
  | hidden (origin : Key) : LooksFor hashed origin origin.hide.parts

/-- Only a key without parts can be refused by the transformer itself. -/
theorem KeyTransformer.LooksFor.keys_eq {T : KeyTransformer} {origin : Key} {parts : List String}
    (h : T.LooksFor origin parts) :
    T origin = .ok ⟨parts⟩ ∨ parts = [] ∧ T origin = .error .emptyKey := by
  cases h with
  | plain => exact .inl rfl
  | hidden =>
    rcases origin with ⟨_ | ⟨name, rest⟩⟩
    · exact .inr ⟨rfl, rfl⟩
    · exact .inl rfl

namespace Store

variable {S : Store σ} {source : KeySource} {origin : Key} {parts : List String}
  {error : StoreError}

theorem listingPrefix_of_empty (horigin : source.normalize = .ok origin)
    (hparts : S.keys.LooksFor origin []) : S.listingPrefix source = .error .emptyKey := by
  obtain hkeys | ⟨-, hkeys⟩ := hparts.keys_eq <;>
    simp only [listingPrefix, horigin, hkeys, bind, Except.bind]

theorem listingPrefix_cons {objectType : String} {attributes : List String}
    (horigin : source.normalize = .ok origin)
    (hparts : S.keys.LooksFor origin (objectType :: attributes)) :
    S.listingPrefix source =
      ((checkParts (objectType :: attributes)).mapError CompositeError.toStoreError).map
        fun _ => (objectType, attributes) := by
  obtain hkeys | ⟨hempty, -⟩ := hparts.keys_eq
  · simp only [listingPrefix, horigin, hkeys, bind, Except.bind, encode]
    cases checkParts (objectType :: attributes) <;> rfl
  · cases hempty

theorem listingPrefix_eq_error_iff (horigin : source.normalize = .ok origin)
    (hparts : S.keys.LooksFor origin parts) :
    S.listingPrefix source = .error error ↔ PrefixFault parts error := by
  rcases parts with _ | ⟨objectType, attributes⟩
  · rw [listingPrefix_of_empty horigin hparts, prefixFault_nil_iff, Except.error.injEq, eq_comm]
  · rw [listingPrefix_cons horigin hparts, prefixFault_iff (List.cons_ne_nil _ _),
      map_eq_error_iff]

theorem exists_listingPrefix_iff (horigin : source.normalize = .ok origin)
    (hparts : S.keys.LooksFor origin parts) :
    (∃ found, S.listingPrefix source = .ok found) ↔
      parts ≠ [] ∧ ∀ part ∈ parts, IsPlain part := by
  rcases parts with _ | ⟨objectType, attributes⟩
  · simp [listingPrefix_of_empty horigin hparts]
  · rw [listingPrefix_cons horigin hparts, ← checkParts_eq_ok_iff]
    cases checkParts (objectType :: attributes) <;> simp [Except.mapError, Except.map]

/-- A key of several parts is refused for what would be wrong with it as a prefix. -/
theorem resolve_eq_error_iff (hjoin : S.ledger.joinKey = Composite.encode)
    (horigin : source.normalize = .ok origin) (hparts : S.keys.LooksFor origin parts)
    (hmany : 2 ≤ parts.length) :
    S.resolve source = .error error ↔ PrefixFault parts error := by
  have hne : parts ≠ [] := List.ne_nil_of_length_pos (by omega)
  obtain hkeys | ⟨hempty, -⟩ := hparts.keys_eq
  · have hcheck : (Key.mk parts).check =
        (checkParts parts).mapError CompositeError.toStoreError := by
      rcases parts with _ | ⟨first, _ | ⟨second, rest⟩⟩
      · simp at hmany
      · simp at hmany
      · rfl
    have hencode : (Key.mk parts).encodeWith S.ledger.joinKey =
        ((checkParts parts).mapError CompositeError.toStoreError).map
          fun _ => (Key.mk parts).spell := by
      rw [hjoin, ← hcheck]
      exact Key.encode_eq ⟨parts⟩
    rw [prefixFault_iff hne]
    simp only [resolve, horigin, hkeys, bind, Except.bind, hencode]
    cases checkParts parts <;> simp [Except.mapError, Except.map, pure, Except.pure]
  · exact absurd hempty hne

end Store

/-! ### Requests under a prefix -/

namespace ScanRequest

/-- The prefix under which a request looks, if it looks under one. -/
def root? : ScanRequest β → Option KeySource
  | .list source _ | .paginate source _ _ _ | .listPrivate _ _ source _ => some source
  | .keyRefs schema index => some (.given ⟨[Store.keyRefNamespace, schema, index]⟩)
  | .history .. | .richQuery .. | .richQueryPage .. | .query .. => none

variable {S : Store σ} {request : ScanRequest β} {source : KeySource} {error : StoreError}

/-- All that a request under a prefix checks is the prefix. -/
theorem scan_of_root? (h : request.root? = some source) :
    ∃ scan : String × List String → Scan β,
      request.scan S = (S.listingPrefix source).map scan := by
  cases request with
  | list _ _ | paginate _ _ _ _ | listPrivate _ _ _ _ | keyRefs _ _ =>
    cases h
    exact ⟨_, rfl⟩
  | history _ _ | richQuery _ _ _ | richQueryPage _ _ _ _ | query _ _ => cases h

theorem perform_of_refused (h : request.scan S = .error error) (state : σ) :
    request.perform S state = ⟨.error error, state, [.failure request.op error]⟩ := by
  rw [perform_eq, h]
  rfl

/-- What is not refused opens a cursor before it does anything else. -/
theorem perform_opens {scan : Scan β} (h : request.scan S = .ok scan) (state : σ) :
    ∃ answer behind,
      (request.perform S.recorded ⟨state, []⟩).ledger.calls = .opened answer :: behind := by
  show ∃ answer behind, ((request.perform S.recorded).answer ⟨state, []⟩).2.calls = _
  rw [perform_eq, scan_recorded, h, scanning, answer_observe]
  exact scan.run_opens S.ledger request.op ⟨state, []⟩

theorem perform_eq_refused_iff (hroot : request.root? = some source) (state : σ) :
    request.perform S.recorded ⟨state, []⟩ =
        ⟨.error error, ⟨state, []⟩, [.failure request.op error]⟩ ↔
      S.listingPrefix source = .error error := by
  obtain ⟨scan, hscan⟩ := scan_of_root? (S := S) hroot
  cases hlisting : S.listingPrefix source with
  | error fault =>
    rw [hlisting] at hscan
    have hrefused : request.scan S.recorded = .error fault :=
      (scan_recorded S request).trans hscan
    rw [perform_of_refused hrefused]
    simp
  | ok found =>
    rw [hlisting] at hscan
    obtain ⟨answer, behind, hcalls⟩ := perform_opens hscan state
    refine ⟨fun hrefused => ?_, nofun⟩
    rw [hrefused] at hcalls
    cases hcalls

theorem exists_opened_iff (hroot : request.root? = some source) (state : σ) :
    (∃ answer behind,
        (request.perform S.recorded ⟨state, []⟩).ledger.calls = .opened answer :: behind) ↔
      ∃ found, S.listingPrefix source = .ok found := by
  obtain ⟨scan, hscan⟩ := scan_of_root? (S := S) hroot
  cases hlisting : S.listingPrefix source with
  | error fault =>
    have hrefused := (perform_eq_refused_iff (S := S) hroot state).mpr hlisting
    rw [hrefused]
    simp
  | ok found =>
    rw [hlisting] at hscan
    exact ⟨fun _ => ⟨found, rfl⟩, fun _ => perform_opens hscan state⟩

end ScanRequest

namespace Store

variable {S : Store σ} {source : KeySource} {error : StoreError}

/-- A point read whose key resolves reads the ledger once. -/
theorem get_reads (p : Partition) (codec : Codec α) {key : ResolvedKey}
    (h : S.resolve source = .ok key) (state : σ) :
    ∃ answer, (S.recorded.get p source codec ⟨state, []⟩).ledger.calls =
      [.read p key.encoded answer] := by
  have hresolve : S.recorded.resolve source = .ok key := h
  have hread : (call (S.recorded.ledger.read p key.encoded)).answer ⟨state, []⟩ =
      ((S.ledger.read p key.encoded state).1.mapError .ledger,
        ⟨(S.ledger.read p key.encoded state).2,
          [.read p key.encoded (S.ledger.read p key.encoded state).1]⟩) := rfl
  refine ⟨(S.ledger.read p key.encoded state).1, ?_⟩
  show ((S.recorded.get p source codec).answer ⟨state, []⟩).2.calls = _
  simp only [get, fetch, answer_observe, answer_bind, answer_ofExcept, hresolve, hread]
  rcases S.ledger.read p key.encoded state with ⟨error | payload, next⟩
  · rfl
  · -- behind the read nothing is asked of the ledger
    simp only [Except.mapError, answer_emit]
    by_cases hempty : payload.isEmpty
    · simp only [hempty, if_true]
      rfl
    · simp only [hempty]
      cases hvalue : S.recorded.decodeValue codec payload <;> rfl

theorem get_eq_refused_iff (p : Partition) (codec : Codec α) (state : σ) :
    S.recorded.get p source codec ⟨state, []⟩ =
        ⟨.error error, ⟨state, []⟩, [.failure .get error]⟩ ↔
      S.resolve source = .error error := by
  cases hkey : S.resolve source with
  | error fault =>
    have hrefused : S.recorded.get p source codec ⟨state, []⟩ =
        ⟨.error fault, ⟨state, []⟩, [.failure .get fault]⟩ := by
      have hresolve : S.recorded.resolve source = .error fault := hkey
      unfold get fetch
      rw [hresolve]
      rfl
    rw [hrefused]
    simp
  | ok key =>
    obtain ⟨answer, hcalls⟩ := get_reads p codec hkey state
    refine ⟨fun hrefused => ?_, nofun⟩
    rw [hrefused] at hcalls
    cases hcalls

end Store

/-- **Listing prefixes are checked before the ledger, and like keys.**  Under either key
    transformer, a request under a prefix is refused just for what is wrong with the parts
    that it would look for, and then leaves the ledger as it is, uncalled.  Every other
    prefix reaches the ledger.  Where there are two parts or more, the prefix is refused
    just if the key of a point read is, with the same failure. -/
theorem malformed_prefixes_never_reach_the_ledger (S : Store σ) (state : σ)
    (request : ScanRequest β) {source : KeySource} {origin : Key} {parts : List String}
    (hroot : request.root? = some source) (horigin : source.normalize = .ok origin)
    (hparts : S.keys.LooksFor origin parts) :
    let listed := request.perform S.recorded ⟨state, []⟩
    listed.forget = request.perform S state ∧
    (∀ error, PrefixFault parts error ↔
      listed = ⟨.error error, ⟨state, []⟩, [.failure request.op error]⟩) ∧
    ((parts ≠ [] ∧ ∀ part ∈ parts, IsPlain part) ↔
      ∃ answer behind, listed.ledger.calls = .opened answer :: behind) ∧
    (S.ledger.joinKey = Composite.encode → 2 ≤ parts.length →
      ∀ {α : Type} (p : Partition) (codec : Codec α) (error : StoreError),
        let found := S.recorded.get p source codec ⟨state, []⟩
        found.forget = S.get p source codec state ∧
        (S.resolve source = .error error ↔
          listed = ⟨.error error, ⟨state, []⟩, [.failure request.op error]⟩) ∧
        (S.resolve source = .error error ↔
          found = ⟨.error error, ⟨state, []⟩, [.failure .get error]⟩)) := by
  intro listed
  have hrefused : ∀ error, PrefixFault parts error ↔
      listed = ⟨.error error, ⟨state, []⟩, [.failure request.op error]⟩ := by
    intro error
    rw [ScanRequest.perform_eq_refused_iff hroot state,
      Store.listingPrefix_eq_error_iff horigin hparts]
  refine ⟨request.mirrors_perform S ⟨state, []⟩, hrefused, ?_, ?_⟩
  · rw [ScanRequest.exists_opened_iff hroot state, Store.exists_listingPrefix_iff horigin hparts]
  · intro hjoin hmany α p codec error found
    refine ⟨S.mirrors_get p source codec ⟨state, []⟩, ?_,
      (Store.get_eq_refused_iff p codec state).symm⟩
    rw [← hrefused error, Store.resolve_eq_error_iff hjoin horigin hparts hmany]

/-- A failure waits for the next read, and the prefix with a separator in it does not
    meet it; the prefix of the namespace alone does. -/
theorem malformed_prefixes_never_reach_the_ledger_waiting :
    let S := Store.inMemory KeyTransformer.identity PayloadTransformer.identity {}
    let m := Memory.empty.failNextReads 1
    let torn : Key := ⟨["BOOK", "a\x00b"]⟩
    let books : Key := ⟨["BOOK"]⟩
    let list (key : Key) : ScanRequest (List String) := .list (.given key) Codec.text
    let error : StoreError :=
      .invalidKeyPart "a\x00b" "contains the composite separator U+0000"
    S.keys.LooksFor torn torn.parts ∧ S.keys.LooksFor books books.parts ∧
      S.ledger.joinKey = Composite.encode ∧ 2 ≤ torn.parts.length ∧
      (list torn).perform S m = ⟨.error error, m, [.failure .list error]⟩ ∧
      S.resolve (.given torn) = .error error ∧
      ∃ answer behind, ((list books).perform S.recorded ⟨m, []⟩).ledger.calls =
        .opened answer :: behind := by
  intro S m torn books list error
  have htorn : S.keys.LooksFor torn torn.parts := .plain torn
  have hbooks : S.keys.LooksFor books books.parts := .plain books
  obtain ⟨hforget, hrefused, -, hpoint⟩ :=
    malformed_prefixes_never_reach_the_ledger S m (list torn) rfl rfl htorn
  obtain ⟨-, -, hreaches, -⟩ :=
    malformed_prefixes_never_reach_the_ledger S m (list books) rfl rfl hbooks
  have hsplit : "a\x00b".toList = ['a'] ++ separator :: ['b'] := rfl
  -- The first part is plain, so the fault is that of the second.
  have hfault : PrefixFault (["BOOK"] ++ "a\x00b" :: []) error :=
    .atPart (by decide) (.holdsSeparator hsplit (List.forall_mem_singleton.mpr (by decide)))
  have hlisted := (hrefused error).mp hfault
  refine ⟨htorn, hbooks, rfl, le_refl 2, ?_, ?_, hreaches.mp ⟨nofun, by decide⟩⟩
  · rw [← hforget, hlisted]
    rfl
  · exact ((hpoint rfl (le_refl 2) .world Codec.text error).2.1).mpr hlisted

end EntityStore
