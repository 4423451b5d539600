/-
  EntityStore/Proofs/Store/Listing.lean
  =====================================
  **Listings are exact and in key order.**

  A listing reads a range of encoded keys.  Every key that a store writes is the
  spelling of a checked key (`Memory.IsSpelled`), so the rows of the range are the
  entries whose parts begin with those of the prefix, in the order of their keys.
-/
import EntityStore.Proofs.Key.Range
import EntityStore.Proofs.KeyRef.Request
import EntityStore.Proofs.Store.Draining
import EntityStore.Store.Listing

namespace EntityStore

open EntityStore.Action

/-! ### Every stored key is a spelling -/

/-- Every key of every partition is the spelling of a key that the ledger can hold. -/
def Memory.IsSpelled (m : Memory) : Prop :=
  ∀ (p : Partition) (text : String) (payload : Bytes), m.stored? p text = some payload →
    ∃ key : Key, key.IsStorable ∧ key.spell = text

theorem Memory.isSpelled_fresh (richQueries : Bool) (txId : String) (timestamp : Int) :
    (Memory.fresh richQueries txId timestamp).IsSpelled := by
  intro p text payload h
  cases p <;> cases h

theorem Memory.IsSpelled.apply {m : Memory} (h : m.IsSpelled) (change : Mutation) :
    (m.apply change).IsSpelled := by
  intro p text payload hstored
  rw [Memory.stored?_apply] at hstored
  split at hstored
  · next hsame => exact ⟨change.key, change.storable, hsame.2⟩
  · exact h p text payload hstored

theorem Plan.isSpelled_onMemory {α : Type} {m : Memory} (h : m.IsSpelled) (plan : Plan α) :
    (plan.onMemory m).2.IsSpelled := by
  rcases plan.onMemory_cases m with hsame | ⟨change, hchange⟩
  · rw [hsame]
    exact h
  · rw [hchange]
    exact h.apply change

/-! ### The rows of a prefix -/

section Rows

variable {m : Memory}

/-- A row of a ledger with its key in parts. -/
def rowOf (entry : Key × Bytes) : Row := ⟨entry.1.spell, entry.2⟩

theorem exists_entries {rows : List Row}
    (h : ∀ row ∈ rows, ∃ key : Key, key.IsStorable ∧ key.spell = row.key) :
    ∃ entries : List (Key × Bytes), rows = entries.map rowOf ∧
      ∀ entry ∈ entries, entry.1.IsStorable := by
  induction rows with
  | nil => exact ⟨[], rfl, nofun⟩
  | cons row rows ih =>
    obtain ⟨key, hkey, hspell⟩ := h row List.mem_cons_self
    obtain ⟨entries, rfl, hentries⟩ := ih fun other hother => h other (List.mem_cons_of_mem row hother)
    refine ⟨(key, row.payload) :: entries, ?_, ?_⟩
    · rw [List.map_cons, rowOf, hspell]
    · exact List.forall_mem_cons.mpr ⟨hkey, hentries⟩

/-- **The rows of a range are the entries under its prefix**, in the order of keys. -/
theorem rows_of_prefix (hm : m.IsSpelled) {objectType : String} {attributes : List String}
    (hplain : ∀ part ∈ objectType :: attributes, Composite.IsPlain part) :
    ∃ entries : List (Key × Bytes),
      Memory.rowsUnder objectType attributes m = entries.map rowOf ∧
      entries.Pairwise (fun a b => a.1 < b.1) ∧
      ∀ key payload, (key, payload) ∈ entries ↔
        m.contents .world key.parts = some payload ∧ 2 ≤ key.parts.length ∧
          objectType :: attributes <+: key.parts := by
  rw [Memory.rowsUnder_eq hplain]
  have hsorted := m.sorted_rowsBetween .world (Composite.rangeStart objectType attributes)
    (Composite.rangeStop objectType attributes)
  have hkeys : ∀ row ∈ m.rowsBetween .world (Composite.rangeStart objectType attributes)
      (Composite.rangeStop objectType attributes),
      ∃ key : Key, key.IsStorable ∧ key.spell = row.key := by
    intro row hrow
    exact hm .world row.key row.payload (Memory.mem_rowsBetween.mp hrow).1
  obtain ⟨entries, hentries, hstorable⟩ := exists_entries hkeys
  -- A row is stored and spells a key of its range, which is to say a key under the prefix.
  have hmem (entry : Key × Bytes) (hentry : entry ∈ entries) :
      m.contents .world entry.1.parts = some entry.2 ∧ 2 ≤ entry.1.parts.length ∧
        objectType :: attributes <+: entry.1.parts := by
    have hrow : rowOf entry ∈ entries.map rowOf := List.mem_map_of_mem hentry
    rw [← hentries] at hrow
    obtain ⟨hstored, hrange⟩ := Memory.mem_rowsBetween.mp hrow
    have hkey := hstorable entry hentry
    refine ⟨?_, (Key.spell_mem_range_iff hplain hkey).mp hrange⟩
    rw [m.contents_of_storable .world hkey]
    exact hstored
  refine ⟨entries, hentries, ?_, ?_⟩
  · rw [hentries, List.pairwise_map] at hsorted
    refine hsorted.imp_of_mem ?_
    intro a b ha hb hlt
    exact (Key.spell_lt_iff (hstorable a ha) (hstorable b hb) (hmem a ha).2.1
      (hmem b hb).2.1).mp hlt
  · intro key payload
    constructor
    · exact hmem (key, payload)
    · rintro ⟨hlive, hmany, hunder⟩
      have hkey := m.storable_of_contents hlive
      rw [m.contents_of_storable .world hkey] at hlive
      have hrow : rowOf (key, payload) ∈ entries.map rowOf := by
        rw [← hentries]
        exact Memory.mem_rowsBetween.mpr
          ⟨hlive, (Key.spell_mem_range_iff hplain hkey).mpr ⟨hmany, hunder⟩⟩
      -- The row of a live entry is in the range, and no other entry is spelled like it.
      obtain ⟨entry, hentry, hsame⟩ := List.mem_map.mp hrow
      obtain ⟨hspell, hpayload⟩ := Row.mk.inj hsame
      have hkeys := (Key.spell_inj (hstorable entry hentry) hkey).mp hspell
      rw [← show entry = (key, payload) from Prod.ext hkeys hpayload]
      exact hentry

end Rows

/-! ### Listings -/

section Listings

variable {S : Store Memory} {m : Memory} {α : Type}

theorem plain_of_listingPrefix {σ : Type} {S : Store σ} {source : KeySource} {objectType : String}
    {attributes : List String} (h : S.listingPrefix source = .ok (objectType, attributes)) :
    ∀ part ∈ objectType :: attributes, Composite.IsPlain part := by
  obtain ⟨origin, -, h⟩ := bind_eq_ok_iff.mp h
  obtain ⟨⟨_ | ⟨first, rest⟩⟩, -, h⟩ := bind_eq_ok_iff.mp h
  · cases h
  · cases hchecked : Composite.checkParts (first :: rest) with
    | error error =>
      simp only [Composite.encode, hchecked] at h
      cases h
    | ok _ =>
      simp only [Composite.encode, hchecked] at h
      cases h
      exact Composite.checkParts_eq_ok_iff.mp hchecked

/-- A scan opens a cursor over the rows of its range. -/
theorem answer_scan (hm : m.IsQuiet) {objectType : String} {attributes : List String}
    (hplain : ∀ part ∈ objectType :: attributes, Composite.IsPlain part) :
    (call (Memory.accessor.scan .world objectType attributes)).answer m =
      (.ok ⟨m.nextCursor, (Memory.rowsUnder objectType attributes m).map .ok⟩,
        (m.openCursor (Memory.rowsUnder objectType attributes m)).2) := by
  rw [answer_call]
  show ((Memory.scan .world objectType attributes m).1.mapError StoreError.ledger,
    (Memory.scan .world objectType attributes m).2) = _
  rw [Memory.scan_of_isQuiet hm .world (Composite.range_eq hplain), Memory.rowsUnder_eq hplain]
  rfl

/-- A listing decodes the rows of the range of its prefix one by one. -/
theorem answer_list_under (hS : S.ledger = Memory.accessor) (hm : m.IsQuiet)
    {source : KeySource} {objectType : String} {attributes : List String}
    (hlisted : S.listingPrefix source = .ok (objectType, attributes)) (codec : Codec α) :
    ((S.list source codec).answer m).1 =
      (Memory.rowsUnder objectType attributes m).mapM fun row =>
        S.decodeRow codec row.key row.payload := by
  have hopen := answer_scan hm (plain_of_listingPrefix hlisted)
  generalize Memory.rowsUnder objectType attributes m = rows at hopen ⊢
  have hcursor : m.nextCursor ∈ (m.openCursor rows).2.openCursors := List.mem_cons_self
  have hdrain := answer_drain hcursor (fun row => S.decodeRow codec row.key row.payload) rows none
  rw [Store.list, answer_observe, answer_ofExcept_bind, hlisted]
  show ((call (S.ledger.scan .world objectType attributes) >>= _).answer m).1 = _
  rw [hS, answer_bind_of_ok hopen, Store.decodeRows, hS, answer_bind, hdrain, Memory.upTo_none]
  cases rows.mapM fun row => S.decodeRow codec row.key row.payload <;> rfl

theorem listingPrefix_identity {σ : Type} {S : Store σ} (hkeys : S.keys = KeyTransformer.identity)
    {source : KeySource} {objectType : String} {attributes : List String}
    (hsource : source.normalize = .ok ⟨objectType :: attributes⟩)
    (hplain : ∀ part ∈ objectType :: attributes, Composite.IsPlain part) :
    S.listingPrefix source = .ok (objectType, attributes) := by
  unfold Store.listingPrefix
  simp only [hsource, hkeys, KeyTransformer.identity, bind, Except.bind, Composite.encode,
    Composite.checkParts_eq_ok_iff.mpr hplain]

theorem answer_list (hS : S.ledger = Memory.accessor) (hkeys : S.keys = KeyTransformer.identity)
    (hm : m.IsQuiet) {source : KeySource} {objectType : String} {attributes : List String}
    (hsource : source.normalize = .ok ⟨objectType :: attributes⟩)
    (hplain : ∀ part ∈ objectType :: attributes, Composite.IsPlain part) (codec : Codec α) :
    ((S.list source codec).answer m).1 =
      (Memory.rowsUnder objectType attributes m).mapM fun row =>
        S.decodeRow codec row.key row.payload :=
  answer_list_under hS hm (listingPrefix_identity hkeys hsource hplain) codec

end Listings

/-! ### Runs -/

/-- A request to a store that keeps keys as they are.  The store may treat payloads
    differently from one request to the next. -/
structure PlainRequest (α : Type) where
  payloads : PayloadTransformer
  config : Config
  request : StoreRequest α

namespace PlainRequest

variable {α : Type} (r : PlainRequest α)

/-- The store that a request is made to. -/
def store : Store Memory := Store.inMemory KeyTransformer.identity r.payloads r.config

def perform : Action Memory α := r.request.perform r.store

def plan : Plan α := r.request.plan r.store

theorem follows : r.perform.Follows r.plan := r.request.follows rfl

end PlainRequest

/-- A run leaves only spelled keys, and no failure pending. -/
theorem run_isSpelled (requests : List (Σ α : Type, PlainRequest α)) {m : Memory}
    (hquiet : m.IsQuiet) (hspelled : m.IsSpelled) :
    (runAll (fun r => r.perform.answer) requests m).2.IsQuiet ∧
      (runAll (fun r => r.perform.answer) requests m).2.IsSpelled := by
  refine runAll_induction _ (motive := fun m : Memory => m.IsQuiet ∧ m.IsSpelled) ?_ requests
    ⟨hquiet, hspelled⟩
  rintro α r m ⟨hquiet, hspelled⟩
  rw [r.follows m hquiet]
  exact ⟨Plan.isQuiet_onMemory hquiet r.plan, Plan.isSpelled_onMemory hspelled r.plan⟩

/-- **Listings are exact and in key order.**  Behind any run of requests to stores that keep
    keys as they are, the entries under a prefix are those whose keys have several parts
    that begin with the parts of the prefix, each once and in the order of the keys.  A
    listing gives the values of these entries in that order; if one of them has none, it
    fails with the first such entry and gives no value at all. -/
theorem list_exact {α : Type} (requests : List (Σ α : Type, PlainRequest α)) (richQueries : Bool)
    (txId : String) (timestamp : Int) (payloads : PayloadTransformer) (config : Config)
    (codec : Codec α) (source : KeySource) (root : Key) (hsource : source.normalize = .ok root)
    (hparts : root.parts ≠ []) (hplain : ∀ part ∈ root.parts, Composite.IsPlain part) :
    let S := Store.inMemory KeyTransformer.identity payloads config
    let ledger := (runAll (fun r => r.perform.answer) requests
      (Memory.fresh richQueries txId timestamp)).2
    let live := (runAll (fun r => r.plan.onContents) requests ∅).2
    let listed := ((S.list source codec).answer ledger).1
    ∃ entries : List (Key × Bytes),
      entries.Pairwise (fun a b => a.1 < b.1) ∧
      (∀ key payload, (key, payload) ∈ entries ↔
        live .world key.parts = some payload ∧ 2 ≤ key.parts.length ∧
          root.parts <+: key.parts) ∧
      (∀ values, entries.mapM (fun entry => S.decodeValue codec entry.2) = .ok values →
        listed = .ok values) ∧
      (∀ before entry after values error, entries = before ++ entry :: after →
        before.mapM (fun entry => S.decodeValue codec entry.2) = .ok values →
        S.decodeValue codec entry.2 = .error error →
          listed = .error
            (.unexpected ("row " ++ Text.quoted entry.1.spell ++ ": " ++ error.message))) := by
  intro S ledger live listed
  have hquiet := Memory.isQuiet_fresh richQueries txId timestamp
  obtain ⟨hquiet', hspelled⟩ := run_isSpelled requests hquiet
    (Memory.isSpelled_fresh richQueries txId timestamp)
  -- What is said of the ledger is said of the map that the run makes of the plans.
  have hlive : ledger.contents = live := by
    have hrefines := runAll_refines (fun r => PlainRequest.follows r) requests hquiet
    rw [Memory.contents_fresh] at hrefines
    exact hrefines.2.1
  obtain ⟨_ | ⟨objectType, attributes⟩⟩ := root
  · exact absurd rfl hparts
  obtain ⟨entries, hrows, hsorted, hmem⟩ := rows_of_prefix hspelled hplain
  have hlisted : listed = entries.mapM fun entry =>
      S.decodeRow codec entry.1.spell entry.2 := by
    show ((S.list source codec).answer ledger).1 = _
    rw [answer_list rfl rfl hquiet' hsource hplain, hrows, List.mapM_map]
    rfl
  rw [hlive] at hmem
  refine ⟨entries, hsorted, hmem, ?_, ?_⟩
  · intro values hvalues
    rw [hlisted]
    refine mapM_eq_ok_of_imp ?_ hvalues
    intro entry value hvalue
    rw [Store.decodeRow, hvalue]
    rfl
  · intro before entry after values error hentries hbefore hentry
    have hvalues : before.mapM (fun entry => S.decodeRow codec entry.1.spell entry.2) =
        .ok values := by
      refine mapM_eq_ok_of_imp ?_ hbefore
      intro other value hvalue
      rw [Store.decodeRow, hvalue]
      rfl
    rw [hlisted, hentries]
    refine mapM_append_error hvalues ?_
    rw [Store.decodeRow, hentry]
    rfl

/-- The listing of `book` holds parts `1` and `10`, in that order, and neither the entries
    of `books` nor the simple key `book`. -/
theorem list_exact_book :
    let requests : List (Σ α : Type, PlainRequest α) :=
      [["book", "10"], ["books", "1"], ["book"], ["book", "1"]].map fun parts =>
        ⟨Unit, ⟨PayloadTransformer.identity, {},
          .entry (.put .world (.given ⟨parts⟩) Codec.text "text")⟩⟩
    let live := (runAll (fun r => r.plan.onContents) requests ∅).2
    let S := Store.inMemory KeyTransformer.identity PayloadTransformer.identity {}
    let ledger := (runAll (fun r => r.perform.answer) requests (Memory.fresh true "tx" 0)).2
    ∃ entries : List (Key × Bytes), entries.Pairwise (fun a b => a.1 < b.1) ∧
      (∀ key payload, (key, payload) ∈ entries ↔
        live .world key.parts = some payload ∧ 2 ≤ key.parts.length ∧ ["book"] <+: key.parts) ∧
      ∀ values, entries.mapM (fun entry => S.decodeValue Codec.text entry.2) = .ok values →
        ((S.list (.given ⟨["book"]⟩) Codec.text).answer ledger).1 = .ok values := by
  intro requests live S ledger
  obtain ⟨entries, hsorted, hmem, hvalues, -⟩ := list_exact requests true "tx" 0
    PayloadTransformer.identity {} Codec.text (.given ⟨["book"]⟩) ⟨["book"]⟩ rfl (by decide)
    (by decide +kernel)
  exact ⟨entries, hsorted, hmem, hvalues⟩

end EntityStore
