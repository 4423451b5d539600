/-
  EntityStore/Proofs/KeyRef/Listing.lean
  ======================================
  **The references of an index are listed completely, and nothing else is.**

  A listing of references finds its rows by their namespace, schema and index, and cuts
  the reference back out of the ledger key.  For this to be exact, every row in the
  namespace must be the row of a reference (`Contents.Indexed`): entries are kept out of
  the namespace, and the key of a reference has parts behind the name of its index.
-/
import EntityStore.Proofs.Key.Split
import EntityStore.Proofs.KeyRef.Index
import EntityStore.Proofs.Store.Effect

namespace EntityStore

open EntityStore.Action

/-! ### Every row of the namespace is that of a reference -/

section Rows

variable {σ : Type} {S : Store σ} {c : Contents} {index : KeyRefIndex}

/-- The references lead where the books say, and the namespace holds no other rows. -/
structure Contents.Indexed (c : Contents) (S : Store σ) (index : KeyRefIndex) : Prop where
  holds : c.Holds S Set.univ index
  referred {key : Key} {payload : Bytes} : key.namespace? = some Store.keyRefNamespace →
    c .world key.parts = some payload →
      ∃ id place, S.locate (KeyRefId.source id) = .ok place ∧ place.key = key

theorem indexed_empty : Contents.Indexed ∅ S ∅ where
  holds := holds_empty
  referred _ hlive := by cases hlive

/-- A change in the namespace is one of a reference. -/
theorem referred_change (hkeys : S.keys.Separates Set.univ) {α : Type} {request : StoreRequest α}
    {answer : α} {change : Mutation} (h : request.plan S c = .ok (answer, some change))
    (hname : change.key.namespace? = some Store.keyRefNamespace) :
    ∃ id place, S.locate (KeyRefId.source id) = .ok place ∧ place.key = change.key := by
  cases request with
  | keyRef request =>
    obtain ⟨place, hplace, -, hkey⟩ := KeyRefRequest.plan_changesAt h
    exact ⟨request.target, place, hplace, hkey.symm⟩
  | entry request =>
    obtain ⟨place, hplace, -, hkey⟩ := EntryRequest.plan_changesAt h
    obtain ⟨hlocate, hwritable⟩ := Store.locateWritable_eq_ok_iff.mp hplace
    have horigin := hkeys.namespace_eq (Store.locate_eq_ok hlocate).2
    rw [hkey, horigin] at hname
    exact absurd hname hwritable

theorem referred_step (hkeys : S.keys.Separates Set.univ) (h : c.Indexed S index) {α : Type}
    (request : StoreRequest α) {key : Key} {payload : Bytes}
    (hname : key.namespace? = some Store.keyRefNamespace)
    (hlive : ((request.plan S).onContents c).2 .world key.parts = some payload) :
    ∃ id place, S.locate (KeyRefId.source id) = .ok place ∧ place.key = key := by
  unfold Plan.onContents at hlive
  split at hlive
  · next answer change hplan =>
    by_cases hsame : change.partition = .world ∧ change.key.parts = key.parts
    · have hkey : change.key = key := congrArg Key.mk hsame.2
      subst hkey
      exact referred_change hkeys hplan hname
    · replace hlive : c.apply change .world key.parts = some payload := hlive
      rw [Contents.apply_other hsame] at hlive
      exact h.referred hname hlive
  · exact h.referred hname hlive
  · exact h.referred hname hlive

end Rows

section Steps

variable {S : Store Memory} {c : Contents}

theorem AnyRequest.indexed_after (hkeys : S.keys.Separates Set.univ) {α : Type}
    (request : AnyRequest α) (h : ∃ index, c.Indexed S index) :
    ∃ index, (request.after S c).Indexed S index := by
  cases request with
  | scan request => exact h
  | stored request =>
    obtain ⟨index, h⟩ := h
    have hholds := holds_step hkeys h.holds request fun _ _ _ _ => trivial
    exact ⟨_, hholds, referred_step hkeys h request⟩

/-- **A run leaves the namespace to the references.** -/
theorem indexed_run (hkeys : S.keys.Separates Set.univ)
    (requests : List (Σ α : Type, AnyRequest α)) (h : ∃ index, c.Indexed S index) :
    ∃ index, (requests.foldl (fun c r => r.2.after S c) c).Indexed S index := by
  induction requests generalizing c with
  | nil => exact h
  | cons request rest ih => exact ih (request.2.indexed_after hkeys h)

end Steps

/-! ### The reference of a row -/

section Refs

variable {S : Store Memory} {c : Contents} {index : KeyRefIndex} {schema name : String}

/-- The reference of an index whose row has a key, and the primary key that the books give
    it. -/
def KeyRefIndex.refAt (index : KeyRefIndex) (schema name : String) (key : Key) : KeyRef :=
  let refKey : Key := ⟨key.parts.drop 3⟩
  ⟨schema, name, refKey, (index ⟨schema, name, refKey⟩).getD ⟨[]⟩⟩

/-- The key of a reference, where keys are kept as they are. -/
theorem key_of_ref (hkeys : S.keys = KeyTransformer.identity) {id : KeyRefId} {place : Place}
    (hplace : S.locate id.source = .ok place) :
    place.key = ⟨Store.keyRefNamespace :: id.parts⟩ ∧ id.refKey.parts ≠ [] := by
  have horigin := key_of_locate hplace
  have hstored := (Store.locate_eq_ok hplace).2
  rw [hkeys] at hstored
  have hsame : place.origin = place.key := Except.ok.inj hstored
  rw [hsame] at horigin
  refine ⟨KeyRefId.key_eq_ok horigin, fun hempty => ?_⟩
  rw [KeyRefId.key, hempty] at horigin
  cases horigin

/-- The row of a reference that leads somewhere. -/
theorem row_of_ref (hkeys : S.keys = KeyTransformer.identity) (h : c.Indexed S index)
    {id : KeyRefId} {place : Place} (hplace : S.locate id.source = .ok place) {primaryKey : Key}
    (hleads : index id = some primaryKey) :
    ∃ payload, c .world (Store.keyRefNamespace :: id.parts) = some payload := by
  have hrow := h.holds id place (fun _ _ => trivial) hplace
  rw [hleads, (key_of_ref hkeys hplace).1] at hrow
  obtain ⟨payload, -, hlive⟩ := hrow
  exact ⟨payload, hlive⟩

/-- A row is that of a reference which the books know, and its payload is the primary key
    that they give. -/
structure IsRefRow (S : Store Memory) (index : KeyRefIndex) (schema name : String)
    (row : Key × Bytes) : Prop where
  key_eq : row.1 = ⟨Store.keyRefNamespace :: (index.refAt schema name row.1).id.parts⟩
  leads : index (index.refAt schema name row.1).id =
    some (index.refAt schema name row.1).primaryKey
  decoded : S.decodeValue Codec.key row.2 = .ok (index.refAt schema name row.1).primaryKey
  located : ∃ place, S.locate (index.refAt schema name row.1).id.source = .ok place

/-- Every row under the names of a schema and an index is that of a reference. -/
theorem isRefRow_of_live (hkeys : S.keys = KeyTransformer.identity)
    (hpayloads : S.payloads.IsLossless) (h : c.Indexed S index)
    {key : Key} {payload : Bytes} (hlive : c .world key.parts = some payload)
    (hunder : [Store.keyRefNamespace, schema, name] <+: key.parts) :
    IsRefRow S index schema name (key, payload) := by
  obtain ⟨more, hmore⟩ := hunder
  have hname : key.namespace? = some Store.keyRefNamespace := by
    rw [Key.namespace?, ← hmore]
    rfl
  -- in the namespace there is nothing but rows of references
  obtain ⟨id, place, hplace, rfl⟩ := h.referred hname hlive
  have hkey := (key_of_ref hkeys hplace).1
  -- the key spells out which reference it is
  have hid : (index.refAt schema name place.key).id = id := by
    rw [hkey] at hmore
    apply KeyRefId.parts_inj
    simp only [KeyRefId.parts, List.cons_append, List.cons.injEq] at hmore
    simp only [KeyRefIndex.refAt, KeyRef.id, KeyRefId.parts, hkey, hmore]
    rfl
  have hrow := h.holds id place (fun _ _ => trivial) hplace
  rw [hlive] at hrow
  -- a row is there just if the books know the reference
  cases hleads : index id with
  | none =>
    rw [hleads] at hrow
    cases hrow
  | some primaryKey =>
    have hprimary : (index.refAt schema name place.key).primaryKey = primaryKey := by
      show (index (index.refAt schema name place.key).id).getD ⟨[]⟩ = primaryKey
      rw [hid, hleads]
      rfl
    rw [hleads, ← hlive] at hrow
    have hdecoded := (payload_of_row hpayloads hrow).2
    rw [Contents.payload, hlive, Option.getD_some] at hdecoded
    constructor
    · rw [hid]
      exact hkey
    · rw [hid, hprimary]
      exact hleads
    · rw [hprimary]
      exact hdecoded
    · rw [hid]
      exact ⟨place, hplace⟩

end Refs

/-! ### Listings -/

section Listings

variable {S : Store Memory} {m : Memory} {index : KeyRefIndex} {schema name : String}

/-- The scan of the references under a prefix. -/
def Store.keyRefScan (S : Store Memory) (schema name objectType : String)
    (attributes : List String) : Scan (List KeyRef) where
  opening := .scan .world objectType attributes
  make row _ := (S.decodeRow Codec.key row.key row.payload).map fun key => (row.key, key)
  finish _ rows := rows.mapM (S.keyRefOfRow schema name)
  target := objectType

theorem plain_keyRefPrefix (hschema : Composite.IsPlain schema) (hname : Composite.IsPlain name) :
    ∀ part ∈ [Store.keyRefNamespace, schema, name], Composite.IsPlain part := by
  simp only [List.forall_mem_cons]
  exact ⟨by decide +kernel, hschema, hname, nofun⟩

/-- A listing of references decodes the rows of its range, and then their keys. -/
theorem answer_listKeyRefs (hS : S.ledger = Memory.accessor)
    (hkeys : S.keys = KeyTransformer.identity) (hm : m.IsQuiet)
    (hschema : Composite.IsPlain schema) (hname : Composite.IsPlain name) :
    ((S.listKeyRefs schema name).answer m).1 =
      ((Memory.rowsUnder Store.keyRefNamespace [schema, name] m).mapM fun row =>
        (S.decodeRow Codec.key row.key row.payload).map fun key => (row.key, key)) >>=
      fun rows => rows.mapM (S.keyRefOfRow schema name) := by
  have hplain := plain_keyRefPrefix hschema hname
  have hlisted : S.listingPrefix (.given ⟨[Store.keyRefNamespace, schema, name]⟩) =
      .ok (Store.keyRefNamespace, [schema, name]) := listingPrefix_identity hkeys rfl hplain
  have hopen : (call ((S.keyRefScan schema name Store.keyRefNamespace [schema, name]).opening.call
      Memory.accessor)).answer m = _ := answer_scan hm hplain
  have hperform : S.listKeyRefs schema name =
      scanning S.ledger .keyRef ((S.listingPrefix
        (.given ⟨[Store.keyRefNamespace, schema, name]⟩)).map fun found =>
          S.keyRefScan schema name found.1 found.2) :=
    (ScanRequest.keyRefs schema name).perform_eq S
  rw [hperform, hlisted, hS]
  show ((observe .keyRef ((S.keyRefScan schema name _ _).run Memory.accessor .keyRef)).answer m).1
    = _
  rw [answer_observe, Scan.answer_run (fun _ => rfl) hopen rfl List.mem_cons_self]
  rfl

/-- The ledger key of a reference is cut back into the reference. -/
theorem keyRefOfRow_spell (hS : S.ledger = Memory.accessor) (ref : KeyRef) {place : Place}
    (hkeys : S.keys = KeyTransformer.identity) (hplace : S.locate ref.id.source = .ok place) :
    S.keyRefOfRow ref.schema ref.index
      ((Key.mk (Store.keyRefNamespace :: ref.id.parts)).spell, ref.primaryKey) = .ok ref := by
  obtain ⟨hkey, hparts⟩ := key_of_ref hkeys hplace
  obtain ⟨schema, name, ⟨_ | ⟨part, rest⟩⟩, primaryKey⟩ := ref
  · exact absurd rfl hparts
  · have hstorable := place.storable
    rw [hkey] at hstorable
    have hsplit : S.ledger.splitKey
        (Key.mk (Store.keyRefNamespace :: schema :: name :: part :: rest)).spell =
          .ok (Store.keyRefNamespace, schema :: name :: part :: rest) := by
      rw [hS]
      exact Key.split_spell hstorable rfl nofun
    simp only [Store.keyRefOfRow, KeyRef.id, KeyRefId.parts, hsplit]

/-- A listing of references whose rows are those of references. -/
theorem listKeyRefs_of_rows (hS : S.ledger = Memory.accessor)
    (hkeys : S.keys = KeyTransformer.identity) (hm : m.IsQuiet)
    (hschema : Composite.IsPlain schema) (hname : Composite.IsPlain name)
    {entries : List (Key × Bytes)}
    (hrows : Memory.rowsUnder Store.keyRefNamespace [schema, name] m = entries.map rowOf)
    (hentries : ∀ entry ∈ entries, IsRefRow S index schema name entry) :
    ((S.listKeyRefs schema name).answer m).1 =
      .ok (entries.map fun entry => index.refAt schema name entry.1) := by
  have hread : ∀ entry ∈ entries,
      (S.decodeRow Codec.key entry.1.spell entry.2).map (fun key => (entry.1.spell, key)) =
        .ok (entry.1.spell, (index.refAt schema name entry.1).primaryKey) := by
    intro entry hentry
    rw [Store.decodeRow, (hentries entry hentry).decoded]
    rfl
  -- From the spelling of a row its three parts and the reference key are cut back out.
  have hcut : ∀ entry ∈ entries,
      S.keyRefOfRow schema name
          (entry.1.spell, (index.refAt schema name entry.1).primaryKey) =
        .ok (index.refAt schema name entry.1) := by
    intro entry hentry
    obtain ⟨place, hplace⟩ := (hentries entry hentry).located
    have hrow := keyRefOfRow_spell hS (index.refAt schema name entry.1) hkeys hplace
    rw [← (hentries entry hentry).key_eq] at hrow
    exact hrow
  rw [answer_listKeyRefs hS hkeys hm hschema hname, hrows, List.mapM_map]
  refine bind_eq_ok_iff.mpr ⟨_, mapM_eq_ok_map hread, ?_⟩
  rw [List.mapM_map]
  exact mapM_eq_ok_map hcut

/-- What a listing of references answers where rows and books agree. -/
theorem listKeyRefs_of_indexed (hS : S.ledger = Memory.accessor)
    (hkeys : S.keys = KeyTransformer.identity) (hpayloads : S.payloads.IsLossless)
    (hm : m.IsQuiet) (hspelled : m.IsSpelled) (h : m.contents.Indexed S index)
    (hschema : Composite.IsPlain schema) (hname : Composite.IsPlain name) :
    ∃ refs, ((S.listKeyRefs schema name).answer m).1 = .ok refs ∧
      refs.Pairwise (fun a b => a.refKey < b.refKey) ∧
      ∀ ref, ref ∈ refs ↔ ref.schema = schema ∧ ref.index = name ∧
        index ref.id = some ref.primaryKey ∧ ∃ place, S.locate ref.id.source = .ok place := by
  obtain ⟨entries, hrows, hsorted, hmem⟩ :=
    rows_of_prefix hspelled (plain_keyRefPrefix hschema hname)
  have hentries : ∀ entry ∈ entries, IsRefRow S index schema name entry := by
    intro entry hentry
    obtain ⟨hlive, -, hunder⟩ := (hmem entry.1 entry.2).mp hentry
    exact isRefRow_of_live hkeys hpayloads h hlive hunder
  refine ⟨_, listKeyRefs_of_rows hS hkeys hm hschema hname hrows hentries, ?_, ?_⟩
  · -- the namespace and the two names are the same in all rows
    rw [List.pairwise_map]
    refine hsorted.imp_of_mem ?_
    intro a b ha hb hlt
    rw [(hentries a ha).key_eq, (hentries b hb).key_eq] at hlt
    replace hlt : (Store.keyRefNamespace :: schema :: name ::
        (index.refAt schema name a.1).refKey.parts) < Store.keyRefNamespace :: schema :: name ::
        (index.refAt schema name b.1).refKey.parts := hlt
    simp only [List.cons_lt_cons_self] at hlt
    exact hlt
  · intro ref
    rw [List.mem_map]
    constructor
    · rintro ⟨entry, hentry, rfl⟩
      exact ⟨rfl, rfl, (hentries entry hentry).leads, (hentries entry hentry).located⟩
    · rintro ⟨rfl, rfl, hleads, place, hplace⟩
      obtain ⟨payload, hlive⟩ := row_of_ref hkeys h hplace hleads
      refine ⟨(⟨Store.keyRefNamespace :: ref.id.parts⟩, payload), ?_, ?_⟩
      · exact (hmem _ _).mpr ⟨hlive, by simp [KeyRefId.parts], ref.refKey.parts, rfl⟩
      · show KeyRef.mk ref.schema ref.index ref.refKey ((index ref.id).getD ⟨[]⟩) = ref
        rw [hleads]
        rfl

/-- A reference is found exactly if it has a place and the books know it. -/
theorem lookup_eq_some_iff (hS : S.ledger = Memory.accessor) (hpayloads : S.payloads.IsLossless)
    (hm : m.IsQuiet) (h : m.contents.Holds S Set.univ index) (id : KeyRefId) (primaryKey : Key) :
    ((S.lookupKeyRef id).answer m).1 = .ok (some primaryKey) ↔
      index id = some primaryKey ∧ ∃ place, S.locate id.source = .ok place := by
  constructor
  · intro hfound
    rw [KeyRefRequest.follows_lookup hS id m hm, Plan.onMemory_reading] at hfound
    have hfound' := hfound
    obtain ⟨place, hplace, -⟩ := bind_eq_ok_iff.mp hfound'
    rw [lookup_of_holds hpayloads h (fun _ _ => trivial) hplace] at hfound
    exact ⟨Except.ok.inj hfound, place, hplace⟩
  · rintro ⟨hleads, place, hplace⟩
    rw [answer_lookup hS hm hpayloads h (fun _ _ => trivial) hplace, hleads]

end Listings

/-! ### Runs -/

/-- **A listing of references is complete, sound and in order.**  Take a store that keeps
    keys as they are, and that keeps payloads as they are or seals them, and any run of
    requests of all kinds from an empty ledger.  For plain names of a schema and an index
    the listing succeeds.  It gives exactly the references of this schema and index that
    can be looked up, each with the primary key that is found there, once and in the order
    of their reference keys. -/
theorem listed_keyRefs_are_those_found (payloads : PayloadTransformer) (config : Config)
    (richQueries : Bool) (txId : String) (timestamp : Int)
    (hpayloads : payloads = PayloadTransformer.identity ∨
      payloads = PayloadTransformer.digestEnvelope)
    (requests : List (Σ α : Type, AnyRequest α)) (schema name : String)
    (hschema : Composite.IsPlain schema) (hname : Composite.IsPlain name) :
    let S := Store.inMemory KeyTransformer.identity payloads config
    let ledger := (runAll (fun r => (r.perform S).answer) requests
      (Memory.fresh richQueries txId timestamp)).2
    ∃ refs, ((S.listKeyRefs schema name).answer ledger).1 = .ok refs ∧
      refs.Pairwise (fun a b => a.refKey < b.refKey) ∧
      ∀ ref, ref ∈ refs ↔ ref.schema = schema ∧ ref.index = name ∧
        ((S.lookupKeyRef ref.id).answer ledger).1 = .ok (some ref.primaryKey) := by
  intro S ledger
  have hlossless : S.payloads.IsLossless := by
    rcases hpayloads with rfl | rfl
    · exact PayloadTransformer.isLossless_identity
    · exact PayloadTransformer.isLossless_digestEnvelope
  obtain ⟨hquiet, hspelled, hcontents⟩ := run_effect (S := S) rfl requests
    (Memory.isQuiet_fresh richQueries txId timestamp)
    (Memory.isSpelled_fresh richQueries txId timestamp)
  have hindexed := indexed_run (S := S) (KeyTransformer.separates_identity _) requests
    ⟨∅, indexed_empty⟩
  rw [← Memory.contents_fresh richQueries txId timestamp, ← hcontents] at hindexed
  obtain ⟨index, hindexed⟩ := hindexed
  obtain ⟨refs, hlisted, hsorted, hmem⟩ :=
    listKeyRefs_of_indexed rfl rfl hlossless hquiet hspelled hindexed hschema hname
  refine ⟨refs, hlisted, hsorted, ?_⟩
  intro ref
  rw [hmem, lookup_eq_some_iff rfl hlossless hquiet hindexed.holds]

/-- Of the references of a book to its title and to its author, a listing of titles holds
    the title only. -/
theorem listed_keyRefs_are_those_found_title :
    let S := Store.inMemory KeyTransformer.identity PayloadTransformer.identity {}
    let requests : List (Σ α : Type, AnyRequest α) :=
      [⟨Unit, .stored (.entry (.put .world (.given ⟨["book", "1"]⟩) Codec.text "Dune"))⟩,
        ⟨Unit, .stored (.keyRef (.insert ⟨"book", "title", ⟨["Dune"]⟩, ⟨["book", "1"]⟩⟩))⟩,
        ⟨Unit, .stored (.keyRef (.insert ⟨"book", "author", ⟨["Herbert"]⟩, ⟨["book", "1"]⟩⟩))⟩]
    let ledger := (runAll (fun r => (r.perform S).answer) requests (Memory.fresh false "tx" 0)).2
    ∃ refs, ((S.listKeyRefs "book" "title").answer ledger).1 = .ok refs ∧
      refs.Pairwise (fun a b => a.refKey < b.refKey) ∧
      ∀ ref, ref ∈ refs ↔ ref.schema = "book" ∧ ref.index = "title" ∧
        ((S.lookupKeyRef ref.id).answer ledger).1 = .ok (some ref.primaryKey) :=
  listed_keyRefs_are_those_found PayloadTransformer.identity {} false "tx" 0 (.inl rfl) _ "book"
    "title" (by decide +kernel) (by decide +kernel)

end EntityStore
