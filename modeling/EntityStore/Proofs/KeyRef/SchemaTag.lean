/-
  EntityStore/Proofs/KeyRef/SchemaTag.lean
  ========================================
  **Which entity types share their references.**

  The references of an entity type are kept under its schema tag, the parts of its
  namespace with hyphens between them.  Types with different tags never meet: what is done
  through the references of one leaves those of the other as they are (`run_keeps_row`).
  But a hyphen may also stand inside a part, so a tag tells no more of a namespace than its
  pieces between hyphens (`tag_eq_iff`): two types whose namespaces have the same pieces
  have their references in common (`reference_of_another_type_is_found`).
-/
import EntityStore.Proofs.KeyRef.Index

namespace EntityStore

/-! ### Tags and the pieces of a namespace -/

namespace EntityType

/-- The pieces of the parts of a namespace between hyphens; a namespace without parts has
    one empty piece. -/
def hyphenPieces : List String → List (List Char)
  | [] => [[]]
  | part :: rest => (part :: rest).flatMap fun part => part.toList.splitOn '-'

theorem splitOn_tag (parts : List String) :
    ("-".intercalate parts).toList.splitOn '-' = hyphenPieces parts := by
  induction parts with
  | nil => rfl
  | cons part rest ih =>
    cases rest with
    | nil => simp [hyphenPieces]
    | cons next more =>
      have hsplit := List.splitOn_append_cons_self (a := '-') part.toList
        ("-".intercalate (next :: more)).toList
      rw [String.intercalate_cons_cons, String.append_assoc, String.toList_append,
        String.toList_append]
      show (part.toList ++ '-' :: ("-".intercalate (next :: more)).toList).splitOn '-' = _
      rw [hsplit, ih]
      rfl

/-- A tag tells the pieces of a namespace, and nothing else. -/
theorem tag_eq_iff {parts others : List String} :
    "-".intercalate parts = "-".intercalate others ↔ hyphenPieces parts = hyphenPieces others := by
  rw [← splitOn_tag, ← splitOn_tag]
  constructor
  · intro h
    rw [h]
  · intro h
    have hjoined := congrArg (List.intercalate ['-']) h
    rw [List.intercalate_splitOn, List.intercalate_splitOn] at hjoined
    exact String.toList_inj.mp hjoined

/-- Without a hyphen inside the parts the pieces are the parts. -/
theorem hyphenPieces_of_plain {parts : List String} (hparts : parts ≠ [])
    (hplain : ∀ part ∈ parts, '-' ∉ part.toList) :
    hyphenPieces parts = parts.map String.toList := by
  rw [← splitOn_tag, String.toList_intercalate]
  refine List.splitOn_intercalate '-' ?_ (by simpa using hparts)
  intro piece hpiece
  obtain ⟨part, hpart, rfl⟩ := List.mem_map.mp hpiece
  exact hplain part hpart

theorem tag_inj {parts others : List String} (hparts : parts ≠ []) (hothers : others ≠ [])
    (hplain : ∀ part ∈ parts ++ others, '-' ∉ part.toList) :
    "-".intercalate parts = "-".intercalate others ↔ parts = others := by
  obtain ⟨hplain, hplain'⟩ := List.forall_mem_append.mp hplain
  rw [tag_eq_iff, hyphenPieces_of_plain hparts hplain, hyphenPieces_of_plain hothers hplain']
  exact List.map_inj_right fun _ _ => String.toList_inj.mp

end EntityType

/-! ### Keys of references -/

theorem KeyRefId.key_of_parts {id : KeyRefId} (h : id.refKey.parts ≠ []) :
    id.key = .ok ⟨Store.keyRefNamespace :: id.parts⟩ := by
  obtain ⟨schema, index, ⟨_ | ⟨part, rest⟩⟩⟩ := id
  · exact absurd rfl h
  · rfl

theorem KeyRefId.key_inj {a b : KeyRefId} (ha : a.refKey.parts ≠ []) (hb : b.refKey.parts ≠ []) :
    a.key = b.key ↔ a = b := by
  refine ⟨fun h => ?_, fun h => h ▸ rfl⟩
  rw [key_of_parts ha, key_of_parts hb] at h
  exact parts_inj (List.cons.inj (Key.mk.inj (Except.ok.inj h))).2

/-! ### References that are left alone -/

section Rows

variable {S : Store Memory} {used : Set String} {α : Type} {id : KeyRefId} {place : Place}

/-- A request that is not about a reference leaves its row as it is. -/
theorem StoreRequest.keeps_row (hkeys : S.keys.Separates used)
    (hid : ∀ part ∈ id.parts, part ∈ used) (hplace : S.locate id.source = .ok place)
    (request : StoreRequest α) (hother : ∀ other, request.keyRefId? = some other →
      other ≠ id ∧ ∀ part ∈ other.parts, part ∈ used) (c : Contents) :
    ((request.plan S).onContents c).2 .world place.key.parts = c .world place.key.parts := by
  cases request with
  | entry request => exact entry_keeps_row hkeys request c hplace
  | keyRef request =>
    obtain ⟨hne, hused⟩ := hother request.target rfl
    rw [plan, Plan.onContents]
    split
    · next answer change hplan =>
      obtain ⟨found, hfound, -, hkey⟩ := KeyRefRequest.plan_changesAt hplan
      refine Contents.apply_other ?_
      rintro ⟨-, hparts⟩
      rw [hkey] at hparts
      exact hne (locate_keyRef_inj hkeys hused hid hfound hplace hparts)
    · rfl
    · rfl

/-- **A run leaves the rows of all references alone that it is not about.** -/
theorem run_keeps_row (hS : S.ledger = Memory.accessor) (hkeys : S.keys.Separates used)
    (hid : ∀ part ∈ id.parts, part ∈ used) (hplace : S.locate id.source = .ok place)
    (requests : List (Σ α : Type, StoreRequest α))
    (hothers : ∀ request ∈ requests, ∀ other, request.2.keyRefId? = some other →
      other ≠ id ∧ ∀ part ∈ other.parts, part ∈ used) {m : Memory} (hm : m.IsQuiet) :
    (runAll (fun r => (r.perform S).answer) requests m).2.contents .world place.key.parts =
      m.contents .world place.key.parts := by
  induction requests generalizing m with
  | nil => rfl
  | cons request rest ih =>
    obtain ⟨α, request⟩ := request
    obtain ⟨hrequest, hrest⟩ := List.forall_mem_cons.mp hothers
    have hstep := request.follows hS m hm
    have hquiet := Plan.isQuiet_onMemory hm (request.plan S)
    rw [runAll_cons, hstep, ih hrest hquiet, (Plan.contents_onMemory _ m).2]
    exact request.keeps_row hkeys hid hplace hrequest m.contents

/-- Looking a reference up, and claiming it, depend on its row alone. -/
theorem answers_of_same_row (hS : S.ledger = Memory.accessor) {m later : Memory}
    (hm : m.IsQuiet) (hlater : later.IsQuiet)
    (hrow : ∀ place, S.locate id.source = .ok place →
      later.contents .world place.key.parts = m.contents .world place.key.parts) :
    ((S.lookupKeyRef id).answer later).1 = ((S.lookupKeyRef id).answer m).1 ∧
      ∀ primaryKey : Key,
        ((S.insertKeyRef ⟨id.schema, id.index, id.refKey, primaryKey⟩).answer later).1 =
          ((S.insertKeyRef ⟨id.schema, id.index, id.refKey, primaryKey⟩).answer m).1 := by
  have hpayload (place : Place) (hplace : S.locate id.source = .ok place) :
      later.contents.payload .world place.key = m.contents.payload .world place.key := by
    rw [Contents.payload, Contents.payload, hrow place hplace]
  -- both requests follow plans that look at the contents in this one place
  constructor
  · rw [KeyRefRequest.follows_lookup hS id later hlater, KeyRefRequest.follows_lookup hS id m hm,
      Plan.onMemory_reading, Plan.onMemory_reading]
    show later.contents.get? S .world id.source Codec.key = _
    rw [Contents.get?]
    cases hplace : S.locate id.source with
    | error error => rw [Contents.get?, hplace]; rfl
    | ok place =>
      rw [Contents.get?, hplace]
      show later.contents.valueAt S .world place Codec.key = _
      rw [Contents.valueAt, hpayload place hplace]
      rfl
  · intro primaryKey
    rw [KeyRefRequest.follows_insert hS _ later hlater, KeyRefRequest.follows_insert hS _ m hm,
      Plan.onMemory_writing, Plan.onMemory_writing]
    have hplan : KeyRefRequest.insertPlan S ⟨id.schema, id.index, id.refKey, primaryKey⟩
          later.contents =
        KeyRefRequest.insertPlan S ⟨id.schema, id.index, id.refKey, primaryKey⟩ m.contents := by
      show (S.locate id.source >>= _) = (S.locate id.source >>= _)
      cases hplace : S.locate id.source with
      | error error => rfl
      | ok place =>
        show later.contents.insertAt S .world place Codec.key primaryKey = _
        rw [Contents.insertAt, hpayload place hplace]
        rfl
    rw [hplan]
    cases KeyRefRequest.insertPlan S ⟨id.schema, id.index, id.refKey, primaryKey⟩ m.contents <;> rfl

end Rows

/-! ### Types and their references -/

/-- **Entity types share their references just if their namespaces have the same pieces
    between hyphens.**  References of two types have the same key if the types have the
    same tag and the references the same index and reference key.  The tags are the same
    if the namespaces have the same pieces between hyphens; for namespaces of at least one
    part without hyphens inside the parts, if they are the same.  If the tags differ, then
    no run of requests about entries and about references of the one type changes what a
    reference of the other leads to, or whether it can be claimed. -/
theorem types_share_references_iff_pieces_agree {ε δ : Type} (T : EntityType ε)
    (U : EntityType δ) :
    (∀ (index index' : String) (refKey refKey' : Key), refKey.parts ≠ [] → refKey'.parts ≠ [] →
      ((KeyRefId.forEntity T index refKey).key = (KeyRefId.forEntity U index' refKey').key ↔
        T.schemaTag = U.schemaTag ∧ index = index' ∧ refKey = refKey')) ∧
    (T.schemaTag = U.schemaTag ↔
      EntityType.hyphenPieces T.namespaceParts = EntityType.hyphenPieces U.namespaceParts) ∧
    (T.namespaceParts ≠ [] → U.namespaceParts ≠ [] →
      (∀ part ∈ T.namespaceParts ++ U.namespaceParts, '-' ∉ part.toList) →
        (T.schemaTag = U.schemaTag ↔ T.namespaceParts = U.namespaceParts)) ∧
    (T.schemaTag ≠ U.schemaTag →
      ∀ (keys : KeyTransformer) (used : Set String) (payloads : PayloadTransformer)
        (config : Config) (m : Memory) (requests : List (Σ α : Type, StoreRequest α))
        (index : String) (refKey : Key),
        let S := Store.inMemory keys payloads config
        let id := KeyRefId.forEntity T index refKey
        let later := (runAll (fun r => (r.perform S).answer) requests m).2
        m.IsQuiet → keys.Separates used → (∀ part ∈ id.parts, part ∈ used) →
        (∀ request ∈ requests, ∀ other, request.2.keyRefId? = some other →
          other.schema = U.schemaTag ∧ ∀ part ∈ other.parts, part ∈ used) →
        ((S.lookupKeyRef id).answer later).1 = ((S.lookupKeyRef id).answer m).1 ∧
          ∀ primaryKey : Key,
            ((S.insertKeyRef ⟨id.schema, id.index, id.refKey, primaryKey⟩).answer later).1 =
              ((S.insertKeyRef ⟨id.schema, id.index, id.refKey, primaryKey⟩).answer m).1) := by
  refine ⟨?_, EntityType.tag_eq_iff, EntityType.tag_inj, ?_⟩
  · intro index index' refKey refKey' hrefKey hrefKey'
    rw [KeyRefId.key_inj hrefKey hrefKey', KeyRefId.forEntity, KeyRefId.forEntity,
      KeyRefId.mk.injEq]
  · intro htags keys used payloads config m requests index refKey S id later hm hkeys hid hothers
    have hquiet : later.IsQuiet :=
      (runAll_refines (fun r : StoreRequest _ => r.follows (S := S) rfl) requests hm).2.2
    refine answers_of_same_row rfl hm hquiet fun place hplace => ?_
    refine run_keeps_row rfl hkeys hid hplace requests ?_ hm
    intro request hrequest other hother
    obtain ⟨hschema, hused⟩ := hothers request hrequest other hother
    refine ⟨?_, hused⟩
    rintro rfl
    exact htags hschema

/-- Books and the chapters of books have their references apart: the title that a book has
    claimed leads to the book, whatever chapters claim and give up. -/
theorem types_share_references_iff_pieces_agree_chapters :
    let books : EntityType String := ⟨["BOOK"], fun n => .ok ⟨["BOOK", n]⟩, Codec.text⟩
    let chapters : EntityType String :=
      ⟨["BOOK", "CHAPTER"], fun n => .ok ⟨["BOOK", "CHAPTER", n]⟩, Codec.text⟩
    let S := Store.inMemory KeyTransformer.identity PayloadTransformer.identity {}
    let claimed := ((S.insertKeyRef ⟨books.schemaTag, "title", ⟨["Dune"]⟩,
      ⟨["BOOK", "1"]⟩⟩).answer (Memory.fresh false "tx-0" 0)).2
    let requests : List (Σ α : Type, StoreRequest α) :=
      [⟨Unit, .keyRef (.insert ⟨chapters.schemaTag, "title", ⟨["Dune"]⟩,
          ⟨["BOOK", "CHAPTER", "1"]⟩⟩)⟩,
        ⟨Unit, .keyRef (.delete (.forEntity chapters "title" ⟨["Dune"]⟩))⟩]
    let later := (runAll (fun r => (r.perform S).answer) requests claimed).2
    books.schemaTag ≠ chapters.schemaTag ∧
      (KeyRefId.forEntity books "title" ⟨["Dune"]⟩).key ≠
        (KeyRefId.forEntity chapters "title" ⟨["Dune"]⟩).key ∧
      ((S.lookupKeyRef (.forEntity books "title" ⟨["Dune"]⟩)).answer later).1 =
        .ok (some ⟨["BOOK", "1"]⟩) := by
  intro books chapters S claimed requests later
  obtain ⟨hkeys, -, htags, hruns⟩ := types_share_references_iff_pieces_agree books chapters
  have hapart : books.schemaTag ≠ chapters.schemaTag := by
    rw [Ne, htags (by decide) (by decide) (by decide)]
    decide
  refine ⟨hapart, ?_, ?_⟩
  · rw [Ne, hkeys _ _ _ _ (by decide) (by decide)]
    exact fun hsame => hapart hsame.1
  · have hquiet : claimed.IsQuiet := by
      have hfresh := Memory.isQuiet_fresh false "tx-0" 0
      show ((S.insertKeyRef _).answer _).2.IsQuiet
      rw [KeyRefRequest.follows_insert rfl _ _ hfresh]
      exact Plan.isQuiet_onMemory hfresh _
    have hfound : ((S.lookupKeyRef (.forEntity books "title" ⟨["Dune"]⟩)).answer claimed).1 =
        .ok (some ⟨["BOOK", "1"]⟩) := by
      decide +kernel
    -- what chapters claim and give up is of their own type
    have hothers : ∀ request ∈ requests, ∀ other, request.2.keyRefId? = some other →
        other.schema = chapters.schemaTag ∧ ∀ part ∈ other.parts, part ∈ Set.univ := by
      intro request hrequest other hother
      simp only [requests, List.mem_cons, List.not_mem_nil, or_false] at hrequest
      rcases hrequest with rfl | rfl
      · cases hother
        exact ⟨rfl, fun _ _ => trivial⟩
      · cases hother
        exact ⟨rfl, fun _ _ => trivial⟩
    exact (hruns hapart KeyTransformer.identity Set.univ PayloadTransformer.identity {} claimed
      requests "title" ⟨["Dune"]⟩ hquiet (KeyTransformer.separates_identity _)
      (fun _ _ => trivial) hothers).1.trans hfound

/-- **A reference of one type is found through another** whose namespace has the same pieces
    between hyphens: what the chapters of books have claimed leads to a chapter, and is
    refused as a duplicate, also for a type of the one part `BOOK-CHAPTER`. -/
theorem reference_of_another_type_is_found :
    let chapters : EntityType String :=
      ⟨["BOOK", "CHAPTER"], fun n => .ok ⟨["BOOK", "CHAPTER", n]⟩, Codec.text⟩
    let leaflets : EntityType String :=
      ⟨["BOOK-CHAPTER"], fun n => .ok ⟨["BOOK-CHAPTER", n]⟩, Codec.text⟩
    let S := Store.inMemory KeyTransformer.identity PayloadTransformer.identity {}
    let claimed := (S.buildKeyRef ⟨chapters.schemaTag, "pos", ⟨["1"]⟩,
      ⟨["BOOK", "CHAPTER", "1"]⟩⟩).answer (Memory.fresh false "tx-0" 0)
    chapters.namespaceParts ≠ leaflets.namespaceParts ∧
      (KeyRefId.forEntity chapters "pos" ⟨["1"]⟩).key =
        (KeyRefId.forEntity leaflets "pos" ⟨["1"]⟩).key ∧
      ((S.lookupKeyRef (.forEntity leaflets "pos" ⟨["1"]⟩)).answer claimed.2).1 =
        .ok (some ⟨["BOOK", "CHAPTER", "1"]⟩) ∧
      ((S.insertKeyRef ⟨leaflets.schemaTag, "pos", ⟨["1"]⟩, ⟨["BOOK-CHAPTER", "1"]⟩⟩).answer
        claimed.2).1 = .error (.alreadyExists "_idx | BOOK-CHAPTER | pos | 1") := by
  decide +kernel

end EntityStore
