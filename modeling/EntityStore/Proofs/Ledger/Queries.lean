/-
  EntityStore/Proofs/Ledger/Queries.lean
  ======================================
  **What a document query reads.**  The documents of a ledger are its public payloads
  that hold an object, in the order of their keys, and a query on a ledger without
  pending failures opens a cursor over those that it selects.  Whatever failures are
  pending, each row that a query yields is one of them (`holdsObject_of_queryYields`).

  Whichever sort arranges the rows, the answer is the one by insertion unless the sort may
  stop on the documents that the query finds (`runQueryBy_eq`).
-/
import EntityStore.Proofs.Ledger.Memory
import EntityStore.Proofs.Query.Kinds
import EntityStore.Proofs.Query.RowSorts

namespace EntityStore.Memory

variable {m : Memory} {text : String} {query : DocumentQuery}

/-! ### Documents -/

/-- What an entry gives: its row with its document, if it has one. -/
theorem document_eq_some_iff {entry : String × Bytes} {row : Row} {document : Json} :
    (match Json.ofBytes? entry.2 with
      | some document =>
        if document.isObj then some ((⟨entry.1, entry.2⟩ : Row), document) else none
      | none => none) = some (row, document) ↔
      entry = (row.key, row.payload) ∧ Json.ofBytes? row.payload = some document ∧
        document.isObj = true := by
  constructor
  · intro h
    split at h
    · next found hread =>
      split at h
      · next hobject =>
        cases h
        exact ⟨rfl, hread, hobject⟩
      · cases h
    · cases h
  · rintro ⟨rfl, hread, hobject⟩
    simp only [hread, hobject, if_true]

theorem mem_documents {row : Row} {document : Json} :
    (row, document) ∈ m.documents ↔
      m.stored? .world row.key = some row.payload ∧
        Json.ofBytes? row.payload = some document ∧ document.isObj = true := by
  rw [documents, List.mem_filterMap, stored?, entries, OrderedMap.get?_eq_some_iff]
  constructor
  · rintro ⟨entry, hentry, hfound⟩
    obtain ⟨rfl, hdocument⟩ := document_eq_some_iff.mp hfound
    exact ⟨hentry, hdocument⟩
  · rintro ⟨hentry, hdocument⟩
    exact ⟨_, hentry, document_eq_some_iff.mpr ⟨rfl, hdocument⟩⟩

theorem sorted_documents (m : Memory) :
    m.documents.Pairwise fun a b => a.1.key < b.1.key := by
  refine List.pairwise_filterMap.mpr (m.world.sorted.imp fun {a b} hlt => ?_)
  rintro ⟨row, _⟩ hrow ⟨other, _⟩ hother
  obtain ⟨rfl, -⟩ := document_eq_some_iff.mp hrow
  obtain ⟨rfl, -⟩ := document_eq_some_iff.mp hother
  exact hlt

/-- The documents of a ledger were read, so their numbers are numbers. -/
theorem isNumeric_of_mem_documents {entry : Row × Json} (h : entry ∈ m.documents) :
    entry.2.IsNumeric :=
  Json.isNumeric_of_ofBytes? (mem_documents.mp h).2.1

/-- The documents that a query finds, in the order of their keys. -/
def matching (m : Memory) (query : DocumentQuery) : List (Row × Json) :=
  m.documents.filter fun entry => query.accepts entry.2

theorem mem_matching {row : Row} {document : Json} :
    (row, document) ∈ m.matching query ↔
      m.stored? .world row.key = some row.payload ∧
        Json.ofBytes? row.payload = some document ∧ document.isObj = true ∧
          query.accepts document = true := by
  rw [matching, List.mem_filter, mem_documents, and_assoc, and_assoc]

theorem sorted_matching (m : Memory) (query : DocumentQuery) :
    (m.matching query).Pairwise fun a b => a.1.key < b.1.key :=
  m.sorted_documents.filter _

/-! ### Queries -/

section Sorts

variable {α : Type} {sort : RowSort} {body : DocumentQuery → List Row → Call Memory α}

theorem reading_unstopped {α : Type} {body? : Call Memory (Option α)} {body : Call Memory α}
    (h : body? m = unstopped body m) : reading body? m = unstopped (reading body) m := by
  cases hreads : m.failingReads with
  | zero => simpa only [reading, unstopped, hreads] using h
  | succ count =>
    simp only [reading, unstopped, hreads]
    rfl

/-- **A sort that may not stop on the documents that a query finds** gives the answer that
    insertion gives. -/
theorem runQueryBy_eq (hsort : sort.Lawful)
    (h : ∀ query, DocumentQuery.ofText text = .ok query → ¬ query.MayStopOn (m.matching query)) :
    runQueryBy sort text body m = unstopped (runQuery text body) m := by
  by_cases hrich : m.richQueries = true
  · simp only [runQueryBy, runQuery, unstopped, if_pos hrich]
    refine reading_unstopped ?_
    cases hparse : DocumentQuery.ofText text with
    | error error => rfl
    | ok query =>
      have hordered := DocumentQuery.orderBy?_eq hsort (h query hparse)
      rw [matching] at hordered
      simp only [DocumentQuery.selectBy?, hordered, unstopped, DocumentQuery.select]
      rfl
  · simp only [runQueryBy, runQuery, unstopped, if_neg hrich]
    rfl

theorem eq_of_unstopped {call : Call Memory α} {answer : α} {after : Memory}
    (h : unstopped call m = (.ok (some answer), after)) : call m = (.ok answer, after) := by
  obtain ⟨hanswer, hafter⟩ := Prod.mk.inj h
  obtain ⟨found, hfound, hsome⟩ := map_eq_ok_iff.mp hanswer
  exact Prod.ext (hfound.trans (congrArg Except.ok (Option.some.inj hsome))) hafter

theorem runQueryBy_of_none (hm : m.IsQuiet) (hrich : m.richQueries = true)
    (hparse : DocumentQuery.ofText text = .ok query)
    (hstop : query.selectBy? sort m.documents = none) :
    runQueryBy sort text body m = (.ok none, m) := by
  simp only [runQueryBy, hrich, if_true, reading, hm.reads, hparse, hstop]

theorem runQueryBy_of_some (hm : m.IsQuiet) (hrich : m.richQueries = true)
    (hparse : DocumentQuery.ofText text = .ok query) {rows : List Row}
    (hselect : query.selectBy? sort m.documents = some rows) :
    runQueryBy sort text body m = unstopped (body query rows) m := by
  simp only [runQueryBy, hrich, if_true, reading, hm.reads, hparse, hselect]

theorem queryBy_of_some (hm : m.IsQuiet) (hrich : m.richQueries = true)
    (hparse : DocumentQuery.ofText text = .ok query) {rows : List Row}
    (hselect : query.selectBy? sort m.documents = some rows) :
    let kept := upTo query.limit rows
    queryBy sort text m = (.ok (some ⟨m.nextCursor, kept.map .ok⟩), (m.openCursor kept).2) := by
  intro kept
  rw [queryBy, runQueryBy_of_some hm hrich hparse hselect]
  exact congrArg (fun cursor => (Except.ok (some cursor), (m.openCursor kept).2))
    (openCursor_of_isQuiet hm kept)

/-- What a sort makes of the documents that a query finds. -/
theorem selectBy?_cases (hsort : sort.Lawful) (query : DocumentQuery) (m : Memory) :
    (query.selectBy? sort m.documents = none ∧ query.MayStopOn (m.matching query)) ∨
      ∃ arranged : List (Row × Json),
        query.selectBy? sort m.documents = some ((arranged.map Prod.fst).drop query.skip) ∧
        arranged.Perm (m.matching query) ∧
        (¬ query.MayStopOn (m.matching query) → arranged = query.order (m.matching query)) := by
  unfold DocumentQuery.selectBy?
  rcases DocumentQuery.orderBy?_cases hsort query (m.matching query) with
    ⟨hstop, hmay⟩ | ⟨arranged, hordered, hperm, hexact⟩
  · exact .inl ⟨congrArg (Option.map _) hstop, hmay⟩
  · exact .inr ⟨arranged, congrArg (Option.map _) hordered, hperm, hexact⟩

end Sorts

/-! ### What queries yield -/

section Yields

variable {α ρ : Type}

/-- The row is a public entry that holds an object. -/
def HoldsObject (m : Memory) (row : Row) : Prop :=
  m.stored? .world row.key = some row.payload ∧
    ∃ members, Json.ofBytes? row.payload = some (.obj members)

/-- Some document query yields the row, all at once or on some page. -/
def QueryYields (m : Memory) (row : Row) : Prop :=
  ∃ text,
    (∃ cursor, (Memory.query text m).1 = .ok cursor ∧ .ok row ∈ cursor.rows) ∨
    ∃ pageSize bookmark cursor info,
      (queryPage text pageSize bookmark m).1 = .ok (cursor, info) ∧ .ok row ∈ cursor.rows

theorem holdsObject_of_mem_select {row : Row} (h : row ∈ query.select m.documents) :
    m.HoldsObject row := by
  obtain ⟨⟨row, document⟩, hentry, rfl⟩ := List.mem_map.mp (List.mem_of_mem_drop h)
  have hmatching := (query.order_perm _).mem_iff.mp hentry
  obtain ⟨hstored, hread, hobject⟩ := mem_documents.mp (List.mem_filter.mp hmatching).1
  cases document with
  | obj members => exact ⟨hstored, members, hread⟩
  | _ => cases hobject

theorem mem_of_mem_failingAfter {rows : List ρ} {failing : Option Nat} {row : ρ}
    (h : .ok row ∈ failingAfter rows failing) : row ∈ rows := by
  have hplain {part : List ρ} (hmem : (.ok row : Except LedgerError ρ) ∈ part.map .ok) :
      row ∈ part := by
    simpa using hmem
  unfold failingAfter at h
  split at h
  · exact hplain h
  · split at h
    · rcases List.mem_append.mp h with hbefore | hfailure
      · exact List.mem_of_mem_take (hplain hbefore)
      · simp at hfailure
    · exact hplain h

/-- A query that succeeds was read, and its body was run on the rows that it selects. -/
theorem runQuery_eq_ok {body : DocumentQuery → List Row → Call Memory α} {answer : α}
    (h : (runQuery text body m).1 = .ok answer) :
    ∃ query : DocumentQuery, runQuery text body m = body query (query.select m.documents) m := by
  unfold runQuery reading at h ⊢
  split at h
  · next hrich =>
    cases hreads : m.failingReads with
    | succ count =>
      simp only [hreads] at h
      cases h
    | zero =>
      simp only [hreads] at h ⊢
      cases hparse : DocumentQuery.ofText text with
      | error error =>
        simp only [hparse] at h
        cases h
      | ok query => exact ⟨query, if_pos hrich⟩
  · cases h

theorem holdsObject_of_mem_query {cursor : Cursor Row} (h : (Memory.query text m).1 = .ok cursor)
    {row : Row} (hrow : .ok row ∈ cursor.rows) : m.HoldsObject row := by
  obtain ⟨query, hquery⟩ := runQuery_eq_ok h
  rw [Memory.query, hquery] at h
  cases h
  have hselected := mem_of_mem_failingAfter hrow
  split at hselected
  · exact holdsObject_of_mem_select (List.mem_of_mem_take hselected)
  · exact holdsObject_of_mem_select hselected

theorem holdsObject_of_mem_queryPage {pageSize : Nat} {bookmark : String} {cursor : Cursor Row}
    {info : PageInfo} (h : (queryPage text pageSize bookmark m).1 = .ok (cursor, info))
    {row : Row} (hrow : .ok row ∈ cursor.rows) : m.HoldsObject row := by
  obtain ⟨query, hquery⟩ := runQuery_eq_ok h
  rw [queryPage, hquery] at h
  cases hoffset : pageOffset bookmark with
  | error error =>
    simp only [openPage, hoffset] at h
    cases h
  | ok offset =>
    simp only [openPage, hoffset] at h
    cases h
    have hselected := mem_of_mem_failingAfter hrow
    unfold pageAt at hselected
    split at hselected
    · exact holdsObject_of_mem_select (List.mem_of_mem_drop hselected)
    · exact holdsObject_of_mem_select (List.mem_of_mem_drop (List.mem_of_mem_take hselected))

/-- **A row that a query yields is a public entry that holds an object.** -/
theorem holdsObject_of_queryYields {row : Row} (h : m.QueryYields row) : m.HoldsObject row := by
  obtain ⟨text, ⟨cursor, hquery, hrow⟩ | ⟨pageSize, bookmark, cursor, info, hpage, hrow⟩⟩ := h
  · exact holdsObject_of_mem_query hquery hrow
  · exact holdsObject_of_mem_queryPage hpage hrow

end Yields

end EntityStore.Memory
