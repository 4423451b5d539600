/-
  EntityStore/Proofs/Store/DocumentQueries.lean
  =============================================
  **Document queries are exact.**  The rows of a query are the live public entries whose
  payload is an object that the selector accepts, each once, arranged as the query asks;
  of these the first ones are passed over and a limited number is kept
  (`document_query_exact`).  The store decodes them one by one, up to a limit of its own.

  The order of the rows is left to a sort, which may stop on more than twenty rows with
  values of different kinds in a sorted field, and then there is no answer
  (`text_among_numbers_stops_a_query`).
-/
import EntityStore.Proofs.Ledger.QueryPaging
import EntityStore.Proofs.Query.Parsing
import EntityStore.Proofs.Store.Draining
import EntityStore.Proofs.Store.Run
import EntityStore.Proofs.Text.Order
import EntityStore.Store.RichQuery

namespace EntityStore

open EntityStore.Action EntityStore.Memory EntityStore.Query

variable {S : Store Memory} {m : Memory} {sort : RowSort} {text : String}
  {query : DocumentQuery} {α : Type}

/-! ### The store over the ledger in memory -/

/-- An accessor that reads cursors as the ledger in memory does, and answers one query with
    the rows as a sort arranges them.  So the sort does not stop on them. -/
structure Memory.Serves (m : Memory) (sort : RowSort) (text : String) (A : Accessor Memory) :
    Prop where
  touch : A.touch = Memory.touch
  close : A.close = Memory.close
  query : unstopped (A.query text) m = queryBy sort text m

theorem Memory.serves_accessor (hsort : sort.Lawful)
    (h : ∀ query, DocumentQuery.ofText text = .ok query → ¬ query.MayStopOn (m.matching query)) :
    m.Serves sort text Memory.accessor :=
  ⟨rfl, rfl, (runQueryBy_eq hsort h).symm⟩

/-- A query decodes the first rows that the ledger gives. -/
theorem answer_runQuery (hS : m.Serves sort text S.ledger) {rows : List Row}
    (hrows : queryBy sort text m =
      (.ok (some ⟨m.nextCursor, rows.map .ok⟩), (m.openCursor rows).2))
    (limit : Nat) (codec : Codec α) :
    ((S.runQuery text limit codec).answer m).1 =
      (rows.take limit).mapM fun row => S.decodeRow codec row.key row.payload := by
  have hquery := eq_of_unstopped (hS.query.trans hrows)
  have hopen : (call (S.ledger.query text)).answer m =
      (.ok ⟨m.nextCursor, rows.map .ok⟩, (m.openCursor rows).2) := by
    rw [answer_call, hquery]
    rfl
  have hcursor : m.nextCursor ∈ (m.openCursor rows).2.openCursors := List.mem_cons_self
  have hdrain := answer_drain hcursor (fun row => S.decodeRow codec row.key row.payload) rows
    (some limit)
  rw [Store.runQuery, answer_bind_of_ok hopen, Store.decodeRows,
    drain_congr (B := Memory.accessor) hS.touch hS.close, answer_bind, hdrain]
  show _ = (upTo (some limit) rows).mapM _
  cases (upTo (some limit) rows).mapM fun row => S.decodeRow codec row.key row.payload <;> rfl

/-! ### Exactness -/

theorem linesUp_of_ofOneKind
    (h : ∀ field ∈ query.sort, OfOneKind ((m.matching query).map Prod.snd) field.1) :
    ∀ field ∈ query.sort, LinesUp ((m.matching query).map Prod.snd) field.1 := by
  intro field hfield
  refine (h field hfield).linesUp fun document hdocument => ?_
  obtain ⟨entry, hentry, rfl⟩ := List.mem_map.mp hdocument
  exact isNumeric_of_mem_documents (List.mem_filter.mp hentry).1

/-- **Queries give exactly the matching rows.**  On a ledger with rich queries and without
    pending failures take a query that can be read, and each live public entry whose payload
    is an object that its selector accepts.  The sort may stop where there are more than
    twenty of them and values of a sorted field do not line up, but not where each sorted
    field holds values of one kind; if it stops, the query is not answered.

    Otherwise the query finds these entries once each and nothing else.  They stay in the
    order of the bytes of their keys if the query sorts by nothing; if each sorted field
    holds values of one kind, they are in the order asked for, ties in the order of their
    keys.  Rows are then passed over and limited, and the store decodes them up to its own
    limit, or fails with the first one that it cannot decode. -/
theorem document_query_exact (hsort : sort.Lawful) (hm : m.IsQuiet) (hrich : m.richQueries = true)
    (hparse : DocumentQuery.ofText text = .ok query) :
    ∃ matching : List (Row × Json),
      matching.Pairwise (fun a b => Utf8.encode a.1.key < Utf8.encode b.1.key) ∧
      (∀ row document, (row, document) ∈ matching ↔
        m.stored? .world row.key = some row.payload ∧
          Json.ofBytes? row.payload = some document ∧ document.isObj = true ∧
            query.accepts document = true) ∧
      ((∀ field ∈ query.sort, OfOneKind (matching.map Prod.snd) field.1) →
        ¬ query.MayStopOn matching) ∧
      (query.MayStopOn matching ∧ queryBy sort text m = (.ok none, m) ∨
      ∃ arranged : List (Row × Json),
        arranged.Perm matching ∧
        (query.sort = [] → arranged = matching) ∧
        ((∀ field ∈ query.sort, OfOneKind (matching.map Prod.snd) field.1) →
          IsStableArrangement query.compareRows matching arranged) ∧
        let rows := upTo query.limit ((arranged.map Prod.fst).drop query.skip)
        (queryBy sort text m).1 = .ok (some ⟨m.nextCursor, rows.map .ok⟩) ∧
        ∀ (S : Store Memory) (α : Type) (codec : Codec α), m.Serves sort text S.ledger →
          (∀ limit, ((S.richQuery text limit codec).answer m).1 =
            (rows.take limit).mapM fun row => S.decodeRow codec row.key row.payload) ∧
          ∀ builder : QueryBuilder, builder.build = .ok text →
            ((S.query builder codec).answer m).1 =
              (rows.take ((builder.limit.map UInt64.toNat).getD S.config.queryPageSize)).mapM
                fun row => S.decodeRow codec row.key row.payload) := by
  refine ⟨m.matching query, ?_, fun row document => mem_matching,
    fun hkinds => DocumentQuery.not_mayStopOn_of_linesUp (linesUp_of_ofOneKind hkinds), ?_⟩
  · refine (m.sorted_matching query).imp fun hlt => ?_
    exact Utf8.encode_lt_encode_iff.mpr hlt
  rcases selectBy?_cases hsort query m with ⟨hstop, hmay⟩ | ⟨arranged, hselect, hperm, hexact⟩
  · exact .inl ⟨hmay, runQueryBy_of_none hm hrich hparse hstop⟩
  · -- The sort has given `arranged`. It holds the matching documents whatever they are, and in
    -- the order asked for where the sort could not have stopped.
    have hrows := queryBy_of_some hm hrich hparse hselect
    refine .inr ⟨arranged, hperm, ?_, ?_, congrArg Prod.fst hrows, ?_⟩
    · intro hnone
      rw [hexact (DocumentQuery.not_mayStopOn_of_linesUp (by rw [hnone]; exact nofun))]
      exact DocumentQuery.order_of_no_sort hnone _
    · intro hkinds
      have haligned := linesUp_of_ofOneKind hkinds
      rw [hexact (DocumentQuery.not_mayStopOn_of_linesUp haligned)]
      exact DocumentQuery.order_isStable haligned
    · intro S α codec hS
      constructor
      · intro limit
        rw [Store.richQuery, answer_observe]
        exact answer_runQuery hS hrows limit codec
      · intro builder hbuild
        rw [Store.query, answer_observe, answer_ofExcept_bind, hbuild]
        exact answer_runQuery hS hrows _ codec

/-- Two cars among four entries, sorted by number: neither the bike nor the entry that is no
    document is found. -/
theorem document_query_exact_cars :
    let vehicle (kind : String) (n : Nat) : Bytes :=
      (Json.obj [("kind", .str kind), ("n", .ofNat n)]).toBytes
    let m := (((empty.written .world "a" (vehicle "car" 2)).written .world "b"
      (vehicle "car" 1)).written .world "c" (vehicle "bike" 0)).written .world "d" [0x78]
    let builder : QueryBuilder := { filters := [("kind", .str "car")], sort := [("n", .asc)] }
    let S := Store.inMemory KeyTransformer.identity PayloadTransformer.identity {}
    ∃ text rows, builder.build = .ok text ∧
      (queryBy .twoEnded text m).1 = .ok (some ⟨m.nextCursor, rows.map .ok⟩) ∧
      rows.map Row.key = ["b", "a"] ∧
      (∃ matching arranged : List (Row × Json), rows = arranged.map Prod.fst ∧
        IsStableArrangement builder.query.compareRows matching arranged) ∧
      ((S.query builder Codec.text).answer m).1 =
        (rows.take 100).mapM fun row => S.decodeRow Codec.text row.key row.payload := by
  intro vehicle m builder S
  have hreadable : builder.Readable := by
    refine ⟨?_, nofun, nofun⟩
    simp only [builder, List.forall_mem_cons]
    exact ⟨.str _, List.forall_mem_nil _⟩
  have hparse : DocumentQuery.ofText (Json.obj builder.root).render = .ok builder.query := by
    have hread := Json.ofText?_render (QueryBuilder.readable_root hreadable) (by decide)
    rw [DocumentQuery.ofText, hread]
    exact builder.ofJson_root
  have hbuild : builder.build = .ok (Json.obj builder.root).render := rfl
  obtain ⟨matching, -, hmem, hgoes, hanswer⟩ :=
    document_query_exact (m := m) RowSort.twoEnded_lawful ⟨rfl, rfl⟩ rfl hparse
  -- Every document counts something, so the numbers sorted by are of one kind.
  have hcounts : (m.documents.all fun entry =>
      ((field? entry.2 "n").bind Json.count?).isSome) = true := by decide +kernel
  have hkinds : ∀ field ∈ builder.query.sort, OfOneKind (matching.map Prod.snd) field.1 := by
    rintro _ (_ | ⟨_, ⟨⟩⟩)
    refine .inl fun value hvalue => ?_
    obtain ⟨document, hdocument, hfound⟩ := mem_fieldValues.mp hvalue
    obtain ⟨⟨row, document⟩, hentry, rfl⟩ := List.mem_map.mp hdocument
    obtain ⟨hstored, hread, hobject, -⟩ := (hmem row document).mp hentry
    have hcount := List.all_eq_true.mp hcounts _ (mem_documents.mpr ⟨hstored, hread, hobject⟩)
    rw [hfound] at hcount
    cases value with
    | num n => exact ⟨n, rfl⟩
    | _ => cases hcount
  obtain ⟨hmay, -⟩ | ⟨arranged, -, -, hstable, hrows, hstore⟩ := hanswer
  · exact absurd hmay (hgoes hkinds)
  refine ⟨_, _, hbuild, hrows, ?_, ⟨matching, arranged, rfl, hstable hkinds⟩, ?_⟩
  · have hkeys : (queryBy .twoEnded (Json.obj builder.root).render m).1.toOption.map
        (fun answer => answer.map fun cursor =>
          cursor.rows.filterMap fun row => row.toOption.map Row.key) =
          some (some ["b", "a"]) := by decide +kernel
    rw [hrows] at hkeys
    simpa [Except.toOption] using hkeys
  · -- Two documents are too few for the sort to stop.
    have hserves : m.Serves .twoEnded (Json.obj builder.root).render S.ledger := by
      refine serves_accessor RowSort.twoEnded_lawful fun query hquery => ?_
      rw [hparse] at hquery
      cases hquery
      rintro ⟨hmany, -⟩
      have hfew : (m.matching builder.query).length = 2 := by decide +kernel
      omega
    exact (hstore S String Codec.text hserves).2 builder hbuild

/-- A text among twenty-two values, and the query is not answered: not even with no rows,
    which is what it asks for. -/
theorem text_among_numbers_stops_a_query :
    textAmongNumbers.IsQuiet ∧ textAmongNumbers.richQueries = true ∧
      DocumentQuery.ofText byNumberText = .ok byNumber ∧
      (textAmongNumbers.matching byNumber).length = 22 ∧
      queryBy .twoEnded byNumberText textAmongNumbers = (.ok none, textAmongNumbers) := by
  have hquiet : textAmongNumbers.IsQuiet := ⟨rfl, rfl⟩
  exact ⟨hquiet, rfl, ofText_byNumberText, by decide +kernel,
    runQueryBy_of_none hquiet rfl ofText_byNumberText selectBy?_textAmongNumbers⟩

end EntityStore
