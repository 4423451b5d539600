/-
  EntityStore/Proofs/Ledger/QueryPaging.lean
  ==========================================
  **The pages of a query cut its rows into stretches.**

  A bookmark is the number of rows that the next page passes over.  It counts behind
  what the query itself passes over, and the query's limit does not bound the pages, so
  walking along the bookmarks gives the rows that the query gives without its limit.
  Each page is cut out of rows that are sorted anew, so a sort that stops on the documents
  of a query leaves it without pages.
-/
import EntityStore.Proofs.Codec.Scalar
import EntityStore.Proofs.Json.Documents
import EntityStore.Proofs.Ledger.Paging
import EntityStore.Proofs.Ledger.Queries

namespace EntityStore

/-! ### Queries without their limit -/

/-- Without the member that limits it, an object describes the same query without a
    limit. -/
theorem DocumentQuery.ofJson_erase_limit {root : List (String × Json)} {query : DocumentQuery}
    (h : ofJson (.obj root) = .ok query) :
    ofJson (.obj (Assoc.erase "limit" root)) = .ok { query with limit := none } := by
  have hselector : Assoc.get? "selector" (Assoc.erase "limit" root) =
      Assoc.get? "selector" root := by rw [Assoc.get?_erase, if_neg (by decide)]
  have hsort : Assoc.get? "sort" (Assoc.erase "limit" root) = Assoc.get? "sort" root := by
    rw [Assoc.get?_erase, if_neg (by decide)]
  have hskip : Assoc.get? "skip" (Assoc.erase "limit" root) = Assoc.get? "skip" root := by
    rw [Assoc.get?_erase, if_neg (by decide)]
  have hlimit : Assoc.get? "limit" (Assoc.erase "limit" root) = none := by
    rw [Assoc.get?_erase, if_pos rfl]
  simp only [ofJson, hselector, hsort, hskip, hlimit] at h ⊢
  split at h
  · obtain ⟨sort, hsorted, rfl⟩ := map_eq_ok_iff.mp h
    exact map_eq_ok_iff.mpr ⟨sort, hsorted, rfl⟩
  · cases h

namespace Memory

variable {m : Memory} {text bookmark : String} {query : DocumentQuery} {sort : RowSort}
  {rows : List Row} {pageSize offset : Nat}

/-! ### Bookmarks -/

/-- The number of rows that a text passes over: none if it is empty, and else the number
    that it is in decimal, with or without a plus sign, if that fits a word. -/
def IsOffset (bookmark : String) (offset : Nat) : Prop :=
  bookmark = "" ∧ offset = 0 ∨
    ∃ digits, digits ≠ [] ∧ (∀ c ∈ digits, c.isDigit = true) ∧
      (bookmark.toList = digits ∨ bookmark.toList = '+' :: digits) ∧
        Nat.ofDigitChars 10 digits 0 = offset ∧ offset < UInt64.size

theorem pageOffset_eq_ok_iff : pageOffset bookmark = .ok offset ↔ IsOffset bookmark offset := by
  unfold pageOffset IsOffset
  -- the empty text is no number, but passes over nothing
  by_cases hempty : bookmark = ""
  · subst hempty
    rw [if_pos rfl]
    constructor
    · intro h
      cases h
      exact .inl ⟨rfl, rfl⟩
    · rintro (⟨-, rfl⟩ | ⟨digits, hne, -, h | h, -⟩)
      · rfl
      · exact absurd h.symm hne
      · cases h
  · -- the largest number that is read is the last one below the size of a word
    have hsize : ((UInt64.size : Int) - 1) = ((UInt64.size - 1 : Nat) : Int) := rfl
    rw [if_neg hempty, hsize]
    simp only [hempty, false_and, false_or]
    constructor
    · intro h
      split at h
      · next value hread =>
        cases h
        obtain ⟨digits, hne, hdigits, hform, hbound, rfl⟩ := Scalar.readInteger_eq_ok_iff.mp hread
        have hword : Nat.ofDigitChars 10 digits 0 < UInt64.size :=
          Nat.lt_of_le_of_lt hbound (by decide)
        exact ⟨digits, hne, hdigits, hform, rfl, hword⟩
      · cases h
    · rintro ⟨digits, hne, hdigits, hform, rfl, hword⟩
      have hread := Scalar.readInteger_eq_ok_iff.mpr
        ⟨digits, hne, hdigits, hform, Nat.le_sub_one_of_lt hword, rfl⟩
      rw [hread]
      rfl

theorem pageOffset_cases (bookmark : String) :
    (∃ offset, pageOffset bookmark = .ok offset) ∨
      pageOffset bookmark = .error (invalidBookmark bookmark) := by
  unfold pageOffset
  split
  · exact .inl ⟨_, rfl⟩
  · split
    · exact .inl ⟨_, rfl⟩
    · exact .inr rfl

/-- The bookmark that passes over some rows. -/
def offsetMark (offset : Nat) : String := String.ofList (Decimal.digitChars offset)

theorem offsetMark_ne_empty (offset : Nat) : offsetMark offset ≠ "" := by
  intro h
  have hchars := congrArg String.toList h
  rw [offsetMark, String.toList_ofList] at hchars
  exact Nat.toDigits_ne_nil hchars

theorem pageOffset_offsetMark (h : offset < UInt64.size) :
    pageOffset (offsetMark offset) = .ok offset := by
  refine pageOffset_eq_ok_iff.mpr (.inr ⟨Decimal.digitChars offset, Nat.toDigits_ne_nil,
    fun _ => Scalar.isDigit_of_mem_digitChars, .inl ?_, Nat.ofDigitChars_ten_toDigits, h⟩)
  rw [offsetMark, String.toList_ofList]

/-! ### One page -/

/-- The rows of a page: as many as were asked for, or all of them for size zero. -/
def slice (pageSize offset : Nat) (rows : List Row) : List Row :=
  if pageSize = 0 then rows.drop offset else (rows.drop offset).take pageSize

theorem pageAt_eq (pageSize offset : Nat) (rows : List Row) :
    (pageAt pageSize offset rows).1 = slice pageSize offset rows ∧
      (pageAt pageSize offset rows).2.bookmark =
        if offset + (slice pageSize offset rows).length < rows.length then
          offsetMark (offset + (slice pageSize offset rows).length)
        else "" :=
  ⟨rfl, rfl⟩

/-- No bookmark is given just if no row is left behind the page. -/
theorem bookmark_pageAt_eq_empty_iff (rows : List Row) :
    (pageAt pageSize offset rows).2.bookmark = "" ↔
      rows.drop (offset + (slice pageSize offset rows).length) = [] := by
  rw [(pageAt_eq pageSize offset rows).2, List.drop_eq_nil_iff]
  split
  · next hmore => exact iff_of_false (offsetMark_ne_empty _) (Nat.not_le.mpr hmore)
  · next hlast => exact iff_of_true rfl (Nat.not_lt.mp hlast)

/-- A page is full and has rows behind it, or it holds all rows from its offset on. -/
theorem pageAt_cases (hsize : 0 < pageSize) (offset : Nat) (rows : List Row) :
    (offset + pageSize < rows.length ∧ (pageAt pageSize offset rows).1.length = pageSize ∧
      (pageAt pageSize offset rows).1 ++ rows.drop (offset + pageSize) = rows.drop offset ∧
        (pageAt pageSize offset rows).2.bookmark = offsetMark (offset + pageSize)) ∨
    (rows.length ≤ offset + pageSize ∧ (pageAt pageSize offset rows).1 = rows.drop offset ∧
      (pageAt pageSize offset rows).2.bookmark = "") := by
  obtain ⟨hpage, hmark⟩ := pageAt_eq pageSize offset rows
  have hslice : slice pageSize offset rows = (rows.drop offset).take pageSize :=
    if_neg (Nat.ne_of_gt hsize)
  rw [hpage, hmark, hslice]
  by_cases hmore : offset + pageSize < rows.length
  · have hlength : ((rows.drop offset).take pageSize).length = pageSize := by
      rw [List.length_take, List.length_drop]
      omega
    rw [hlength, if_pos hmore, ← List.drop_drop]
    exact .inl ⟨hmore, rfl, List.take_append_drop _ _, rfl⟩
  · have hall : (rows.drop offset).take pageSize = rows.drop offset := by
      refine List.take_of_length_le ?_
      rw [List.length_drop]
      omega
    rw [hall, List.length_drop, if_neg (by omega)]
    exact .inr ⟨Nat.not_lt.mp hmore, rfl, rfl⟩

theorem queryPageBy_of_some (hm : m.IsQuiet) (hrich : m.richQueries = true)
    (hparse : DocumentQuery.ofText text = .ok query)
    (hselect : query.selectBy? sort m.documents = some rows) (pageSize : Nat)
    (hoffset : pageOffset bookmark = .ok offset) :
    let found := pageAt pageSize offset rows
    queryPageBy sort text pageSize bookmark m =
      (.ok (some (⟨m.nextCursor, found.1.map .ok⟩, found.2)), (m.openCursor found.1).2) := by
  intro found
  rw [queryPageBy, runQueryBy_of_some hm hrich hparse hselect]
  simp only [unstopped, openPage, hoffset, openCursor_of_isQuiet hm, found]
  rfl

/-! ### Walks -/

/-- A page of a query's rows with its bookmark, the cursor read to its end. -/
def pageOfQuery (sort : RowSort) (text : String) (pageSize : Nat) (bookmark : String) :
    Call Memory (Option (List Row × String)) := fun m =>
  match queryPageBy sort text pageSize bookmark m with
  | (.ok (some (cursor, info)), m) =>
    ((cursor.rows.mapM id).map fun rows => some (rows, info.bookmark), m)
  | (.ok none, m) => (.ok none, m)
  | (.error error, m) => (.error error, m)

/-- Asks for one page of a query after the other, each at the bookmark of the one before,
    and pauses when all calls are used up.  `none` is a walk on which a sort stops. -/
def walkQuery (sort : RowSort) (text : String) (pageSize : Nat) :
    (calls : Nat) → (bookmark : String) → Memory → Option (List PageCall × Ending)
  | 0, _, _ => some ([], .paused)
  | calls + 1, bookmark, m =>
    match pageOfQuery sort text pageSize bookmark m with
    | (.error error, _) => some ([], .failed error)
    | (.ok none, _) => none
    | (.ok (some (rows, next)), after) =>
      if next = "" then some ([⟨m, rows, next⟩], .finished)
      else
        (walkQuery sort text pageSize calls next after).map fun later =>
          (⟨m, rows, next⟩ :: later.1, later.2)

theorem pageOfQuery_of_some (hm : m.IsQuiet) (hrich : m.richQueries = true)
    (hparse : DocumentQuery.ofText text = .ok query)
    (hselect : query.selectBy? sort m.documents = some rows) (pageSize : Nat)
    (hoffset : pageOffset bookmark = .ok offset) :
    let found := pageAt pageSize offset rows
    pageOfQuery sort text pageSize bookmark m =
      (.ok (some (found.1, found.2.bookmark)), (m.openCursor found.1).2) := by
  intro found
  rw [pageOfQuery, queryPageBy_of_some hm hrich hparse hselect pageSize hoffset]
  simp only [mapM_id_ok]
  rfl

/-- **A walk from an offset on** ends within as many calls as the rows need, and gives them
    in full pages but for the last. -/
theorem walkQuery_from (hparse : DocumentQuery.ofText text = .ok query) (hsize : 0 < pageSize)
    {calls : Nat} {m : Memory} (hm : m.IsQuiet) (hrich : m.richQueries = true)
    (hselect : query.selectBy? sort m.documents = some rows) (hcount : rows.length ≤ UInt64.size)
    (hoffset : pageOffset bookmark = .ok offset) (hcalls : 0 < calls)
    (hrows : rows.length ≤ offset + calls * pageSize) :
    ∃ pages, walkQuery sort text pageSize calls bookmark m = some (pages, .finished) ∧
      rowsOf pages = rows.drop offset ∧
      ∀ call ∈ pages, call.next ≠ "" → call.rows.length = pageSize := by
  induction calls generalizing m bookmark offset with
  | zero => exact absurd hcalls (Nat.lt_irrefl 0)
  | succ calls ih =>
    have hpage := pageOfQuery_of_some hm hrich hparse hselect pageSize hoffset
    generalize hfound : pageAt pageSize offset rows = found at hpage
    have hcases := pageAt_cases hsize offset rows
    rw [hfound] at hcases
    rcases hcases with ⟨hmore, hfull, hsplit, hmark⟩ | ⟨-, hrest, hmark⟩
    · have hnext : found.2.bookmark ≠ "" := hmark ▸ offsetMark_ne_empty _
      have hmark' : pageOffset found.2.bookmark = .ok (offset + pageSize) :=
        hmark ▸ pageOffset_offsetMark (Nat.lt_of_lt_of_le hmore hcount)
      rw [Nat.succ_mul] at hrows
      have hleft : 0 < calls := by
        rcases Nat.eq_zero_or_pos calls with rfl | hpos
        · omega
        · exact hpos
      -- a cursor more is open, but the documents and what is pending are as before
      obtain ⟨pages, hwalk, hlater, hpages⟩ :=
        ih (hm.openCursor found.1) hrich hselect hmark' hleft (by omega)
      refine ⟨⟨m, found.1, found.2.bookmark⟩ :: pages, ?_, ?_,
        List.forall_mem_cons.mpr ⟨fun _ => hfull, hpages⟩⟩
      · simp only [walkQuery, hpage, if_neg hnext, hwalk, Option.map_some]
      · rw [← hsplit]
        exact congrArg (found.1 ++ ·) hlater
    · refine ⟨[⟨m, found.1, found.2.bookmark⟩], ?_, ?_, ?_⟩
      · simp only [walkQuery, hpage, if_pos hmark]
      · rw [rowsOf, List.flatMap_cons, List.flatMap_nil, List.append_nil]
        exact hrest
      · intro call hcall hnext
        rw [List.mem_singleton.mp hcall] at hnext
        exact absurd hmark hnext

/-- **The pages of a query are a partition of its rows.**  Take a ledger that no failure is
    pending on, and that does not change between the calls.  If the sort stops, which it may
    only do where more than twenty documents are found and values of a sorted field do not
    line up, then neither the query nor any page of it is answered.  Otherwise take the rows
    that the query gives when the member that limits it is left out.  From the empty bookmark
    on, the bookmarks lead to an end within as many calls as the rows need; every page before
    the last is full; and the pages one behind the other are the rows.  A bookmark is a word,
    so there must not be more rows than words.

    Any text may serve as a bookmark.  If it is a number, the page is the slice of the rows
    from that offset on, which is empty beyond their end, and comes with no bookmark just if
    no row is left behind it; every other text is refused as a bookmark. -/
theorem query_pages_partition (hsort : sort.Lawful) (hm : m.IsQuiet) (hrich : m.richQueries = true)
    (hparse : DocumentQuery.ofText text = .ok query) :
    (query.MayStopOn (m.matching query) ∧ queryBy sort text m = (.ok none, m) ∧
      ∀ pageSize bookmark, queryPageBy sort text pageSize bookmark m = (.ok none, m)) ∨
    ∃ rows : List Row,
      (∀ root unlimited, Json.ofText? text = some (.obj root) →
        Json.ofText? unlimited = some (.obj (Assoc.erase "limit" root)) →
          (queryBy sort unlimited m).1 = .ok (some ⟨m.nextCursor, rows.map .ok⟩)) ∧
      (∀ pageSize calls, 0 < pageSize → 0 < calls → rows.length ≤ calls * pageSize →
        rows.length ≤ UInt64.size →
        ∃ pages, walkQuery sort text pageSize calls "" m = some (pages, .finished) ∧
          rowsOf pages = rows ∧
          ∀ call ∈ pages, call.next ≠ "" → call.rows.length = pageSize) ∧
      ∀ pageSize bookmark,
        ((∀ offset, ¬ IsOffset bookmark offset) →
          (queryPageBy sort text pageSize bookmark m).1 = .error (invalidBookmark bookmark)) ∧
        ∀ offset, IsOffset bookmark offset → ∃ cursor info,
          (queryPageBy sort text pageSize bookmark m).1 = .ok (some (cursor, info)) ∧
          cursor.rows = (slice pageSize offset rows).map .ok ∧
          (info.bookmark = "" ↔ rows.drop (offset + (slice pageSize offset rows).length) = []) := by
  rcases selectBy?_cases hsort query m with ⟨hstop, hmay⟩ | ⟨arranged, hselect, -, -⟩
  · -- all calls sort the same documents, so the sort stops on each
    exact .inl ⟨hmay, runQueryBy_of_none hm hrich hparse hstop,
      fun _ _ => runQueryBy_of_none hm hrich hparse hstop⟩
  · refine .inr ⟨(arranged.map Prod.fst).drop query.skip, ?_, ?_, ?_⟩
    · intro root unlimited hroot hunlimited
      -- without its limit the text describes the same query without a limit
      have hquery : DocumentQuery.ofJson (.obj root) = .ok query := by
        rw [DocumentQuery.ofText, hroot] at hparse
        exact hparse
      have hparse' : DocumentQuery.ofText unlimited = .ok { query with limit := none } := by
        rw [DocumentQuery.ofText, hunlimited]
        exact DocumentQuery.ofJson_erase_limit hquery
      rw [queryBy_of_some hm hrich hparse' hselect]
      rfl
    · intro pageSize calls hsize hcalls hrows hcount
      have hwalked := walkQuery_from hparse hsize hm hrich hselect hcount
        (rfl : pageOffset "" = .ok 0) hcalls (by rwa [Nat.zero_add])
      rwa [List.drop_zero] at hwalked
    · intro pageSize bookmark
      constructor
      · intro hnone
        rcases pageOffset_cases bookmark with ⟨offset, hoffset⟩ | hrefused
        · exact absurd (pageOffset_eq_ok_iff.mp hoffset) (hnone offset)
        · rw [queryPageBy, runQueryBy_of_some hm hrich hparse hselect]
          simp only [unstopped, openPage, hrefused]
          rfl
      · intro offset hoffset
        have hpage := queryPageBy_of_some hm hrich hparse hselect pageSize
          (pageOffset_eq_ok_iff.mpr hoffset)
        exact ⟨_, _, congrArg Prod.fst hpage, rfl, bookmark_pageAt_eq_empty_iff _⟩

/-- Three documents, of which the query passes over the first and is limited to one: two
    pages of one row each, which are the rows that the query gives without its limit. -/
theorem query_pages_partition_three :
    let document := (Json.obj []).toBytes
    let m := ((empty.written .world "a" document).written .world "b" document).written .world "c"
      document
    let root : List (String × Json) :=
      [("limit", .ofNat 1), ("selector", .obj []), ("skip", .ofNat 1)]
    let text := (Json.obj root).render
    ∃ pages, walkQuery .twoEnded text 1 2 "" m = some (pages, .finished) ∧
      (rowsOf pages).map Row.key = ["b", "c"] ∧
      (queryBy .twoEnded (Json.obj (Assoc.erase "limit" root)).render m).1 =
        .ok (some ⟨0, (rowsOf pages).map .ok⟩) ∧
      (queryPageBy .twoEnded text 1 "-1" m).1 = .error (invalidBookmark "-1") := by
  intro document m root text
  have hreadable (members : List (String × Json)) (h : members.Sublist root) :
      (Json.obj members).Readable := by
    have hword : Json.IsWord 1 := ⟨by decide, by decide⟩
    have hroot : ∀ member ∈ root, member.2.Readable := by
      simp only [root, List.forall_mem_cons]
      exact ⟨.num hword, .obj List.Pairwise.nil (List.forall_mem_nil _), .num hword,
        List.forall_mem_nil _⟩
    have hsorted : Assoc.Sorted root := by
      unfold Assoc.Sorted
      decide
    exact .obj (hsorted.sublist h) fun member hmember => hroot member (h.subset hmember)
  have hread : Json.ofText? text = some (.obj root) :=
    Json.ofText?_render (hreadable root (List.Sublist.refl _)) (by decide)
  have hread' : Json.ofText? (Json.obj (Assoc.erase "limit" root)).render =
      some (.obj (Assoc.erase "limit" root)) :=
    Json.ofText?_render (hreadable _ List.filter_sublist) (by decide)
  have hparse : DocumentQuery.ofText text = .ok ⟨[], [], some 1, 1⟩ := by
    rw [DocumentQuery.ofText, hread]
    rfl
  obtain ⟨⟨-, _, hnone, -⟩, -⟩ | ⟨rows, hunlimited, hwalk, hpage⟩ :=
    query_pages_partition (m := m) RowSort.twoEnded_lawful ⟨rfl, rfl⟩ rfl hparse
  · -- Nothing is sorted by, so the sort cannot stop.
    cases hnone
  have hrows := hunlimited root _ hread hread'
  -- The number of rows is computed; it bounds the calls that the walk needs.
  have hlength : rows.length = 2 := by
    have hcount : (queryBy .twoEnded (Json.obj (Assoc.erase "limit" root)).render m).1.toOption.map
        (fun cursor => cursor.map fun cursor => cursor.rows.length) = some (some 2) := by
      decide +kernel
    rw [hrows] at hcount
    exact (List.length_map _).symm.trans (Option.some.inj (Option.some.inj hcount))
  obtain ⟨pages, hwalked, hall, -⟩ := hwalk 1 2 (by decide) (by decide) (by omega) (by
    rw [hlength]
    decide)
  refine ⟨pages, hwalked, ?_, ?_, (hpage 1 "-1").1 ?_⟩
  · have hkeys : (walkQuery .twoEnded text 1 2 "" m).map
        (fun walked => (rowsOf walked.1).map Row.key) = some ["b", "c"] := by decide +kernel
    rw [hwalked] at hkeys
    exact Option.some.inj hkeys
  · rw [hall, hrows]
    rfl
  · intro offset hoffset
    have hrefused : pageOffset "-1" = .error (invalidBookmark "-1") := rfl
    rw [pageOffset_eq_ok_iff.mpr hoffset] at hrefused
    cases hrefused

/-! ### A text among numbers -/

/-- Twenty-two documents with a number each, but for a text in the middle. -/
def textAmongNumbers : Memory :=
  let values : List Json := [.ofNat 6, .ofNat 5] ++ List.replicate 8 (.ofNat 7) ++ [.str "x"] ++
    List.replicate 11 (.ofNat 3)
  let key (i : Nat) : String := String.ofList [Nat.digitChar (i / 10), Nat.digitChar (i % 10)]
  values.zipIdx.foldl
    (fun m entry => m.written .world (key entry.2) (Json.obj [("n", entry.1)]).toBytes) empty

/-- A query for no row of all documents, in the order of their numbers. -/
def byNumber : DocumentQuery := ⟨[], [("n", false)], some 0, 0⟩

/-- The text of `byNumber`. -/
def byNumberText : String :=
  (Json.obj [("limit", .ofNat 0), ("selector", .obj []), ("sort", .arr [.str "n"])]).render

theorem ofText_byNumberText : DocumentQuery.ofText byNumberText = .ok byNumber := by
  have hreadable : (Json.obj [("limit", .ofNat 0), ("selector", .obj []),
      ("sort", .arr [.str "n"])]).Readable := by
    refine .obj ?_ ?_
    · unfold Assoc.Sorted
      decide
    · simp only [List.forall_mem_cons]
      exact ⟨.num ⟨by decide, by decide⟩, .obj List.Pairwise.nil (List.forall_mem_nil _),
        .arr (List.forall_mem_singleton.mpr (.str _)), List.forall_mem_nil _⟩
  rw [DocumentQuery.ofText, byNumberText, Json.ofText?_render hreadable (by decide)]
  rfl

/-- The first half of the documents is 5, 6, the sevens and the text, the second half the
    threes.  A merge from both ends takes eleven documents from either end: from the front
    the threes, which stand before 5, and from the back the threes again, since the text
    ties with them.  So the ends pass each other and the sort stops. -/
theorem selectBy?_textAmongNumbers :
    byNumber.selectBy? .twoEnded textAmongNumbers.documents = none :=
  Option.isNone_iff_eq_none.mp (by decide +kernel)

/-- A text among twenty-two values leaves a query without its pages, whatever the bookmark
    is. -/
theorem text_among_numbers_stops_pages :
    textAmongNumbers.IsQuiet ∧ textAmongNumbers.richQueries = true ∧
      DocumentQuery.ofText byNumberText = .ok byNumber ∧
      (textAmongNumbers.matching byNumber).length = 22 ∧
      ∀ bookmark, queryPageBy .twoEnded byNumberText 1 bookmark textAmongNumbers =
        (.ok none, textAmongNumbers) := by
  have hquiet : textAmongNumbers.IsQuiet := ⟨rfl, rfl⟩
  exact ⟨hquiet, rfl, ofText_byNumberText, by decide +kernel,
    fun bookmark => runQueryBy_of_none hquiet rfl ofText_byNumberText selectBy?_textAmongNumbers⟩

end Memory

end EntityStore
