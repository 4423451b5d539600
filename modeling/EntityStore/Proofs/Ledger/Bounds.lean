/-
  EntityStore/Proofs/Ledger/Bounds.lean
  =====================================
  **No listing and no page goes out of bounds.**

  A map cannot be asked for a range that ends before it begins, a list not for a row
  behind its last, and a machine word does not hold every sum of two.  The calls for
  listings and pages are spelled out again with these operations made partial: `none`
  stands where one of them is asked for what it cannot give, and then the call stops
  without an answer.  The sort of a query's rows is not one of them
  (`DocumentQuery.MayStopOn`).  The guards before them keep them from it, so that these calls
  answer as the ledger's own calls do, whatever a caller hands in as a bookmark
  (`Memory.paging_never_stops`).
-/
import EntityStore.Proofs.Ledger.QueryPaging

namespace EntityStore

/-! ### Partial operations -/

/-- The entries with `start ≤ key < stop`, if the range does not end before it begins. -/
def OrderedMap.between? {α : Type} (m : OrderedMap α) (start stop : String) :
    Option (List (String × α)) :=
  if start ≤ stop then some (m.between start stop) else none

/-- The sum of two machine words, if it is one. -/
def wordSum? (x y : Nat) : Option Nat := if x + y < UInt64.size then some (x + y) else none

namespace Memory

def rowsBetween? (m : Memory) (partition : Partition) (start stop : String) :
    Option (List Row) :=
  ((m.entries partition).between? start stop).map fun entries =>
    entries.map fun entry => ⟨entry.1, entry.2⟩

/-- The first page of rows.  A row behind the page is looked up by its index. -/
def firstPage? (pageSize : Nat) (rows : List Row) : Option (List Row × PageInfo) :=
  if 0 < pageSize ∧ pageSize < rows.length then
    rows[pageSize]?.map fun behind =>
      let page := rows.take pageSize
      (page, ⟨min page.length fetchedLimit, behind.key⟩)
  else some (rows, ⟨min rows.length fetchedLimit, ""⟩)

/-- The page of rows behind an offset.  What has been given so far is counted in a
    machine word, and size zero asks for as many rows as such a word counts. -/
def pageAt? (pageSize offset : Nat) (rows : List Row) : Option (List Row × PageInfo) :=
  let page := (rows.drop offset).take (if pageSize = 0 then UInt64.size - 1 else pageSize)
  (wordSum? offset page.length).map fun consumed =>
    let bookmark :=
      if consumed < rows.length then String.ofList (Decimal.digitChars consumed) else ""
    (page, ⟨min page.length fetchedLimit, bookmark⟩)

/-! ### Calls that may stop -/

def scan? (partition : Partition) (objectType : String) (attributes : List String) :
    Call Memory (Option (Cursor Row)) :=
  reading fun m =>
    match Composite.range objectType attributes with
    | .error error => (.error (.io error.message), m)
    | .ok (start, stop) =>
      match m.rowsBetween? partition start stop with
      | none => (.ok none, m)
      | some rows =>
        let (cursor, m) := m.openCursor rows
        (.ok (some cursor), m)

def scanPage? (objectType : String) (attributes : List String) (pageSize : Nat)
    (bookmark : String) : Call Memory (Option (Cursor Row × PageInfo)) :=
  reading fun m =>
    match Composite.range objectType attributes with
    | .error error => (.error (.io error.message), m)
    | .ok (start, stop) =>
      match pageStart start stop bookmark with
      | .error error => (.error error, m)
      | .ok start =>
        match (m.rowsBetween? .world start stop).bind (firstPage? pageSize) with
        | none => (.ok none, m)
        | some (page, info) =>
          let (cursor, m) := m.openCursor page
          (.ok (some (cursor, info)), m)

def queryPage? (text : String) (pageSize : Nat) (bookmark : String) :
    Call Memory (Option (Cursor Row × PageInfo)) :=
  runQuery text fun _ rows m =>
    match pageOffset bookmark with
    | .error error => (.error error, m)
    | .ok offset =>
      match pageAt? pageSize offset rows with
      | none => (.ok none, m)
      | some (page, info) =>
        let (cursor, m) := m.openCursor page
        (.ok (some (cursor, info)), m)

/-! ### The guards suffice -/

variable {m : Memory} {objectType start stop origin text bookmark : String}
  {attributes : List String} {pageSize offset : Nat} {rows : List Row}

/-- The range of a partial key does not end before it begins. -/
theorem le_of_range (h : Composite.range objectType attributes = .ok (start, stop)) :
    start ≤ stop := by
  obtain ⟨_, -, hbounds⟩ := map_eq_ok_iff.mp h
  cases hbounds
  have hstart := Composite.mem_range_iff.mpr ⟨[], (List.append_nil start.toList).symm, nofun⟩
  exact Std.le_of_lt hstart.2

/-- Nor does a page that begins at an accepted bookmark. -/
theorem le_stop_of_pageStart (hrange : start ≤ stop)
    (hmark : pageStart start stop bookmark = .ok origin) : origin ≤ stop := by
  unfold pageStart at hmark
  split at hmark
  · cases hmark
    exact hrange
  · split at hmark
    · next hinside =>
      cases hmark
      exact Std.le_of_lt hinside.2.2
    · cases hmark

theorem rowsBetween?_of_le (h : start ≤ stop) (p : Partition) :
    m.rowsBetween? p start stop = some (m.rowsBetween p start stop) := by
  rw [rowsBetween?, OrderedMap.between?, if_pos h]
  rfl

/-- A row behind a page is looked up only if there is one. -/
theorem firstPage?_eq (pageSize : Nat) (rows : List Row) :
    firstPage? pageSize rows = some (firstPage pageSize rows) := by
  unfold firstPage? firstPage
  by_cases hsize : pageSize = 0
  · simp [hsize]
  · by_cases hlong : pageSize < rows.length
    · rw [if_pos ⟨Nat.pos_of_ne_zero hsize, hlong⟩, if_neg hsize, if_neg hsize,
        List.getElem?_eq_getElem hlong]
      rfl
    · rw [if_neg fun h => hlong h.2, if_neg hsize, if_neg hsize,
        List.getElem?_eq_none (Nat.not_lt.mp hlong),
        List.take_of_length_le (Nat.not_lt.mp hlong)]
      rfl

/-- An offset that is a machine word, and the rows of the page behind it, are together no
    more than the offset or than all rows. -/
theorem offset_add_page_lt (hoffset : offset < UInt64.size) (hrows : rows.length < UInt64.size) :
    offset + (pageAt pageSize offset rows).1.length < UInt64.size := by
  have hpage : (pageAt pageSize offset rows).1.length ≤ rows.length - offset := by
    rw [(pageAt_eq pageSize offset rows).1, slice]
    split
    · rw [List.length_drop]
    · rw [List.length_take, List.length_drop]
      exact Nat.min_le_right _ _
  omega

theorem pageAt?_eq (hoffset : offset < UInt64.size) (hrows : rows.length < UInt64.size) :
    pageAt? pageSize offset rows = some (pageAt pageSize offset rows) := by
  have hpage : (rows.drop offset).take (if pageSize = 0 then UInt64.size - 1 else pageSize) =
      (pageAt pageSize offset rows).1 := by
    rw [(pageAt_eq pageSize offset rows).1, slice]
    split
    · refine List.take_of_length_le ?_
      rw [List.length_drop]
      omega
    · rfl
  rw [pageAt?, hpage, wordSum?, if_pos (offset_add_page_lt hoffset hrows)]
  rfl

/-- A query selects no more rows than there are. -/
theorem length_select_le (query : DocumentQuery) (m : Memory) :
    (query.select m.documents).length ≤ m.size := by
  calc (query.select m.documents).length
      ≤ (query.order (m.documents.filter fun row => query.accepts row.2)).length := by
        rw [DocumentQuery.select, List.length_drop, List.length_map]
        exact Nat.sub_le _ _
    _ = (m.documents.filter fun row => query.accepts row.2).length :=
        (DocumentQuery.order_perm query _).length_eq
    _ ≤ m.documents.length := List.length_filter_le _ _
    _ ≤ m.size := List.length_filterMap_le _ _

/-! ### The calls -/

theorem offset_lt_of_pageOffset (h : pageOffset bookmark = .ok offset) : offset < UInt64.size := by
  rcases pageOffset_eq_ok_iff.mp h with ⟨-, rfl⟩ | ⟨_, -, -, -, -, hoffset⟩
  · decide
  · exact hoffset

theorem runQuery_unstopped {α : Type} {body? : DocumentQuery → List Row → Call Memory (Option α)}
    {body : DocumentQuery → List Row → Call Memory α}
    (h : ∀ query, body? query (query.select m.documents) m =
      unstopped (body query (query.select m.documents)) m) :
    runQuery text body? m = unstopped (runQuery text body) m := by
  by_cases hrich : m.richQueries = true
  · simp only [runQuery, unstopped, if_pos hrich]
    refine reading_unstopped ?_
    simp only [unstopped]
    cases DocumentQuery.ofText text with
    | error error => rfl
    | ok query => exact h query
  · simp only [runQuery, unstopped, if_neg hrich]
    rfl

theorem scan?_eq (p : Partition) (objectType : String) (attributes : List String) :
    scan? p objectType attributes = unstopped (scan p objectType attributes) := by
  funext m
  refine reading_unstopped ?_
  unfold unstopped
  cases hrange : Composite.range objectType attributes with
  | error error => rfl
  | ok bounds =>
    obtain ⟨start, stop⟩ := bounds
    simp only [rowsBetween?_of_le (le_of_range hrange)]
    rfl

theorem scanPage?_eq (objectType : String) (attributes : List String) (pageSize : Nat)
    (bookmark : String) :
    scanPage? objectType attributes pageSize bookmark =
      unstopped (scanPage objectType attributes pageSize bookmark) := by
  funext m
  refine reading_unstopped ?_
  unfold unstopped
  cases hrange : Composite.range objectType attributes with
  | error error => rfl
  | ok bounds =>
    obtain ⟨start, stop⟩ := bounds
    cases hmark : pageStart start stop bookmark with
    | error error => simp only [hmark]; rfl
    | ok origin =>
      have hle := le_stop_of_pageStart (le_of_range hrange) hmark
      simp only [hmark, rowsBetween?_of_le hle, Option.bind_some, firstPage?_eq]
      rfl

theorem queryPage?_eq (hm : m.size < UInt64.size) (text : String) (pageSize : Nat)
    (bookmark : String) :
    queryPage? text pageSize bookmark m = unstopped (queryPage text pageSize bookmark) m := by
  refine runQuery_unstopped fun query => ?_
  unfold unstopped openPage
  cases hmark : pageOffset bookmark with
  | error error => rfl
  | ok offset =>
    have hrows := Nat.lt_of_le_of_lt (length_select_le query m) hm
    simp only [pageAt?_eq (offset_lt_of_pageOffset hmark) hrows]
    rfl

/-- **Listings and pages never stop.**  In every state, for every partial key, page size and
    bookmark, the calls that go through the keys under a prefix ask for no range that ends
    before it begins, and for no row behind the last.  A page of a query, too, ends at an offset
    that a machine word holds, for every bookmark that is an offset, up to the largest, and
    for as many rows as a machine word counts. -/
theorem paging_never_stops :
    (∀ (p : Partition) (objectType : String) (attributes : List String),
      scan? p objectType attributes = unstopped (scan p objectType attributes)) ∧
    (∀ (objectType : String) (attributes : List String) (pageSize : Nat) (bookmark : String),
      scanPage? objectType attributes pageSize bookmark =
        unstopped (scanPage objectType attributes pageSize bookmark)) ∧
    ∀ (pageSize : Nat) (bookmark : String),
      (∀ (offset : Nat) (rows : List Row), pageOffset bookmark = .ok offset →
        rows.length < UInt64.size →
          offset + (pageAt pageSize offset rows).1.length < UInt64.size) ∧
      ∀ (text : String) (m : Memory), m.size < UInt64.size →
        queryPage? text pageSize bookmark m = unstopped (queryPage text pageSize bookmark) m := by
  refine ⟨scan?_eq, scanPage?_eq, fun pageSize bookmark => ⟨?_, ?_⟩⟩
  · intro offset rows hmark hrows
    exact offset_add_page_lt (offset_lt_of_pageOffset hmark) hrows
  · intro text m hm
    exact queryPage?_eq hm text pageSize bookmark

/-- The largest bookmark, behind two rows and in a query of a ledger with one row. -/
theorem paging_never_stops_largest :
    let largest := "18446744073709551615"
    let rows : List Row := [⟨"a", []⟩, ⟨"b", []⟩]
    let m : Memory := { world := ⟨[("a", [])], List.pairwise_singleton _ _⟩ }
    let text := "\x7b\"selector\":\x7b\x7d\x7d"
    UInt64.size - 1 + (pageAt 1 (UInt64.size - 1) rows).1.length < UInt64.size ∧
      queryPage? text 1 largest m = unstopped (queryPage text 1 largest) m := by
  intro largest rows m text
  have hmark : pageOffset largest = .ok (UInt64.size - 1) := by
    rw [show largest = offsetMark (UInt64.size - 1) by decide +kernel]
    exact pageOffset_offsetMark (by decide)
  obtain ⟨hsum, hquery⟩ := paging_never_stops.2.2 1 largest
  exact ⟨hsum _ rows hmark (by decide), hquery text m (by decide)⟩

end Memory

end EntityStore
