/-
  EntityStore/Proofs/Ledger/Paging.lean
  =====================================
  **Walking through the pages of a prefix** neither loses nor repeats an entry, also
  while the ledger changes between the pages.

  A bookmark is the key of the first row that a page left out.  The next page begins
  at that key, whether or not it is still there, so the pages cut the range of the
  prefix into stretches that lie one behind the other.
-/
import EntityStore.Proofs.Key.Range
import EntityStore.Proofs.Ledger.Memory

namespace EntityStore.Memory

/-! ### Walks -/

/-- A change of the public state by a direct call, under any text as its key. -/
inductive RawChange where
  | write (key : String) (payload : Bytes)
  | delete (key : String)

/-- The ledger behind a direct call; a call that fails leaves it as it was. -/
def RawChange.apply (m : Memory) : RawChange → Memory
  | .write key payload => (Memory.write .world key payload m).2
  | .delete key => (Memory.delete .world key m).2

/-- A page of rows with its bookmark, the cursor read to its end. -/
def page (objectType : String) (attributes : List String) (pageSize : Nat) (bookmark : String) :
    Call Memory (List Row × String) := fun m =>
  match scanPage objectType attributes pageSize bookmark m with
  | (.ok (cursor, info), m) => ((cursor.rows.mapM id).map fun rows => (rows, info.bookmark), m)
  | (.error error, m) => (.error error, m)

/-- A call for a page: the ledger that it met, the rows, and the bookmark. -/
structure PageCall where
  before : Memory
  rows : List Row
  next : String

/-- How a walk ends: behind the last page, between two pages, or with a failure. -/
inductive Ending where
  | finished
  | paused
  | failed (error : LedgerError)

/-- Asks for one page after the other, each at the bookmark of the one before.  Behind
    each page come the changes that others make before the next call; the walk pauses
    where the script of these changes ends. -/
def walk (objectType : String) (attributes : List String) (pageSize : Nat) :
    (script : List (List RawChange)) → (bookmark : String) → Memory → List PageCall × Ending
  | [], _, _ => ([], .paused)
  | changes :: script, bookmark, m =>
    match page objectType attributes pageSize bookmark m with
    | (.error error, _) => ([], .failed error)
    | (.ok (rows, next), after) =>
      if next = "" then ([⟨m, rows, next⟩], .finished)
      else
        let (calls, ending) :=
          walk objectType attributes pageSize script next (changes.foldl RawChange.apply after)
        (⟨m, rows, next⟩ :: calls, ending)

/-- The rows of all pages of a walk. -/
def rowsOf (calls : List PageCall) : List Row := calls.flatMap PageCall.rows

/-- A failure that the ledger was told to give. -/
def Injected (m : Memory) (error : LedgerError) : Prop :=
  m.failingReads ≠ 0 ∧ error = .io "injected read failure" ∨
    m.failingRow ≠ none ∧ error = .io "injected iteration failure"

/-! ### Rows in key order -/

section Rows

variable {m : Memory} {p : Partition} {start stop : String}

theorem rowsBetween_of_le {later : String} (h : start ≤ later) :
    m.rowsBetween p later stop =
      (m.rowsBetween p start stop).filter fun row => later ≤ row.key := by
  unfold rowsBetween OrderedMap.between
  rw [List.filter_map, List.filter_filter]
  congr 1
  refine List.filter_congr fun entry _ => ?_
  by_cases hlater : later ≤ entry.1
  · have hstart : start ≤ entry.1 := String.le_trans h hlater
    simp [hlater, hstart]
  · simp [hlater]

/-- From the key of a row on, there are that row and the rows behind it. -/
theorem rowsBetween_behind {page rest : List Row} {row : Row}
    (hrows : m.rowsBetween p start stop = page ++ row :: rest) :
    m.rowsBetween p row.key stop = row :: rest := by
  have hrow : row ∈ m.rowsBetween p start stop := by
    rw [hrows]
    exact List.mem_append_right _ List.mem_cons_self
  have hsorted := sorted_rowsBetween m p start stop
  rw [hrows, List.pairwise_append] at hsorted
  obtain ⟨-, hrest, hbefore⟩ := hsorted
  -- The rows are in increasing order, so the filter drops all of the page and nothing behind it.
  have hpage : page.filter (fun other => row.key ≤ other.key) = [] := by
    rw [List.filter_eq_nil_iff]
    intro other hother
    have hlt := hbefore other hother row List.mem_cons_self
    simpa using hlt
  have htail : (row :: rest).filter (fun other => row.key ≤ other.key) = row :: rest := by
    rw [List.filter_eq_self]
    intro other hother
    rcases List.mem_cons.mp hother with rfl | hother
    · exact decide_eq_true (String.le_refl _)
    · exact decide_eq_true (Std.le_of_lt ((List.pairwise_cons.mp hrest).1 other hother))
  rw [rowsBetween_of_le (mem_rowsBetween.mp hrow).2.1, hrows, List.filter_append, hpage,
    List.nil_append, htail]

end Rows

/-! ### One page -/

/-- A page holds all rows, or as many as were asked for; then its bookmark is the key of
    the first row behind it. -/
theorem firstPage_cases {rows : List Row} (hkeys : ∀ row ∈ rows, row.key ≠ "") (pageSize : Nat) :
    ((firstPage pageSize rows).1 = rows ∧ (firstPage pageSize rows).2.bookmark = "") ∨
      ∃ row rest, rows = (firstPage pageSize rows).1 ++ row :: rest ∧
        (firstPage pageSize rows).2.bookmark = row.key ∧ row.key ≠ "" ∧
        (firstPage pageSize rows).1.length = pageSize ∧ 0 < pageSize := by
  unfold firstPage
  by_cases hsize : pageSize = 0
  · simp [hsize]
  · simp only [if_neg hsize]
    by_cases hlong : pageSize < rows.length
    · right
      refine ⟨rows[pageSize], rows.drop (pageSize + 1), ?_, ?_, ?_, ?_, ?_⟩
      · rw [← List.drop_eq_getElem_cons hlong, List.take_append_drop]
      · rw [List.getElem?_eq_getElem hlong]
        rfl
      · exact hkeys _ (List.getElem_mem hlong)
      · rw [List.length_take]
        omega
      · omega
    · left
      refine ⟨List.take_of_length_le (by omega), ?_⟩
      rw [List.getElem?_eq_none (by omega)]
      rfl

theorem mapM_id_ok {ρ : Type} (rows : List ρ) :
    (rows.map (.ok : ρ → Except LedgerError ρ)).mapM id = .ok rows := by
  induction rows with
  | nil => rfl
  | cons row rows ih =>
    rw [List.map_cons, List.mapM_cons, ih]
    rfl

theorem failingAfter_cases {ρ : Type} (rows : List ρ) (failing : Option Nat) :
    (failingAfter rows failing).mapM id = .ok rows ∨
      failing ≠ none ∧
        (failingAfter rows failing).mapM id = .error (.io "injected iteration failure") := by
  cases failing with
  | none => exact .inl (mapM_id_ok rows)
  | some count =>
    by_cases hcount : count ≤ rows.length
    · right
      refine ⟨nofun, ?_⟩
      rw [failingAfter, if_pos hcount, List.mapM_append, mapM_id_ok]
      rfl
    · left
      rw [failingAfter, if_neg hcount]
      exact mapM_id_ok rows

section Pages

variable {objectType bookmark start stop origin : String} {attributes : List String}

/-- **What a call for a page does**, if its bookmark is accepted: it gives a failure that
    the ledger was told to give, or the first page of the rows from the bookmark on; the
    entries stay as they are. -/
theorem page_cases (hrange : Composite.range objectType attributes = .ok (start, stop))
    (hmark : pageStart start stop bookmark = .ok origin) (pageSize : Nat) (m : Memory) :
    (∃ error after, page objectType attributes pageSize bookmark m = (.error error, after) ∧
      Injected m error) ∨
    ∃ after, page objectType attributes pageSize bookmark m =
        (.ok ((firstPage pageSize (m.rowsBetween .world origin stop)).1,
          (firstPage pageSize (m.rowsBetween .world origin stop)).2.bookmark), after) ∧
      after.world = m.world ∧ m.failingReads = 0 ∧ after.failingReads = 0 ∧
      after.failingRow = none := by
  -- a pending failure of a read refuses the call before anything is opened
  cases hreads : m.failingReads with
  | succ count =>
    left
    refine ⟨.io "injected read failure", { m with failingReads := count }, ?_, ?_⟩
    · unfold page scanPage reading
      rw [hreads]
    · exact .inl ⟨by omega, rfl⟩
  | zero =>
    have hpage : page objectType attributes pageSize bookmark m =
        (((failingAfter (firstPage pageSize (m.rowsBetween .world origin stop)).1
            m.failingRow).mapM id).map fun rows =>
              (rows, (firstPage pageSize (m.rowsBetween .world origin stop)).2.bookmark),
          (m.openCursor (firstPage pageSize (m.rowsBetween .world origin stop)).1).2) := by
      unfold page scanPage reading
      simp only [hreads, hrange, hmark]
      rfl
    rw [hpage]
    -- otherwise the cursor is read to its end, or to the row that it was told to fail on
    rcases failingAfter_cases (firstPage pageSize (m.rowsBetween .world origin stop)).1
      m.failingRow with hrows | ⟨htold, hrows⟩
    · right
      rw [hrows]
      exact ⟨_, rfl, rfl, rfl, hreads, rfl⟩
    · left
      rw [hrows]
      exact ⟨_, _, rfl, .inr ⟨htold, rfl⟩⟩

/-- **A bookmark is accepted whatever the ledger holds**: any key of the range will do. -/
theorem pageStart_of_mem (hle : Composite.rangeStart objectType attributes ≤ bookmark)
    (hlt : bookmark < Composite.rangeStop objectType attributes) :
    pageStart (Composite.rangeStart objectType attributes)
      (Composite.rangeStop objectType attributes) bookmark = .ok bookmark := by
  have hcomposite := Composite.isComposite_of_mem_range hle hlt
  have hne : bookmark ≠ "" := by
    rintro rfl
    exact absurd hcomposite (by decide)
  rw [pageStart, if_neg hne, if_pos ⟨hcomposite, hle, hlt⟩]

theorem le_of_pageStart (hmark : pageStart start stop bookmark = .ok origin) : start ≤ origin := by
  unfold pageStart at hmark
  split at hmark
  · cases hmark
    exact String.le_refl _
  · split at hmark
    · next hinside =>
      cases hmark
      exact hinside.2.1
    · cases hmark

end Pages

/-! ### Walks -/

theorem failures_apply (m : Memory) (change : RawChange) :
    (change.apply m).failingReads = m.failingReads ∧ (change.apply m).failingRow = m.failingRow := by
  cases change with
  | write key payload =>
    simp only [RawChange.apply, Memory.write, writing]
    split <;> exact ⟨rfl, rfl⟩
  | delete key =>
    simp only [RawChange.apply, Memory.delete, writing]
    split <;> exact ⟨rfl, rfl⟩

theorem failures_foldl (m : Memory) (changes : List RawChange) :
    (changes.foldl RawChange.apply m).failingReads = m.failingReads ∧
      (changes.foldl RawChange.apply m).failingRow = m.failingRow := by
  induction changes generalizing m with
  | nil => exact ⟨rfl, rfl⟩
  | cons change changes ih =>
    obtain ⟨hreads, hrow⟩ := ih (change.apply m)
    obtain ⟨hreads', hrow'⟩ := failures_apply m change
    exact ⟨hreads.trans hreads', hrow.trans hrow'⟩

/-- The calls of a walk from a key on: what they give lies behind that key, in key order
    and as the ledger held it, and no entry that stayed was left out. -/
structure IsFaithful (start stop origin : String) (pageSize : Nat) (calls : List PageCall)
    (ending : Ending) : Prop where
  increasing : (rowsOf calls).Pairwise fun a b => a.key < b.key
  behind : ∀ row ∈ rowsOf calls, origin ≤ row.key
  held : ∀ call ∈ calls, ∀ row ∈ call.rows, row ∈ call.before.rowsBetween .world start stop
  full : ∀ call ∈ calls, call.next ≠ "" → call.rows.length = pageSize
  started : ending = .finished → calls ≠ []
  complete : ending = .finished → ∀ key, origin ≤ key → key < stop →
    (∀ call ∈ calls, (call.before.stored? .world key).isSome) → ∃ row ∈ rowsOf calls, row.key = key

section Walks

variable {start stop origin : String} {pageSize : Nat}

theorem isFaithful_nil {ending : Ending} (h : ending ≠ .finished) :
    IsFaithful start stop origin pageSize [] ending where
  increasing := List.Pairwise.nil
  behind := nofun
  held := nofun
  full := nofun
  started := fun hfinished => absurd hfinished h
  complete := fun hfinished => absurd hfinished h

theorem isFaithful_last (hstart : start ≤ origin) (m : Memory) :
    IsFaithful start stop origin pageSize [⟨m, m.rowsBetween .world origin stop, ""⟩]
      .finished where
  increasing := by
    simpa [rowsOf] using sorted_rowsBetween m .world origin stop
  behind := by
    intro row hrow
    simp only [rowsOf, List.flatMap_cons, List.flatMap_nil, List.append_nil] at hrow
    exact (mem_rowsBetween.mp hrow).2.1
  held := by
    intro call hcall row hrow
    rw [List.mem_singleton.mp hcall] at hrow ⊢
    obtain ⟨hstored, hle, hlt⟩ := mem_rowsBetween.mp hrow
    exact mem_rowsBetween.mpr ⟨hstored, String.le_trans hstart hle, hlt⟩
  full := by
    intro call hcall hnext
    rw [List.mem_singleton.mp hcall] at hnext
    exact absurd rfl hnext
  started := nofun
  complete := by
    -- A key that is live in every call is live in this one, and its row lies in the range.
    intro _ key hle hlt hlive
    obtain ⟨payload, hstored⟩ := Option.isSome_iff_exists.mp (hlive _ List.mem_cons_self)
    refine ⟨⟨key, payload⟩, ?_, rfl⟩
    simp only [rowsOf, List.flatMap_cons, List.flatMap_nil, List.append_nil]
    exact mem_rowsBetween.mpr ⟨hstored, hle, hlt⟩

/-- A page with rows behind it, before a walk from the first of them on. -/
theorem isFaithful_cons (hstart : start ≤ origin) {m : Memory} {rows rest : List Row} {row : Row}
    (hrows : m.rowsBetween .world origin stop = rows ++ row :: rest)
    (hsize : rows.length = pageSize) {calls : List PageCall} {ending : Ending}
    (h : IsFaithful start stop row.key pageSize calls ending) :
    IsFaithful start stop origin pageSize (⟨m, rows, row.key⟩ :: calls) ending := by
  have hsorted := sorted_rowsBetween m .world origin stop
  rw [hrows, List.pairwise_append] at hsorted
  obtain ⟨hpage, hrest, hbefore⟩ := hsorted
  have hmem {other : Row} (hother : other ∈ rows) :
      other ∈ m.rowsBetween .world origin stop := by
    rw [hrows]
    exact List.mem_append_left _ hother
  have hrow : row ∈ m.rowsBetween .world origin stop := by
    rw [hrows]
    exact List.mem_append_right _ List.mem_cons_self
  have horigin : origin ≤ row.key := (mem_rowsBetween.mp hrow).2.1
  have hsplit : rowsOf (⟨m, rows, row.key⟩ :: calls) = rows ++ rowsOf calls := List.flatMap_cons
  constructor
  case increasing =>
    rw [hsplit, List.pairwise_append]
    refine ⟨hpage, h.increasing, ?_⟩
    intro a ha b hb
    exact Std.lt_of_lt_of_le (hbefore a ha row List.mem_cons_self) (h.behind b hb)
  case behind =>
    intro other hother
    rw [hsplit, List.mem_append] at hother
    rcases hother with hother | hother
    · exact (mem_rowsBetween.mp (hmem hother)).2.1
    · exact String.le_trans horigin (h.behind other hother)
  case held =>
    intro call hcall other hother
    rcases List.mem_cons.mp hcall with rfl | hcall
    · obtain ⟨hstored, hle, hlt⟩ := mem_rowsBetween.mp (hmem hother)
      exact mem_rowsBetween.mpr ⟨hstored, String.le_trans hstart hle, hlt⟩
    · exact h.held call hcall other hother
  case full =>
    intro call hcall hnext
    rcases List.mem_cons.mp hcall with rfl | hcall
    · exact hsize
    · exact h.full call hcall hnext
  case started => exact nofun
  case complete =>
    intro hfinished key hle hlt hlive
    rw [hsplit]
    by_cases hkey : row.key ≤ key
    · obtain ⟨found, hfound, hsame⟩ := h.complete hfinished key hkey hlt
        fun call hcall => hlive call (List.mem_cons_of_mem _ hcall)
      exact ⟨found, List.mem_append_right _ hfound, hsame⟩
    · -- an entry before the bookmark was on this page
      obtain ⟨payload, hstored⟩ := Option.isSome_iff_exists.mp (hlive _ List.mem_cons_self)
      have hthere : ⟨key, payload⟩ ∈ rows ++ row :: rest := by
        rw [← hrows]
        exact mem_rowsBetween.mpr ⟨hstored, hle, hlt⟩
      refine ⟨⟨key, payload⟩, List.mem_append_left _ ?_, rfl⟩
      rcases List.mem_append.mp hthere with hthere | hthere
      · exact hthere
      · rcases List.mem_cons.mp hthere with rfl | hthere
        · exact absurd (String.le_refl _) hkey
        · have hlater := (List.pairwise_cons.mp hrest).1 _ hthere
          exact absurd (Std.le_of_lt hlater) hkey

theorem IsFaithful.keys_increasing {calls : List PageCall} {ending : Ending}
    (h : IsFaithful start stop origin pageSize calls ending) :
    ((rowsOf calls).map Row.key).Pairwise (· < ·) := by
  rw [List.pairwise_map]
  exact h.increasing

theorem IsFaithful.count_eq_one {calls : List PageCall} {ending : Ending}
    (h : IsFaithful start stop start pageSize calls ending) (hfinished : ending = .finished)
    {key : String} (hlive : ∀ call ∈ calls, ∃ payload,
      ⟨key, payload⟩ ∈ call.before.rowsBetween .world start stop) :
    ((rowsOf calls).map Row.key).count key = 1 := by
  have hnodup : ((rowsOf calls).map Row.key).Nodup :=
    h.keys_increasing.imp fun hlt => Std.ne_of_lt hlt
  obtain ⟨first, hfirst⟩ := List.exists_mem_of_ne_nil _ (h.started hfinished)
  obtain ⟨payload, hrow⟩ := hlive first hfirst
  obtain ⟨-, hle, hlt⟩ := mem_rowsBetween.mp hrow
  have hstored : ∀ call ∈ calls, (call.before.stored? .world key).isSome := by
    intro call hcall
    obtain ⟨payload, hrow⟩ := hlive call hcall
    exact Option.isSome_iff_exists.mpr ⟨payload, (mem_rowsBetween.mp hrow).1⟩
  obtain ⟨row, hfound, rfl⟩ := h.complete hfinished key hle hlt hstored
  rw [hnodup.count, if_pos (List.mem_map_of_mem hfound)]

end Walks

section Prefix

variable {objectType bookmark origin : String} {attributes : List String} (pageSize : Nat)

theorem ne_empty_of_mem_range {key : String}
    (hle : Composite.rangeStart objectType attributes ≤ key)
    (hlt : key < Composite.rangeStop objectType attributes) : key ≠ "" := by
  rintro rfl
  exact absurd (Composite.isComposite_of_mem_range hle hlt) (by decide)

/-- **One call of a walk**: it fails as the ledger was told to, it finishes the walk with
    all rows from the bookmark on, or it leaves a walk from the first row behind. -/
theorem walk_cons_cases (hplain : ∀ part ∈ objectType :: attributes, Composite.IsPlain part)
    (hmark : pageStart (Composite.rangeStart objectType attributes)
      (Composite.rangeStop objectType attributes) bookmark = .ok origin)
    (changes : List RawChange) (script : List (List RawChange)) (m : Memory) :
    let rows := m.rowsBetween .world origin (Composite.rangeStop objectType attributes)
    (∃ error, walk objectType attributes pageSize (changes :: script) bookmark m =
      ([], .failed error) ∧ Injected m error) ∨
    (m.failingReads = 0 ∧ walk objectType attributes pageSize (changes :: script) bookmark m =
      ([⟨m, rows, ""⟩], .finished)) ∨
    ∃ page row rest after, m.failingReads = 0 ∧ rows = page ++ row :: rest ∧
      page.length = pageSize ∧ 0 < pageSize ∧
      after.world = m.world ∧ after.failingReads = 0 ∧ after.failingRow = none ∧
      walk objectType attributes pageSize (changes :: script) bookmark m =
        let next := walk objectType attributes pageSize script row.key
          (changes.foldl RawChange.apply after)
        (⟨m, page, row.key⟩ :: next.1, next.2) := by
  intro rows
  -- no key under the prefix is empty, so an empty bookmark means that no row is behind
  have hkeys : ∀ row ∈ rows, row.key ≠ "" := by
    intro row hrow
    obtain ⟨-, hle, hlt⟩ := mem_rowsBetween.mp hrow
    exact ne_empty_of_mem_range (String.le_trans (le_of_pageStart hmark) hle) hlt
  rcases page_cases (Composite.range_eq hplain) hmark pageSize m with
    ⟨error, after, hpage, hinjected⟩ | ⟨after, hpage, hworld, hreads, hreads', hrow'⟩
  · left
    refine ⟨error, ?_, hinjected⟩
    rw [walk, hpage]
  · right
    -- the page holds all rows that are left, or is full with rows behind it
    rcases firstPage_cases hkeys pageSize with ⟨hall, hlast⟩ | ⟨row, rest, hsplit, hnext, hne, hsize, hpos⟩
    · left
      refine ⟨hreads, ?_⟩
      rw [walk, hpage]
      simp only [rows] at hall hlast
      simp only [hall, hlast, if_pos]
      rfl
    · right
      refine ⟨(firstPage pageSize rows).1, row, rest, after, hreads, hsplit, hsize, hpos, hworld,
        hreads', hrow', ?_⟩
      rw [walk, hpage]
      simp only [rows] at hnext
      simp only [hnext, if_neg hne]
      rfl

/-- **A walk is faithful whatever happens between its pages**, and only a failure that
    the ledger was told to give can stop it. -/
theorem walk_isFaithful (hplain : ∀ part ∈ objectType :: attributes, Composite.IsPlain part)
    (script : List (List RawChange)) (m : Memory)
    (hmark : pageStart (Composite.rangeStart objectType attributes)
      (Composite.rangeStop objectType attributes) bookmark = .ok origin) :
    IsFaithful (Composite.rangeStart objectType attributes)
        (Composite.rangeStop objectType attributes) origin pageSize
        (walk objectType attributes pageSize script bookmark m).1
        (walk objectType attributes pageSize script bookmark m).2 ∧
      ∀ error, (walk objectType attributes pageSize script bookmark m).2 = .failed error →
        Injected m error := by
  induction script generalizing bookmark origin m with
  | nil => exact ⟨isFaithful_nil nofun, nofun⟩
  | cons changes script ih =>
    rcases walk_cons_cases pageSize hplain hmark changes script m with
      ⟨error, hwalk, hinjected⟩ | ⟨-, hwalk⟩ |
      ⟨page, row, rest, after, -, hrows, hsize, -, -, hreads, hrow, hwalk⟩
    · rw [hwalk]
      refine ⟨isFaithful_nil nofun, fun other hother => ?_⟩
      cases hother
      exact hinjected
    · rw [hwalk]
      exact ⟨isFaithful_last (le_of_pageStart hmark) m, nofun⟩
    · have hmem : row ∈ m.rowsBetween .world origin (Composite.rangeStop objectType attributes) := by
        rw [hrows]
        exact List.mem_append_right _ List.mem_cons_self
      obtain ⟨-, hle, hlt⟩ := mem_rowsBetween.mp hmem
      have hlater := String.le_trans (le_of_pageStart hmark) hle
      obtain ⟨hfaithful, hfailed⟩ := ih (changes.foldl RawChange.apply after)
        (pageStart_of_mem hlater hlt)
      rw [hwalk]
      refine ⟨isFaithful_cons (le_of_pageStart hmark) hrows hsize hfaithful, fun error herror => ?_⟩
      -- the first call has used up every failure
      obtain ⟨hreads', hrow'⟩ := failures_foldl after changes
      rcases hfailed error herror with ⟨hpending, -⟩ | ⟨hpending, -⟩
      · exact absurd (hreads'.trans hreads) hpending
      · exact absurd (hrow'.trans hrow) hpending

/-- **A walk through a ledger that nothing changes** comes to its end and gives all rows,
    if enough calls are made. -/
theorem walk_unchanged (hplain : ∀ part ∈ objectType :: attributes, Composite.IsPlain part)
    {calls : Nat} (m : Memory)
    (hmark : pageStart (Composite.rangeStart objectType attributes)
      (Composite.rangeStop objectType attributes) bookmark = .ok origin)
    (hcalls : (m.rowsBetween .world origin
      (Composite.rangeStop objectType attributes)).length < calls) :
    let walked := walk objectType attributes pageSize (List.replicate calls []) bookmark m
    walked.2 ≠ .paused ∧
      (walked.2 = .finished → rowsOf walked.1 = m.rowsBetween .world origin
        (Composite.rangeStop objectType attributes)) := by
  induction calls generalizing bookmark origin m with
  | zero => exact absurd hcalls (Nat.not_lt_zero _)
  | succ calls ih =>
    intro walked
    rcases walk_cons_cases pageSize hplain hmark [] (List.replicate calls []) m with
      ⟨error, hwalk, -⟩ | ⟨-, hwalk⟩ |
      ⟨page, row, rest, after, -, hrows, hsize, hpos, hworld, -, -, hwalk⟩
    · have hwalked : walked = ([], .failed error) := hwalk
      rw [hwalked]
      exact ⟨nofun, nofun⟩
    · have hwalked : walked = ([⟨m, _, ""⟩], .finished) := hwalk
      rw [hwalked]
      refine ⟨nofun, fun _ => ?_⟩
      rw [rowsOf, List.flatMap_cons, List.flatMap_nil, List.append_nil]
    · have hwalked : walked = _ := hwalk
      have hmem : row ∈ m.rowsBetween .world origin (Composite.rangeStop objectType attributes) := by
        rw [hrows]
        exact List.mem_append_right _ List.mem_cons_self
      obtain ⟨-, hle, hlt⟩ := mem_rowsBetween.mp hmem
      have hlater := String.le_trans (le_of_pageStart hmark) hle
      -- the next walk meets the rows that this page left out
      have hnext : after.rowsBetween .world row.key
          (Composite.rangeStop objectType attributes) = row :: rest := by
        unfold rowsBetween at hrows ⊢
        rw [show after.entries .world = m.entries .world from hworld]
        exact rowsBetween_behind hrows
      have hshort : (after.rowsBetween .world row.key
          (Composite.rangeStop objectType attributes)).length < calls := by
        have hlength := congrArg List.length hrows
        rw [List.length_append] at hlength
        rw [hnext]
        omega
      obtain ⟨hpaused, hall⟩ := ih after (pageStart_of_mem hlater hlt) hshort
      rw [hwalked]
      refine ⟨hpaused, fun hfinished => ?_⟩
      have hrest := hall hfinished
      rw [hnext] at hrest
      rw [hrows, ← hrest]
      rfl

end Prefix

theorem finished_of_isQuiet {walked : List PageCall × Ending} {m : Memory} (hm : m.IsQuiet)
    (hfailed : ∀ error, walked.2 = .failed error → Injected m error)
    (hpaused : walked.2 ≠ .paused) : walked.2 = .finished := by
  cases hending : walked.2 with
  | finished => rfl
  | paused => exact absurd hending hpaused
  | failed error =>
    rcases hfailed error hending with ⟨hpending, -⟩ | ⟨hpending, -⟩
    · exact absurd hm.reads hpending
    · exact absurd hm.rows hpending

/-- **Walking through the pages of a prefix neither loses nor repeats an entry.**  Whatever
    direct calls are made between the pages, only a failure that the ledger was told to
    give can refuse a bookmark; the keys increase strictly over the whole walk; every row
    is one that the ledger held at its call; and a walk that comes to its end has given
    exactly once every entry that was there at every call.  Where nothing changes, all
    pages but the last have the size that was asked for, the walk ends, and its rows are
    those of a scan. -/
theorem walk_exact (objectType : String) (attributes : List String)
    (hplain : ∀ part ∈ objectType :: attributes, Composite.IsPlain part) (pageSize : Nat)
    (m : Memory) :
    (∀ script : List (List RawChange),
      let walked := walk objectType attributes pageSize script "" m
      (∀ error, walked.2 = .failed error → Injected m error) ∧
      ((rowsOf walked.1).map Row.key).Pairwise (· < ·) ∧
      (∀ call ∈ walked.1, ∀ row ∈ call.rows,
        row ∈ rowsUnder objectType attributes call.before) ∧
      (walked.2 = .finished → ∀ key,
        (∀ call ∈ walked.1, ∃ payload, ⟨key, payload⟩ ∈ rowsUnder objectType attributes call.before) →
          ((rowsOf walked.1).map Row.key).count key = 1)) ∧
    (∀ calls, (rowsUnder objectType attributes m).length < calls →
      let walked := walk objectType attributes pageSize (List.replicate calls []) "" m
      (∀ call ∈ walked.1, call.next ≠ "" → call.rows.length = pageSize) ∧
      walked.2 ≠ .paused ∧
      (walked.2 = .finished → rowsOf walked.1 = rowsUnder objectType attributes m) ∧
      (m.IsQuiet → walked.2 = .finished ∧
        ∃ cursor, (scan .world objectType attributes m).1 = .ok cursor ∧
          cursor.rows = (rowsOf walked.1).map .ok)) := by
  -- the empty bookmark is the start of the range
  have hfirst : pageStart (Composite.rangeStart objectType attributes)
      (Composite.rangeStop objectType attributes) "" =
        .ok (Composite.rangeStart objectType attributes) := rfl
  -- one invariant serves both halves; it holds along any script, the empty one included
  have hwalk (script : List (List RawChange)) := walk_isFaithful pageSize hplain script m hfirst
  constructor
  · intro script walked
    obtain ⟨hfaithful, hfailed⟩ := hwalk script
    refine ⟨hfailed, hfaithful.keys_increasing, ?_, ?_⟩
    · intro call hcall row hrow
      rw [rowsUnder_eq hplain]
      exact hfaithful.held call hcall row hrow
    · intro hfinished key hlive
      refine hfaithful.count_eq_one hfinished ?_
      intro call hcall
      obtain ⟨payload, hrow⟩ := hlive call hcall
      rw [rowsUnder_eq hplain] at hrow
      exact ⟨payload, hrow⟩
  · intro calls hcalls walked
    rw [rowsUnder_eq hplain] at hcalls
    obtain ⟨hpaused, hall⟩ := walk_unchanged pageSize hplain m hfirst hcalls
    obtain ⟨hfaithful, hfailed⟩ := hwalk (List.replicate calls [])
    refine ⟨hfaithful.full, hpaused, ?_, ?_⟩
    · rw [rowsUnder_eq hplain]
      exact hall
    · intro hquiet
      have hfinished := finished_of_isQuiet hquiet hfailed hpaused
      refine ⟨hfinished, ⟨m.nextCursor, (rowsUnder objectType attributes m).map .ok⟩, ?_, ?_⟩
      · rw [scan_of_isQuiet hquiet .world (Composite.range_eq hplain), rowsUnder_eq hplain]
      · rw [rowsUnder_eq hplain, ← hall hfinished]

/-- Three entries, one to a page: the walk goes on where the bookmarked entry is deleted,
    and gives all three where nothing changes. -/
theorem walk_exact_three :
    let key (number : String) := (Key.mk ["book", number]).spell
    let m := ((empty.written .world (key "1") []).written .world (key "2") []).written .world
      (key "3") []
    ((rowsOf (walk "book" [] 1 [[.delete (key "2")], [], []] "" m).1).map Row.key).Pairwise (· < ·) ∧
      rowsOf (walk "book" [] 1 (List.replicate 4 []) "" m).1 = rowsUnder "book" [] m := by
  intro key m
  obtain ⟨hchanged, hunchanged⟩ := walk_exact "book" [] (by decide +kernel) 1 m
  refine ⟨(hchanged [[.delete (key "2")], [], []]).2.1, ?_⟩
  obtain ⟨-, -, hrows, hquiet⟩ := hunchanged 4 (by decide +kernel)
  exact hrows (hquiet ⟨rfl, rfl⟩).1

end EntityStore.Memory
