/-
  EntityStore/Query/RowSort.lean
  ==============================
  **The sort behind a document query** — rows are handed to a stable sort together with
  a comparison, and the sort may stop without an arrangement.

  A sort answers for its arrangement only where the comparison orders the rows.  Where
  some values tie with others that differ, it may leave the rows in any order, and it
  may also notice that its comparisons contradict each other and stop.  A sort that
  inserts one row after the other never does; one that merges from both ends does if the
  ends do not meet.
-/
import EntityStore.Query.Document

namespace EntityStore

open DocumentQuery (place arrange)

/-- A sort of rows by a comparison that tells which of two rows stands strictly before the
    other.  `none` is a sort that stops. -/
structure RowSort where
  run : {α : Type} → (α → α → Bool) → List α → Option (List α)

namespace RowSort

variable {α : Type} (less : α → α → Bool)

/-! ### Halves -/

/-- Four rows in order, by five comparisons: two pairs, the first and the last of all, and
    the two that are left, of which the one further to the left is named first. -/
def arrangeFour (a b c d : α) : List α :=
  let (low, high) := if less b a then (b, a) else (a, b)
  let (low', high') := if less d c then (d, c) else (c, d)
  let (first, left, right, last) :=
    match less low' low, less high' high with
    | false, false => (low, high, low', high')
    | false, true => (low, low', high', high)
    | true, false => (low', low, high, high')
    | true, true => (low', low, high', high)
  if less right left then [first, right, left, last] else [first, left, right, last]

/-- Rows put in order one after the other behind some that are in order. -/
def extend (arranged rows : List α) : List α :=
  (rows.foldl (fun reversed row => place less row reversed) arranged.reverse).reverse

/-- One half of the rows: the first four at once, then the others one by one. -/
def arrangeHalf : List α → List α
  | a :: b :: c :: d :: rest => extend less (arrangeFour less a b c d) rest
  | rows => arrange less rows

/-! ### Merging from both ends -/

/-- Takes some rows from the front of two lists, of rows that tie the one on the left, and
    counts how many came from either list. -/
def takeFront : Nat → List α → List α → List α × Nat × Nat
  | steps + 1, a :: left, b :: right =>
    if less b a then
      let (taken, fromLeft, fromRight) := takeFront steps (a :: left) right
      (b :: taken, fromLeft, fromRight + 1)
    else
      let (taken, fromLeft, fromRight) := takeFront steps left (b :: right)
      (a :: taken, fromLeft + 1, fromRight)
  | _, _, _ => ([], 0, 0)

/-- Merges two lists from both ends at once.  As many rows as the first list has are taken
    from either end; then the ends must have met in both lists, or be one row apart. -/
def merge? (left right : List α) : Option (List α) :=
  let (front, i, j) := takeFront less left.length left right
  let (back, j', i') :=
    takeFront (fun a b => less b a) left.length right.reverse left.reverse
  let leftEnd := left.length - i'
  let rightEnd := right.length - j'
  if i ≤ leftEnd ∧ j ≤ rightEnd then
    some (front ++ ((left.take leftEnd).drop i ++ (right.take rightEnd).drop j) ++ back.reverse)
  else none

/-! ### Rows that are in order already -/

/-- How many rows go on falling, or go on without falling, behind one of them. -/
def runOn (falling : Bool) (last : α) : List α → Nat
  | [] => 0
  | row :: rest => if less row last = falling then runOn falling row rest + 1 else 0

/-- The length of the run at the front, which falls or does not. -/
def frontRun : List α → Nat
  | first :: second :: rest => runOn less (less second first) second rest + 2
  | rows => rows.length

/-- Up to twenty rows are inserted one after the other.  Up to thirty-two are put in order
    in two halves that are merged from both ends, unless a run at their front covers the
    larger half.  What becomes of other rows in disorder is left open by what a sort
    promises; they are inserted as well. -/
def twoEnded : RowSort where
  run less rows :=
    let half := rows.length / 2
    if 20 < rows.length ∧ rows.length ≤ 32 ∧ frontRun less rows < rows.length - half then
      merge? less (arrangeHalf less (rows.take half)) (arrangeHalf less (rows.drop half))
    else some (arrange less rows)

end RowSort

namespace DocumentQuery

variable {α : Type}

/-- The rows as a sort arranges them.  A query that sorts by nothing does not call it. -/
def orderBy? (sort : RowSort) (query : DocumentQuery) (rows : List (α × Json)) :
    Option (List (α × Json)) :=
  if query.sort.isEmpty then some rows
  else sort.run (fun a b => compareBy query.sort a.2 b.2 == .lt) rows

/-- The rows that the query asks for, as a sort arranges them. -/
def selectBy? (sort : RowSort) (query : DocumentQuery) (rows : List (α × Json)) :
    Option (List α) :=
  (query.orderBy? sort (rows.filter fun row => query.accepts row.2)).map fun arranged =>
    (arranged.map Prod.fst).drop query.skip

end DocumentQuery

end EntityStore
