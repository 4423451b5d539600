/-
  EntityStore/Proofs/Query/Integers.lean
  ======================================
  **What a query makes of integers.**

  Equality of integers is exact.  Their order is not: both sides are rounded to
  floating-point numbers before they are compared, so the range operators and sorting see
  `Binary64.nearestInt` of each.  Rounding never exchanges two integers, but different ones
  that become the same number are neither equal nor ordered
  (`integers_compare_as_rounded`).
-/
import EntityStore.Proofs.Binary.Order
import EntityStore.Proofs.Json.Numbers
import EntityStore.Proofs.Query.Sorting
import EntityStore.Proofs.Query.Truth

namespace EntityStore

open Binary64 (exactBound nearestInt nearestInt_of_le nearestInt_mono nearestInt_near)

variable {x y : Int}

/-! ### The order of rounded integers -/

/-- Rounding does not make the two integers one. -/
def ToldApart (x y : Int) : Prop := nearestInt x = nearestInt y → x = y

theorem toldApart_of_le (hx : x.natAbs ≤ exactBound) (hy : y.natAbs ≤ exactBound) :
    ToldApart x y := by
  rw [ToldApart, nearestInt_of_le hx, nearestInt_of_le hy]
  exact id

theorem ToldApart.symm (h : ToldApart x y) : ToldApart y x := fun hsame => (h hsame.symm).symm

theorem ToldApart.nearestInt_lt_iff (h : ToldApart x y) : nearestInt x < nearestInt y ↔ x < y := by
  constructor
  · intro hlt
    apply Int.not_le.mp
    exact fun hle => Int.not_le.mpr hlt (nearestInt_mono hle)
  · intro hlt
    have hle := nearestInt_mono (Int.le_of_lt hlt)
    exact lt_of_le_of_ne hle fun hsame => Int.ne_of_lt hlt (h hsame)

theorem ToldApart.nearestInt_le_iff (h : ToldApart x y) : nearestInt x ≤ nearestInt y ↔ x ≤ y := by
  rw [← Int.not_lt, h.symm.nearestInt_lt_iff, Int.not_lt]

theorem ToldApart.compare_nearestInt (h : ToldApart x y) :
    compare (nearestInt x) (nearestInt y) = compare x y := by
  rcases Int.lt_trichotomy x y with hlt | rfl | hgt
  · rw [Std.compare_eq_lt.mpr hlt, Std.compare_eq_lt.mpr (h.nearestInt_lt_iff.mpr hlt)]
  · rw [Std.compare_self, Std.compare_self]
  · rw [Std.compare_eq_gt.mpr hgt, Std.compare_eq_gt.mpr (h.symm.nearestInt_lt_iff.mpr hgt)]

theorem Json.IsWord.natAbs_lt (h : Json.IsWord x) : x.natAbs < UInt64.size := by
  obtain ⟨hlow, hhigh⟩ := Json.isWord_iff.mp h
  have hsize : UInt64.size = 0x10000000000000000 := rfl
  omega

namespace Query

theorem compare?_int (hx : Json.IsWord x) (hy : Json.IsWord y) :
    compare? (.num (.int x)) (.num (.int y)) = some (compare (nearestInt x) (nearestInt y)) :=
  Binary64.compare?_ofInt hx.natAbs_lt hy.natAbs_lt

/-! ### Conditions -/

/-- A condition of one operator on a field. -/
theorem matchesSelector_operator {document argument : Json} {field operator : String}
    (hfield : combinator? field = none) (hoperator : operator.toList.head? = some '$') :
    matchesSelector document [(field, .obj [(operator, argument)])] =
      holds (field? document field) operator argument := by
  have hoperators : isOperators [(operator, argument)] = true := by simp [isOperators, hoperator]
  rw [matchesSelector_single, matchesMember, hfield]
  simp only [matchesField, hoperators, if_true, List.all_cons, List.all_nil, Bool.and_true]

/-- The range operators on a value that compares with the argument. -/
theorem holds_of_compare? {value argument : Json} {ordering : Ordering}
    (h : compare? value argument = some ordering) :
    holds (some value) "$gt" argument = ordering.isGT ∧
      holds (some value) "$gte" argument = ordering.isGE ∧
      holds (some value) "$lt" argument = ordering.isLT ∧
      holds (some value) "$lte" argument = ordering.isLE := by
  simp [holds, ordered, h]

theorem holds_eq (value argument : Json) :
    holds (some value) "$eq" argument = value.same argument := by
  simp [holds, isEqual]

theorem holds_ne (value argument : Json) :
    holds (some value) "$ne" argument = !value.same argument := by
  simp [holds, isEqual]

theorem same_int (x y : Int) : Json.same (.num (.int x)) (.num (.int y)) = (x == y) := by
  simp only [Json.same, Number.same]

end Query

open Query

variable {field operator : String} {document : Json}

/-- The document meets a condition of one operator and an integer on a field. -/
def Meets (document : Json) (field operator : String) (argument : Int) : Prop :=
  matchesSelector document [(field, .obj [(operator, .num (.int argument))])] = true

instance (document : Json) (field operator : String) (argument : Int) :
    Decidable (Meets document field operator argument) :=
  inferInstanceAs (Decidable (_ = true))

theorem meets_iff {verdict : Bool} (hfield : combinator? field = none)
    (hoperator : operator.toList.head? = some '$')
    (hvalue : field? document field = some (.num (.int x)))
    (h : holds (some (.num (.int x))) operator (.num (.int y)) = verdict) :
    Meets document field operator y ↔ verdict = true := by
  rw [Meets, matchesSelector_operator hfield hoperator, hvalue, h]

/-- Equality sees the integers, the range operators what rounding leaves of them. -/
theorem meets_int (hfield : combinator? field = none)
    (hvalue : field? document field = some (.num (.int x))) (hx : Json.IsWord x)
    (hy : Json.IsWord y) :
    (Meets document field "$eq" y ↔ x = y) ∧ (Meets document field "$ne" y ↔ x ≠ y) ∧
      (Meets document field "$gt" y ↔ nearestInt y < nearestInt x) ∧
      (Meets document field "$gte" y ↔ nearestInt y ≤ nearestInt x) ∧
      (Meets document field "$lt" y ↔ nearestInt x < nearestInt y) ∧
      (Meets document field "$lte" y ↔ nearestInt x ≤ nearestInt y) := by
  obtain ⟨hgt, hge, hlt, hle⟩ := holds_of_compare? (compare?_int hx hy)
  refine ⟨?_, ?_, ?_, ?_, ?_, ?_⟩
  · rw [meets_iff hfield rfl hvalue (holds_eq _ _), same_int, beq_iff_eq]
  · rw [meets_iff hfield rfl hvalue (holds_ne _ _), same_int, Bool.not_eq_true',
      beq_eq_false_iff_ne]
  · rw [meets_iff hfield rfl hvalue hgt, Ordering.isGT_iff_eq_gt, Std.compare_eq_gt]
  · rw [meets_iff hfield rfl hvalue hge, Std.isGE_compare]
  · rw [meets_iff hfield rfl hvalue hlt, Ordering.isLT_iff_eq_lt, Std.compare_eq_lt]
  · rw [meets_iff hfield rfl hvalue hle, Std.isLE_compare]

/-! ### Sorting -/

section Sorting

variable {α : Type} {query : DocumentQuery} {rows : List (α × Json)} {value : α × Json → Int}

theorem linesUp_int
    (hrows : ∀ row ∈ rows, field? row.2 field = some (.num (.int (value row))) ∧
      Json.IsWord (value row)) : LinesUp (rows.map Prod.snd) field := by
  have hint {v : Json} (hv : v ∈ fieldValues (rows.map Prod.snd) field) :
      ∃ n, v = .num (.int n) ∧ Json.IsWord n := by
    obtain ⟨document, hdocument, hfound⟩ := mem_fieldValues.mp hv
    obtain ⟨row, hrow, rfl⟩ := List.mem_map.mp hdocument
    obtain ⟨hvalue, hword⟩ := hrows row hrow
    exact ⟨value row, Option.some.inj (hfound.symm.trans hvalue), hword⟩
  refine .inl fun v hv w hw => ?_
  obtain ⟨m, rfl, hm⟩ := hint hv
  obtain ⟨n, rfl, hn⟩ := hint hw
  exact Option.isSome_of_eq_some (compare?_int hm hn)

/-- Rows sorted by an integer field are arranged by what rounding leaves of the integers. -/
theorem order_int (hsort : query.sort = [(field, false)])
    (hrows : ∀ row ∈ rows, field? row.2 field = some (.num (.int (value row))) ∧
      Json.IsWord (value row)) :
    IsStableArrangement (fun a b => compare (nearestInt (value a)) (nearestInt (value b))) rows
      (query.order rows) := by
  have hlined : ∀ sorted ∈ query.sort, LinesUp (rows.map Prod.snd) sorted.1 := by
    rw [hsort]
    rintro _ (_ | ⟨_, ⟨⟩⟩)
    exact linesUp_int hrows
  refine (DocumentQuery.order_isStable hlined).congr fun a ha b hb => ?_
  obtain ⟨hvalueA, hwordA⟩ := hrows a ha
  obtain ⟨hvalueB, hwordB⟩ := hrows b hb
  rw [DocumentQuery.compareRows, hsort, DocumentQuery.compareBy_cons, DocumentQuery.compareField_eq,
    hvalueA, hvalueB]
  simp only [Bool.false_eq_true, if_false, standing, compare?_int hwordA hwordB, Option.getD_some,
    DocumentQuery.compareBy, Ordering.then_eq]

end Sorting

/-- **Integers are compared as rounded.**  `$eq` and `$ne` are exact on all integers of a
    word; the range operators and an ascending sort go by the integers of fifty-three
    significant bits nearest to them.  They are exact as long as no two different integers
    have the same one, so always up to `2 ^ 53`. -/
theorem integers_compare_as_rounded (hfield : combinator? field = none) :
    (∀ document x y, field? document field = some (.num (.int x)) →
      Json.IsWord x → Json.IsWord y →
      (Meets document field "$eq" y ↔ x = y) ∧ (Meets document field "$ne" y ↔ x ≠ y) ∧
      (Meets document field "$gt" y ↔ nearestInt y < nearestInt x) ∧
      (Meets document field "$gte" y ↔ nearestInt y ≤ nearestInt x) ∧
      (Meets document field "$lt" y ↔ nearestInt x < nearestInt y) ∧
      (Meets document field "$lte" y ↔ nearestInt x ≤ nearestInt y) ∧
      (ToldApart x y ↔
        (Meets document field "$gt" y ↔ y < x) ∧ (Meets document field "$gte" y ↔ y ≤ x) ∧
        (Meets document field "$lt" y ↔ x < y) ∧ (Meets document field "$lte" y ↔ x ≤ y))) ∧
    (∀ (α : Type) (query : DocumentQuery) (rows : List (α × Json)) (value : α × Json → Int),
      query.sort = [(field, false)] →
      (∀ row ∈ rows, field? row.2 field = some (.num (.int (value row))) ∧
        Json.IsWord (value row)) →
      IsStableArrangement (fun a b => compare (nearestInt (value a)) (nearestInt (value b))) rows
        (query.order rows) ∧
      ((∀ a ∈ rows, ∀ b ∈ rows, ToldApart (value a) (value b)) →
        IsStableArrangement (fun a b => compare (value a) (value b)) rows (query.order rows))) ∧
    (∀ x y, x ≤ y → nearestInt x ≤ nearestInt y) ∧
    (∀ x, exactBound * (nearestInt x - x).natAbs ≤ x.natAbs) ∧
    ∀ x y, x.natAbs ≤ exactBound → y.natAbs ≤ exactBound → ToldApart x y := by
  refine ⟨fun document x y hvalue hx hy => ?_, fun α query rows value hsort hrows => ?_,
    fun _ _ => nearestInt_mono, nearestInt_near, fun _ _ => toldApart_of_le⟩
  · obtain ⟨heq, hne, hgt, hge, hlt, hle⟩ := meets_int hfield hvalue hx hy
    refine ⟨heq, hne, hgt, hge, hlt, hle, ?_⟩
    rw [hgt, hge, hlt, hle]
    constructor
    · intro hapart
      exact ⟨hapart.symm.nearestInt_lt_iff, hapart.symm.nearestInt_le_iff,
        hapart.nearestInt_lt_iff, hapart.nearestInt_le_iff⟩
    · rintro ⟨-, hge, -, hle⟩ hsame
      exact Int.le_antisymm (hle.mp (Int.le_of_eq hsame)) (hge.mp (Int.le_of_eq hsame.symm))
  · have harranged := order_int hsort hrows
    exact ⟨harranged, fun hapart => harranged.congr fun a ha b hb =>
      (hapart a ha b hb).compare_nearestInt⟩

/-- Ten is more than nine, and three rows are sorted with the ties as they came. -/
theorem integers_compare_as_rounded_small :
    let document (n : Int) : Json := .obj [("n", .num (.int n))]
    let query : DocumentQuery := ⟨[], [("n", false)], none, 0⟩
    let numbers : List Int := [3, -2, 3]
    let rows := numbers.map fun n => (n, document n)
    Meets (document 10) "n" "$gt" 9 ∧ ¬ Meets (document 10) "n" "$lte" 9 ∧
      IsStableArrangement (fun a b => compare a.1 b.1) rows (query.order rows) := by
  intro document query numbers rows
  obtain ⟨hconditions, hsorting, -, -, hsmall⟩ :=
    integers_compare_as_rounded (show combinator? "n" = none by decide)
  have hword (n : Int) (h : n.natAbs ≤ 10) : Json.IsWord n := Json.isWord_iff.mpr (by omega)
  have hrows : ∀ row ∈ rows, field? row.2 "n" = some (.num (.int row.1)) ∧ row.1.natAbs ≤ 10 := by
    intro row hrow
    obtain ⟨n, hn, rfl⟩ := List.mem_map.mp hrow
    have hnumbers : ∀ n ∈ numbers, n.natAbs ≤ 10 := by decide
    exact ⟨rfl, hnumbers n hn⟩
  obtain ⟨-, -, -, -, -, -, hexact⟩ :=
    hconditions (document 10) 10 9 rfl (hword 10 (by decide)) (hword 9 (by decide))
  obtain ⟨hgt, -, -, hle⟩ := hexact.mp (hsmall 10 9 (by decide) (by decide))
  obtain ⟨-, hstable⟩ := hsorting Int query rows Prod.fst rfl fun row hrow =>
    ⟨(hrows row hrow).1, hword _ (hrows row hrow).2⟩
  refine ⟨hgt.mpr (by decide), fun h => absurd (hle.mp h) (by decide), hstable fun a ha b hb => ?_⟩
  have hbound : 10 ≤ exactBound := by decide
  exact hsmall _ _ (Nat.le_trans (hrows a ha).2 hbound) (Nat.le_trans (hrows b hb).2 hbound)

/-- `2 ^ 53 + 1` becomes `2 ^ 53`: it is larger, but is found neither larger nor equal nor
    smaller, and is left before it by an ascending sort. -/
theorem rounded_integers_are_neither_equal_nor_ordered :
    let document (n : Int) : Json := .obj [("n", .num (.int n))]
    let query : DocumentQuery := ⟨[], [("n", false)], none, 0⟩
    let larger : Int := 9007199254740993
    let smaller : Int := 9007199254740992
    smaller < larger ∧ Json.IsWord smaller ∧ Json.IsWord larger ∧
      ¬ Meets (document larger) "n" "$gt" smaller ∧ ¬ Meets (document larger) "n" "$eq" smaller ∧
      ¬ Meets (document larger) "n" "$lt" smaller ∧ Meets (document larger) "n" "$lte" smaller ∧
      (query.order [(larger, document larger), (smaller, document smaller)]).map Prod.fst =
        [larger, smaller] := by
  intro document query larger smaller
  exact ⟨by decide, ⟨by decide, by decide⟩, ⟨by decide, by decide⟩, by decide +kernel,
    by decide +kernel, by decide +kernel, by decide +kernel, by decide +kernel⟩

end EntityStore
