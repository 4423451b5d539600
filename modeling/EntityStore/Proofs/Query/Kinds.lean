/-
  EntityStore/Proofs/Query/Kinds.lean
  ===================================
  **Values of one kind compare.**

  A text of JSON has no number that is no number: however large or small it is written,
  reading it ends in a number or fails (`Json.IsNumeric`).  So the numbers of documents
  that were read all compare, like texts do and like truth values do, and a field that
  holds values of one of these kinds lines up (`Query.OfOneKind.linesUp`).
-/
import EntityStore.Json.Reader
import EntityStore.Proofs.Binary.Order
import EntityStore.Proofs.OrderedMap
import EntityStore.Proofs.Query.Sorting

namespace EntityStore

namespace Json

/-! ### Numbers as they are read -/

theorem isNaN_of_scale? {fuel : Nat} {x y : Binary64} {power : Int} (hx : x.isNaN = false)
    (h : scale? fuel x power = some y) : y.isNaN = false := by
  induction fuel generalizing x power with
  | zero =>
    cases h
    exact hx
  | succ fuel ih =>
    rw [scale?] at h
    split at h
    · split at h
      · obtain ⟨-, hy⟩ := Option.ite_none_left_eq_some.mp h
        exact Option.some.inj hy ▸ Binary64.isNaN_mul _ _
      · exact Option.some.inj h ▸ Binary64.isNaN_div _ _
    · split at h
      · exact Option.some.inj h ▸ hx
      · obtain ⟨-, hy⟩ := Option.ite_none_left_eq_some.mp h
        exact ih (Binary64.isNaN_div _ _) hy

theorem isNaN_of_toBinary64? {numeral : Numeral} {x : Binary64}
    (h : numeral.toBinary64? = some x) : x.isNaN = false := by
  obtain ⟨magnitude, hmagnitude, rfl⟩ := Option.map_eq_some_iff.mp h
  have hnumber : magnitude.isNaN = false := by
    split at hmagnitude
    · exact isNaN_of_scale? (Binary64.isNaN_ofInt _) hmagnitude
    · simp only at hmagnitude
      split at hmagnitude
      · exact isNaN_of_scale? (Binary64.isNaN_ofInt _) hmagnitude
      · split at hmagnitude
        · cases hmagnitude
        · cases hmagnitude
          decide
  split
  · rw [Binary64.isNaN_neg]
    exact hnumber
  · exact hnumber

theorem isNaN_of_value? {numeral : Numeral} {n : Number} (h : numeral.value? = some n) :
    n.toBinary64.isNaN = false := by
  rw [Numeral.value?] at h
  simp only at h
  split at h
  · split at h
    · split at h
      · cases h
        exact (Binary64.isNaN_neg _).trans (Binary64.isNaN_ofInt _)
      · cases h
        exact Binary64.isNaN_ofInt _
    · cases h
      exact Binary64.isNaN_ofInt _
  · obtain ⟨x, hx, rfl⟩ := Option.map_eq_some_iff.mp h
    exact isNaN_of_toBinary64? hx

/-! ### Documents as they are read -/

/-- Every number inside the value is a number. -/
inductive IsNumeric : Json → Prop
  | null : IsNumeric .null
  | bool (b : Bool) : IsNumeric (.bool b)
  | num {n : Number} (h : n.toBinary64.isNaN = false) : IsNumeric (.num n)
  | str (s : String) : IsNumeric (.str s)
  | arr {items : List Json} (h : ∀ item ∈ items, IsNumeric item) : IsNumeric (.arr items)
  | obj {members : List (String × Json)} (h : ∀ member ∈ members, IsNumeric member.2) :
      IsNumeric (.obj members)

mutual

theorem isNumeric_of_ofWritten? {written : Written} {value : Json}
    (h : ofWritten? written = some value) : value.IsNumeric := by
  match written with
  | .null =>
    cases h
    exact .null
  | .bool b =>
    cases h
    exact .bool b
  | .number numeral =>
    obtain ⟨n, hn, rfl⟩ := Option.map_eq_some_iff.mp h
    exact .num (isNaN_of_value? hn)
  | .text raw =>
    obtain ⟨s, -, rfl⟩ := Option.map_eq_some_iff.mp h
    exact .str s
  | .array items =>
    obtain ⟨values, hvalues, rfl⟩ := Option.map_eq_some_iff.mp h
    exact .arr (isNumeric_of_ofItems? hvalues)
  | .object members =>
    obtain ⟨values, hvalues, rfl⟩ := Option.map_eq_some_iff.mp h
    refine .obj fun member hmember => ?_
    rcases Assoc.mem_insertAll hmember with hlisted | hnone
    · exact isNumeric_of_ofMembers? hvalues member hlisted
    · cases hnone

theorem isNumeric_of_ofItems? {items : List Written} {values : List Json}
    (h : ofItems? items = some values) : ∀ value ∈ values, value.IsNumeric := by
  match items with
  | [] =>
    cases h
    exact nofun
  | item :: rest =>
    rw [ofItems?] at h
    split at h
    · next first others hfirst hothers =>
      cases h
      exact List.forall_mem_cons.mpr
        ⟨isNumeric_of_ofWritten? hfirst, isNumeric_of_ofItems? hothers⟩
    · cases h

theorem isNumeric_of_ofMembers? {members : List (Bytes × Written)}
    {values : List (String × Json)} (h : ofMembers? members = some values) :
    ∀ value ∈ values, value.2.IsNumeric := by
  match members with
  | [] =>
    cases h
    exact nofun
  | (key, member) :: rest =>
    rw [ofMembers?] at h
    split at h
    · next name first others _ hfirst hothers =>
      cases h
      exact List.forall_mem_cons.mpr
        ⟨isNumeric_of_ofWritten? hfirst, isNumeric_of_ofMembers? hothers⟩
    · cases h

end

theorem isNumeric_of_ofBytes? {input : Bytes} {value : Json} (h : ofBytes? input = some value) :
    value.IsNumeric := by
  obtain ⟨written, -, hvalue⟩ := Option.bind_eq_some_iff.mp h
  exact isNumeric_of_ofWritten? hvalue

end Json

namespace Query

variable {documents : List Json} {field : String}

theorem isNumeric_of_follow? {document value : Json} {names : List String}
    (hdocument : document.IsNumeric) (h : follow? document names = some value) :
    value.IsNumeric := by
  induction names generalizing document with
  | nil =>
    cases h
    exact hdocument
  | cons name rest ih =>
    rw [follow?] at h
    split at h
    · next inner hinner =>
      obtain ⟨members, hmembers, hget⟩ := Option.bind_eq_some_iff.mp hinner
      cases hdocument with
      | obj hall =>
        cases hmembers
        exact ih (hall _ (Assoc.mem_of_get?_eq_some hget)) h
      | _ => cases hmembers
    · cases h

/-- A field holds only numbers over some documents, or only texts, or only truth values,
    where it is present. -/
def OfOneKind (documents : List Json) (field : String) : Prop :=
  (∀ value ∈ fieldValues documents field, ∃ n, value = .num n) ∨
    (∀ value ∈ fieldValues documents field, ∃ s, value = .str s) ∨
    ∀ value ∈ fieldValues documents field, ∃ b, value = .bool b

/-- **A field of one kind lines up** over documents that were read. -/
theorem OfOneKind.linesUp (h : OfOneKind documents field)
    (hnumeric : ∀ document ∈ documents, document.IsNumeric) : LinesUp documents field := by
  refine .inl fun x hx y hy => ?_
  have hnumber {n : Number} (hn : Json.num n ∈ fieldValues documents field) :
      n.toBinary64.isNaN = false := by
    obtain ⟨document, hdocument, hfound⟩ := mem_fieldValues.mp hn
    cases isNumeric_of_follow? (hnumeric document hdocument) hfound with
    | num hnan => exact hnan
  rcases h with hnums | hstrs | hbools
  · obtain ⟨m, rfl⟩ := hnums x hx
    obtain ⟨n, rfl⟩ := hnums y hy
    rw [compare?, Binary64.compare?, hnumber hx, hnumber hy]
    rfl
  · obtain ⟨s, rfl⟩ := hstrs x hx
    obtain ⟨t, rfl⟩ := hstrs y hy
    rfl
  · obtain ⟨b, rfl⟩ := hbools x hx
    obtain ⟨c, rfl⟩ := hbools y hy
    rfl

end Query

end EntityStore
