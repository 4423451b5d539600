/-
  EntityStore/Proofs/Query/Sorting.lean
  =====================================
  **The order of a query's rows.**

  Comparing two documents the other way round reverses the answer, for every sort list
  (`DocumentQuery.compareBy`).  The order is transitive only on documents that line up:
  values that do not compare stand equal, so a text stands equal to two numbers that
  differ.  Where each field's values all compare, or none stands before another, the
  order is a total preorder, and the rows have one stable arrangement, which is the one
  that `DocumentQuery.order` gives.  For a single field the condition is also necessary
  (`DocumentQuery.transCmp_compareField_iff`).
-/
import Mathlib.Data.List.Sort
import EntityStore.Query.Document

namespace EntityStore

open Std

/-! ### Values -/

theorem Binary64.compare?_swap (x y : Binary64) :
    y.compare? x = (x.compare? y).map Ordering.swap := by
  simp only [compare?, Bool.or_comm y.isNaN]
  split
  · rfl
  · exact congrArg some OrientedCmp.eq_swap

theorem Binary64.compare?_trans {x y z : Binary64} {o p : Ordering}
    (hxy : x.compare? y = some o) (hyz : y.compare? z = some p) :
    ∃ q, x.compare? z = some q ∧ (o.isLE → p.isLE → q.isLE) := by
  simp only [compare?, Option.ite_none_left_eq_some, Bool.not_eq_true, Bool.or_eq_false_iff,
    Option.some.injEq] at hxy hyz ⊢
  obtain ⟨⟨hx, -⟩, rfl⟩ := hxy
  obtain ⟨⟨-, hz⟩, rfl⟩ := hyz
  exact ⟨_, ⟨⟨hx, hz⟩, rfl⟩, TransCmp.isLE_trans⟩

namespace Query

theorem compare?_swap (x y : Json) : compare? y x = (compare? x y).map Ordering.swap := by
  cases x <;> cases y <;> try rfl
  case num.num x y => exact Binary64.compare?_swap _ _
  case str.str x y => exact congrArg some OrientedCmp.eq_swap
  case bool.bool x y => exact congrArg some OrientedCmp.eq_swap

/-- Values that compare with one value compare with each other. -/
theorem compare?_trans {x y z : Json} {o p : Ordering} (hxy : compare? x y = some o)
    (hyz : compare? y z = some p) : ∃ q, compare? x z = some q ∧ (o.isLE → p.isLE → q.isLE) := by
  cases x <;> cases y <;> try cases hxy
  all_goals cases z <;> try cases hyz
  case num.num.num x y z => exact Binary64.compare?_trans hxy hyz
  case str.refl.str.refl x y z => exact ⟨_, rfl, TransCmp.isLE_trans⟩
  case bool.refl.bool.refl x y z => exact ⟨_, rfl, TransCmp.isLE_trans⟩

/-! ### One field -/

/-- How two values that may be missing stand. -/
def standing : Option Json → Option Json → Ordering
  | some x, some y => (compare? x y).getD .eq
  | none, some _ => .lt
  | some _, none => .gt
  | none, none => .eq

instance : OrientedCmp standing where
  eq_swap {a b} := by
    cases a with
    | none => cases b <;> rfl
    | some x =>
      cases b with
      | none => rfl
      | some y =>
        show (compare? x y).getD .eq = ((compare? y x).getD .eq).swap
        rw [compare?_swap y x]
        cases compare? y x <;> rfl

/-- The values of a field over some documents, where it is present. -/
def fieldValues (documents : List Json) (field : String) : List Json :=
  documents.filterMap (field? · field)

/-- A field's values over some documents line up: they all compare, or none stands
    before another. -/
def LinesUp (documents : List Json) (field : String) : Prop :=
  (∀ x ∈ fieldValues documents field, ∀ y ∈ fieldValues documents field, (compare? x y).isSome) ∨
    ∀ x ∈ fieldValues documents field, ∀ y ∈ fieldValues documents field,
      compare? x y ≠ some .lt

variable {documents : List Json} {field : String}

theorem mem_fieldValues {x : Json} :
    x ∈ fieldValues documents field ↔ ∃ document ∈ documents, field? document field = some x :=
  List.mem_filterMap

theorem LinesUp.standing_trans (h : LinesUp documents field) {a b c : Json}
    (ha : a ∈ documents) (hb : b ∈ documents) (hc : c ∈ documents)
    (hab : (standing (field? a field) (field? b field)).isLE)
    (hbc : (standing (field? b field) (field? c field)).isLE) :
    (standing (field? a field) (field? c field)).isLE := by
  -- a missing value stands before all others, so only three present ones need an argument
  cases hx : field? a field with
  | none => cases field? c field <;> rfl
  | some x =>
    cases hy : field? b field with
    | none => simp [hx, hy, standing] at hab
    | some y =>
      cases hz : field? c field with
      | none => simp [hy, hz, standing] at hbc
      | some z =>
        have hxV := mem_fieldValues.mpr ⟨a, ha, hx⟩
        have hyV := mem_fieldValues.mpr ⟨b, hb, hy⟩
        have hzV := mem_fieldValues.mpr ⟨c, hc, hz⟩
        simp only [hx, hy, hz, standing] at hab hbc ⊢
        rcases h with hall | hnone
        · obtain ⟨o, ho⟩ := Option.isSome_iff_exists.mp (hall x hxV y hyV)
          obtain ⟨p, hp⟩ := Option.isSome_iff_exists.mp (hall y hyV z hzV)
          obtain ⟨q, hq, hle⟩ := compare?_trans ho hp
          simp only [ho, hp, hq, Option.getD_some] at hab hbc ⊢
          exact hle hab hbc
        · -- no value stands before another, so `z` does not stand before `x`
          have hzx : compare? z x ≠ some .lt := hnone z hzV x hxV
          rw [compare?_swap x z] at hzx
          rcases hxz : compare? x z with - | (- | - | -)
          · rfl
          · rfl
          · rfl
          · exact absurd (congrArg (Option.map Ordering.swap) hxz) hzx

theorem compare?_isSome_of_common {x y u : Json} (hx : (compare? x u).isSome)
    (hy : (compare? y u).isSome) : (compare? x y).isSome := by
  obtain ⟨o, ho⟩ := Option.isSome_iff_exists.mp hx
  obtain ⟨p, hp⟩ := Option.isSome_iff_exists.mp hy
  have hu : compare? u y = some p.swap := by rw [compare?_swap y u, hp]; rfl
  obtain ⟨q, hq, -⟩ := compare?_trans ho hu
  exact Option.isSome_of_eq_some hq

/-- Where some values do not compare and others stand one before the other, a value
    stands equal to two that differ. -/
theorem exists_tied_of_not_linesUp (h : ¬ LinesUp documents field) :
    ∃ w ∈ fieldValues documents field, ∃ u ∈ fieldValues documents field,
      ∃ v ∈ fieldValues documents field,
        compare? w u = none ∧ compare? w v = none ∧ compare? u v = some .lt := by
  simp only [LinesUp, not_or, not_forall, not_not] at h
  obtain ⟨⟨x, hx, y, hy, hxy⟩, u, hu, v, hv, huv⟩ := h
  have hstranger : ∃ w ∈ fieldValues documents field, compare? w u = none := by
    by_contra hall
    have hsome : ∀ w ∈ fieldValues documents field, (compare? w u).isSome := fun w hw =>
      Option.isSome_iff_ne_none.mpr fun hnone => hall ⟨w, hw, hnone⟩
    exact hxy (compare?_isSome_of_common (hsome x hx) (hsome y hy))
  obtain ⟨w, hw, hwu⟩ := hstranger
  refine ⟨w, hw, u, hu, v, hv, hwu, ?_, huv⟩
  by_contra hwv
  have hsome := compare?_isSome_of_common (Option.isSome_iff_ne_none.mpr hwv)
    (Option.isSome_of_eq_some huv)
  rw [hwu] at hsome
  exact nomatch hsome

end Query

/-! ### The order of documents -/

namespace DocumentQuery

open Query

theorem compareField_eq (a b : Json) (field : String × Bool) :
    compareField a b field =
      if field.2 then (standing (field? a field.1) (field? b field.1)).swap
      else standing (field? a field.1) (field? b field.1) := by
  cases hx : field? a field.1 <;> cases hy : field? b field.1 <;>
    simp only [compareField, standing, hx, hy]

theorem compareBy_cons (field : String × Bool) (rest : List (String × Bool)) (a b : Json) :
    compareBy (field :: rest) a b = (compareField a b field).then (compareBy rest a b) := by
  simp only [compareBy]
  cases compareField a b field <;> rfl

theorem compareField_swap (a b : Json) (field : String × Bool) :
    compareField b a field = (compareField a b field).swap := by
  have hswap : standing (field? b field.1) (field? a field.1) =
      (standing (field? a field.1) (field? b field.1)).swap := OrientedCmp.eq_swap
  simp only [compareField_eq, hswap]
  split <;> rfl

theorem compareBy_swap (sort : List (String × Bool)) (a b : Json) :
    compareBy sort b a = (compareBy sort a b).swap := by
  induction sort with
  | nil => rfl
  | cons field rest ih =>
    rw [compareBy_cons, compareBy_cons, compareField_swap, ih, Ordering.swap_then]

instance orientedCmp_compareBy (sort : List (String × Bool)) : OrientedCmp (compareBy sort) :=
  ⟨compareBy_swap sort _ _⟩

variable {documents : List Json}

/-- **The order by one field is transitive on some documents exactly if the field's
    values line up there.** -/
theorem transCmp_compareField_iff (field : String × Bool) :
    TransCmp (fun a b : { d // d ∈ documents } => compareField a b field) ↔
      LinesUp documents field.1 := by
  constructor
  · intro htrans
    by_contra h
    obtain ⟨w, hw, u, hu, v, hv, hwu, hwv, huv⟩ := exists_tied_of_not_linesUp h
    obtain ⟨a, ha, hfa⟩ := mem_fieldValues.mp hw
    obtain ⟨b, hb, hfb⟩ := mem_fieldValues.mp hu
    obtain ⟨c, hc, hfc⟩ := mem_fieldValues.mp hv
    have hab : compareField a b field = .eq := by
      rw [compareField_eq, hfa, hfb]
      simp [standing, hwu]
    have hac : compareField a c field = .eq := by
      rw [compareField_eq, hfa, hfc]
      simp [standing, hwv]
    have hba : compareField b a field = .eq := by rw [compareField_swap, hab]; rfl
    have hbc : compareField b c field = .eq :=
      htrans.eq_trans (a := ⟨b, hb⟩) (b := ⟨a, ha⟩) (c := ⟨c, hc⟩) hba hac
    rw [compareField_eq, hfb, hfc] at hbc
    cases hdesc : field.2 <;> simp [standing, huv, hdesc] at hbc
  · intro h
    refine { eq_swap := compareField_swap _ _ field, isLE_trans := ?_ }
    rintro ⟨a, ha⟩ ⟨b, hb⟩ ⟨c, hc⟩ hab hbc
    obtain ⟨name, descending⟩ := field
    cases descending with
    | false =>
      simp only [compareField_eq, Bool.false_eq_true, if_false] at hab hbc ⊢
      exact h.standing_trans ha hb hc hab hbc
    | true =>
      -- The other direction is the order with its sides exchanged.
      have hdown (d e : Json) :
          compareField d e (name, true) = standing (field? e name) (field? d name) := by
        rw [compareField_eq, if_pos rfl]
        exact OrientedCmp.eq_swap.symm
      rw [hdown] at hab hbc ⊢
      exact h.standing_trans hc hb ha hbc hab

/-- Lined-up fields give a total preorder. -/
theorem transCmp_compareBy {sort : List (String × Bool)}
    (h : ∀ field ∈ sort, LinesUp documents field.1) :
    TransCmp fun a b : { d // d ∈ documents } => compareBy sort a b := by
  induction sort with
  | nil => exact { eq_swap := rfl, isLE_trans := fun _ _ => rfl }
  | cons field rest ih =>
    have hfield := (transCmp_compareField_iff field).mpr (h field List.mem_cons_self)
    have hrest := ih fun other hother => h other (List.mem_cons_of_mem _ hother)
    simp only [compareBy_cons]
    exact inferInstanceAs (TransCmp (compareLex
      (fun a b : { d // d ∈ documents } => compareField a b field)
      (fun a b : { d // d ∈ documents } => compareBy rest a b)))

end DocumentQuery

/-! ### Stable arrangements -/

section Arrangement

variable {α β : Type} {order : α → α → Ordering}

/-- Some rows arranged by an order: the same rows, each after what it does not stand
    before, and rows of equal standing as they came. -/
structure IsStableArrangement (order : α → α → Ordering) (rows arranged : List α) : Prop where
  perm : arranged.Perm rows
  sorted : arranged.Pairwise fun a b => (order a b).isLE
  stable : ∀ row ∈ rows, arranged.filter (order row · == .eq) = rows.filter (order row · == .eq)

theorem isLE_of_mem_sorted [OrientedCmp order] {first row : α} {rest : List α}
    (hsorted : (first :: rest).Pairwise fun a b => (order a b).isLE) (h : row ∈ first :: rest) :
    (order first row).isLE := by
  rcases List.mem_cons.mp h with rfl | hrest
  · exact ReflCmp.isLE_rfl
  · exact (List.pairwise_cons.mp hsorted).1 row hrest

/-- Sorted lists of the same rows are equal if each class of ties is in the same order. -/
theorem eq_of_sorted_of_ties [OrientedCmp order] {l m : List α} (hperm : l.Perm m)
    (hl : l.Pairwise fun a b => (order a b).isLE) (hm : m.Pairwise fun a b => (order a b).isLE)
    (hties : ∀ row ∈ l, l.filter (order row · == .eq) = m.filter (order row · == .eq)) :
    l = m := by
  induction l generalizing m with
  | nil => exact hperm.nil_eq
  | cons first rest ih =>
    cases m with
    | nil => exact hperm.eq_nil
    | cons first' rest' =>
      -- Each first row is not above the other, since both lists hold both; so the two tie.
      have hle : (order first first').isLE :=
        isLE_of_mem_sorted hl (hperm.mem_iff.mpr List.mem_cons_self)
      have hge : (order first' first).isLE :=
        isLE_of_mem_sorted hm (hperm.mem_iff.mp List.mem_cons_self)
      have htie : order first first' = .eq := OrientedCmp.isLE_antisymm hle hge
      have hhead := hties first List.mem_cons_self
      simp only [List.filter_cons, htie, ReflCmp.compare_self, beq_self_eq_true, if_true] at hhead
      -- Ties come in one order, so the first of them is one and the same row.
      obtain rfl : first = first' := (List.cons.inj hhead).1
      congr 1
      refine ih hperm.cons_inv hl.of_cons hm.of_cons fun row hrow => ?_
      have hrest := hties row (List.mem_cons_of_mem _ hrow)
      simp only [List.filter_cons] at hrest
      split at hrest
      · exact (List.cons.inj hrest).2
      · exact hrest

/-- Rows have at most one stable arrangement. -/
theorem IsStableArrangement.unique [OrientedCmp order] {rows arranged other : List α}
    (h : IsStableArrangement order rows arranged) (h' : IsStableArrangement order rows other) :
    arranged = other := by
  refine eq_of_sorted_of_ties (h.perm.trans h'.perm.symm) h.sorted h'.sorted fun row hrow => ?_
  have hrow' : row ∈ rows := h.perm.mem_iff.mp hrow
  rw [h.stable row hrow', h'.stable row hrow']

/-- An order that agrees on the rows arranges them alike. -/
theorem IsStableArrangement.congr {order' : α → α → Ordering} {rows arranged : List α}
    (h : IsStableArrangement order rows arranged)
    (hsame : ∀ a ∈ rows, ∀ b ∈ rows, order a b = order' a b) :
    IsStableArrangement order' rows arranged where
  perm := h.perm
  sorted := h.sorted.imp_of_mem fun {a b} ha hb hle => by
    rwa [← hsame a (h.perm.mem_iff.mp ha) b (h.perm.mem_iff.mp hb)]
  stable row hrow := by
    have harranged := List.filter_congr fun other (hother : other ∈ arranged) =>
      congrArg (· == Ordering.eq) (hsame row hrow other (h.perm.mem_iff.mp hother))
    have hrows := List.filter_congr fun other (hother : other ∈ rows) =>
      congrArg (· == Ordering.eq) (hsame row hrow other hother)
    rw [← harranged, ← hrows]
    exact h.stable row hrow

/-- A stable arrangement is one of the rows' images as well. -/
theorem IsStableArrangement.map {order : β → β → Ordering} {f : α → β} {rows arranged : List α}
    (h : IsStableArrangement (fun a b => order (f a) (f b)) rows arranged) :
    IsStableArrangement order (rows.map f) (arranged.map f) where
  perm := h.perm.map f
  sorted := List.pairwise_map.mpr h.sorted
  stable row hrow := by
    obtain ⟨source, hsource, rfl⟩ := List.mem_map.mp hrow
    rw [List.filter_map, List.filter_map]
    exact congrArg (List.map f) (h.stable source hsource)

end Arrangement

namespace DocumentQuery

open Query

variable {α β : Type}

/-! ### Insertion -/

section Insertion

variable (less : α → α → Bool)

theorem place_perm (row : α) (reversed : List α) :
    (place less row reversed).Perm (row :: reversed) := by
  induction reversed with
  | nil => exact .refl _
  | cons last before ih =>
    rw [place]
    split
    · exact (ih.cons last).trans (.swap row last before)
    · exact .refl _

theorem foldl_place_perm (rows reversed : List α) :
    (rows.foldl (fun reversed row => place less row reversed) reversed).Perm
      (rows ++ reversed) := by
  induction rows generalizing reversed with
  | nil => exact .refl _
  | cons row rest ih =>
    refine (ih _).trans ?_
    exact ((place_perm less row reversed).append_left rest).trans List.perm_middle

theorem arrange_perm (rows : List α) : (arrange less rows).Perm rows := by
  have hall := foldl_place_perm less rows []
  rw [List.append_nil] at hall
  exact (List.reverse_perm _).trans hall

theorem place_map (f : β → α) (row : β) (reversed : List β) :
    place less (f row) (reversed.map f) =
      (place (fun a b => less (f a) (f b)) row reversed).map f := by
  induction reversed with
  | nil => rfl
  | cons last before ih =>
    simp only [List.map_cons, place]
    split
    · rw [ih, List.map_cons]
    · rfl

theorem foldl_place_map (f : β → α) (rows reversed : List β) :
    (rows.map f).foldl (fun reversed row => place less row reversed) (reversed.map f) =
      (rows.foldl (fun reversed row => place (fun a b => less (f a) (f b)) row reversed)
        reversed).map f := by
  induction rows generalizing reversed with
  | nil => rfl
  | cons row rest ih => rw [List.map_cons, List.foldl_cons, place_map, ih, List.foldl_cons]

theorem arrange_map (f : β → α) (rows : List β) :
    arrange less (rows.map f) = (arrange (fun a b => less (f a) (f b)) rows).map f := by
  rw [arrange, arrange, List.map_reverse]
  exact congrArg List.reverse (foldl_place_map less f rows [])

end Insertion

/-! ### Insertion by an order -/

section Ordered

variable (order : α → α → Ordering)

theorem place_eq_orderedInsert (row : α) (reversed : List α) :
    place (fun a b => order a b == .lt) row reversed =
      reversed.orderedInsert (fun a b => (order a b).isGE) row := by
  induction reversed with
  | nil => rfl
  | cons last before ih =>
    simp only [place, List.orderedInsert_cons, ih]
    cases order row last <;> rfl

/-- Arranging is inserting each row before those, counted from the end, that it does
    not stand before. -/
theorem arrange_eq_insertionSort (rows : List α) :
    arrange (fun a b => order a b == .lt) rows =
      (rows.reverse.insertionSort fun a b => (order a b).isGE).reverse := by
  have hplace := funext₂ (place_eq_orderedInsert order)
  rw [arrange, ← List.foldr_reverse, List.insertionSort, ← hplace]

theorem filter_insertionSort [TransCmp order] (row : α) (rows : List α) :
    (rows.insertionSort fun a b => (order a b).isGE).filter (order row · == .eq) =
      rows.filter (order row · == .eq) := by
  have hties : (rows.filter (order row · == .eq)).Pairwise fun a b => (order a b).isGE := by
    refine List.pairwise_iff_forall_sublist.mpr fun {a b} hab => ?_
    have ha := (List.mem_filter.mp (hab.subset List.mem_cons_self)).2
    have hb := (List.mem_filter.mp (hab.subset (List.mem_cons_of_mem _ List.mem_cons_self))).2
    have htie : order a b = .eq :=
      TransCmp.eq_trans (OrientedCmp.eq_symm (beq_iff_eq.mp ha)) (beq_iff_eq.mp hb)
    rw [htie]
    rfl
  have hsublist := (List.sublist_insertionSort hties List.filter_sublist).filter
    (order row · == .eq)
  rw [List.filter_filter] at hsublist
  simp only [Bool.and_self] at hsublist
  exact (hsublist.eq_of_length ((List.perm_insertionSort _ rows).filter _).length_eq.symm).symm

theorem filter_arrange [TransCmp order] (row : α) (rows : List α) :
    (arrange (fun a b => order a b == .lt) rows).filter (order row · == .eq) =
      rows.filter (order row · == .eq) := by
  rw [arrange_eq_insertionSort, List.filter_reverse, filter_insertionSort, List.filter_reverse,
    List.reverse_reverse]

theorem arrange_sorted [TransCmp order] (rows : List α) :
    (arrange (fun a b => order a b == .lt) rows).Pairwise fun a b => (order a b).isLE := by
  have htotal : Std.Total fun a b => (order a b).isGE = true :=
    ⟨fun a b => by
      rw [OrientedCmp.isGE_iff_isLE (a := b)]
      cases order a b <;> simp⟩
  have htrans : IsTrans α fun a b => (order a b).isGE = true := ⟨fun _ _ _ => TransCmp.isGE_trans⟩
  rw [arrange_eq_insertionSort]
  refine List.pairwise_reverse.mpr ((List.pairwise_insertionSort _ _).imp fun {a b} h => ?_)
  exact OrientedCmp.isGE_iff_isLE.mp h

theorem arrange_isStable [TransCmp order] (rows : List α) :
    IsStableArrangement order rows (arrange (fun a b => order a b == .lt) rows) :=
  ⟨arrange_perm _ rows, arrange_sorted order rows, fun row _ => filter_arrange order row rows⟩

/-- An order of the rows alone is enough. -/
theorem arrange_isStable_on {rows : List α}
    (h : TransCmp fun a b : { row // row ∈ rows } => order a b) :
    IsStableArrangement order rows (arrange (fun a b => order a b == .lt) rows) := by
  have hstable : IsStableArrangement order (rows.attach.map Subtype.val) _ :=
    (arrange_isStable (fun a b : { row // row ∈ rows } => order a b) rows.attach).map
  have hmap := arrange_map (fun a b => order a b == .lt) Subtype.val rows.attach
  rw [List.attach_map_subtype_val] at hstable hmap
  rw [hmap]
  exact hstable

end Ordered

/-! ### The rows of a query -/

variable {query : DocumentQuery} {rows : List (α × Json)}

/-- The order of rows is the order of their documents. -/
def compareRows (query : DocumentQuery) (a b : α × Json) : Ordering :=
  compareBy query.sort a.2 b.2

instance : OrientedCmp (@compareRows α query) := ⟨compareBy_swap _ _ _⟩

theorem order_perm (query : DocumentQuery) (rows : List (α × Json)) :
    (query.order rows).Perm rows :=
  arrange_perm _ rows

/-- Lined-up fields order the rows. -/
theorem transCmp_compareRows (h : ∀ field ∈ query.sort, LinesUp (rows.map Prod.snd) field.1) :
    TransCmp fun a b : { row // row ∈ rows } => query.compareRows a.1 b.1 :=
  have htrans := transCmp_compareBy h
  { eq_swap := compareBy_swap _ _ _
    isLE_trans := fun {a b c} => htrans.isLE_trans (a := ⟨a.1.2, List.mem_map_of_mem a.2⟩)
      (b := ⟨b.1.2, List.mem_map_of_mem b.2⟩) (c := ⟨c.1.2, List.mem_map_of_mem c.2⟩) }

theorem order_isStable (h : ∀ field ∈ query.sort, LinesUp (rows.map Prod.snd) field.1) :
    IsStableArrangement query.compareRows rows (query.order rows) :=
  arrange_isStable_on query.compareRows (transCmp_compareRows h)

/-- A query that sorts by nothing leaves the rows as they are. -/
theorem order_of_no_sort (hsort : query.sort = []) (rows : List (α × Json)) :
    query.order rows = rows := by
  have htie (a b : α × Json) : query.compareRows a b = .eq := by rw [compareRows, hsort, compareBy]
  have hstable : IsStableArrangement query.compareRows rows (query.order rows) :=
    order_isStable (by rw [hsort]; exact nofun)
  have hself : IsStableArrangement query.compareRows rows rows :=
    ⟨.refl _, List.pairwise_iff_forall_sublist.mpr fun _ => by rw [htie]; rfl, fun _ _ => rfl⟩
  exact hstable.unique hself

/-- **Where the sorted fields line up, the order is a total preorder and the rows have
    one stable arrangement.** -/
theorem aligned_rows_have_one_stable_arrangement
    (h : ∀ field ∈ query.sort, LinesUp (rows.map Prod.snd) field.1) :
    (∀ a, compareBy query.sort a a = .eq) ∧
    (∀ a b, compareBy query.sort b a = (compareBy query.sort a b).swap) ∧
    TransCmp (fun a b : { d // d ∈ rows.map Prod.snd } => compareBy query.sort a b) ∧
    ∀ arranged, IsStableArrangement query.compareRows rows arranged ↔
      arranged = query.order rows := by
  refine ⟨fun _ => ReflCmp.compare_self, compareBy_swap query.sort, transCmp_compareBy h,
    fun arranged => ⟨fun harranged => harranged.unique (order_isStable h), ?_⟩⟩
  rintro rfl
  exact order_isStable h

instance (documents : List Json) (field : String) : Decidable (LinesUp documents field) :=
  inferInstanceAs (Decidable (_ ∨ _))

/-- Largest rank first, then by name: no rank goes last, and of two rows that tie the
    earlier one stays first. -/
theorem aligned_rows_have_one_stable_arrangement_ranking :
    let query : DocumentQuery := ⟨[], [("rank", true), ("name", false)], none, 0⟩
    let rows : List (Nat × Json) :=
      [(0, .obj [("name", .str "b"), ("rank", .num (.int 1))]),
       (1, .obj [("name", .str "c")]),
       (2, .obj [("name", .str "a"), ("rank", .num (.int 1))]),
       (3, .obj [("rank", .num (.int 7))]),
       (4, .obj [("name", .str "b"), ("rank", .num (.int 1))])]
    IsStableArrangement query.compareRows rows (query.order rows) ∧
      (query.order rows).map Prod.fst = [3, 2, 0, 4, 1] := by
  intro query rows
  have hlined : ∀ field ∈ query.sort, LinesUp (rows.map Prod.snd) field.1 := by decide +kernel
  obtain ⟨-, -, -, hone⟩ := aligned_rows_have_one_stable_arrangement hlined
  exact ⟨(hone _).mpr rfl, by decide +kernel⟩

/-- A text between two numbers: it ties with both, and the larger number stays before
    the smaller one.  No arrangement of these rows is sorted and keeps ties in place. -/
theorem text_ties_with_every_number :
    let query : DocumentQuery := ⟨[], [("n", false)], none, 0⟩
    let document (value : Json) : Json := .obj [("n", value)]
    let two := document (.num (.int 2))
    let text := document (.str "x")
    let one := document (.num (.int 1))
    let rows := [(0, two), (1, text), (2, one)]
    compareBy query.sort two text = .eq ∧ compareBy query.sort text one = .eq ∧
      compareBy query.sort one two = .lt ∧ (query.order rows).map Prod.fst = [0, 1, 2] ∧
      ∀ arranged, ¬ IsStableArrangement query.compareRows rows arranged := by
  intro query document two text one rows
  refine ⟨by decide +kernel, by decide +kernel, by decide +kernel, by decide +kernel,
    fun arranged h => ?_⟩
  have hties : ∀ row ∈ rows, (query.compareRows (1, text) row == .eq) = true := by decide +kernel
  have hkept : arranged = rows := by
    have htext := h.stable (1, text) (List.mem_cons_of_mem _ List.mem_cons_self)
    rwa [List.filter_eq_self.mpr hties,
      List.filter_eq_self.mpr fun row hrow => hties row (h.perm.mem_iff.mp hrow)] at htext
  have hsorted := h.sorted
  rw [hkept] at hsorted
  have hlast : (query.compareRows (0, two) (2, one)).isLE :=
    List.rel_of_pairwise_cons hsorted (List.mem_cons_of_mem _ List.mem_cons_self)
  revert hlast
  decide +kernel

end DocumentQuery

end EntityStore
