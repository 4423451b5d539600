/-
  EntityStore/Proofs/Query/RowSorts.lean
  ======================================
  **What a sort promises, and a sort from both ends that keeps it.**

  A sort promises the stable arrangement of rows that the comparison orders, some
  arrangement of the same rows otherwise if it does not stop, and never to stop on few
  rows (`RowSort.Lawful`).

  Merging from both ends takes half of the rows from either end (`RowSort.merge?`).  If
  the comparison orders the rows, the rows from the front are the first half of the
  ordinary merge and those from the back the second, so the ends meet
  (`RowSort.merge?_eq`); this is counted by the list that each row comes from.  If it
  does not, they may pass each other, and then the sort stops.
-/
import EntityStore.Proofs.Query.Sorting
import EntityStore.Query.RowSort

namespace EntityStore

open Std DocumentQuery

namespace RowSort

/-- What a sort promises, and that it inserts where there are few rows. -/
structure Lawful (sort : RowSort) : Prop where
  few {α : Type} (less : α → α → Bool) {rows : List α} (h : rows.length ≤ 20) :
    sort.run less rows = some (arrange less rows)
  /-- Rows that the comparison orders come out in their stable arrangement. -/
  ordered {α : Type} (order : α → α → Ordering) {rows : List α}
    (h : TransCmp fun a b : { row // row ∈ rows } => order a b) :
    ∃ arranged, sort.run (fun a b => order a b == .lt) rows = some arranged ∧
      IsStableArrangement order rows arranged
  /-- No row is lost or made up, whatever the comparison. -/
  perm {α : Type} {less : α → α → Bool} {rows arranged : List α}
    (h : sort.run less rows = some arranged) : arranged.Perm rows

variable {α β : Type}

/-! ### Taking from the front -/

section Front

variable (less : α → α → Bool)

/-- What is taken from the front of two lists: `i` rows of the one and `j` of the other,
    which are the first ones of the merge. -/
structure Taken (left right taken : List α) (i j : Nat) : Prop where
  left_le : i ≤ left.length
  right_le : j ≤ right.length
  perm : taken.Perm (left.take i ++ right.take j)
  merge_eq : left.merge right (fun a b => !less b a) =
    taken ++ (left.drop i).merge (right.drop j) fun a b => !less b a

theorem takeFront_taken (steps : Nat) (left right : List α) :
    let (taken, i, j) := takeFront less steps left right
    Taken less left right taken i j := by
  fun_induction takeFront less steps left right with
  | case1 steps a left b right hless taken i j hrest ih =>
    rw [hrest] at ih
    refine ⟨ih.left_le, Nat.succ_le_succ ih.right_le, ?_, ?_⟩
    · -- The row taken from the right comes to stand before all of the left list.
      exact (ih.perm.cons b).trans List.perm_middle.symm
    · rw [List.cons_merge_cons, if_neg (by simp [hless]), ih.merge_eq]
      rfl
  | case2 steps a left b right hless taken i j hrest ih =>
    rw [hrest] at ih
    refine ⟨Nat.succ_le_succ ih.left_le, ih.right_le, ih.perm.cons a, ?_⟩
    rw [List.cons_merge_cons, if_pos (by simp [hless]), ih.merge_eq]
    rfl
  | case3 => exact ⟨Nat.zero_le _, Nat.zero_le _, .refl _, rfl⟩

/-- While neither list runs out, each step takes one row. -/
theorem takeFront_steps {steps : Nat} {left right : List α} (hleft : steps ≤ left.length)
    (hright : steps ≤ right.length) :
    let (_, i, j) := takeFront less steps left right
    i + j = steps := by
  fun_induction takeFront less steps left right with
  | case1 steps a left b right hless taken i j hrest ih =>
    rw [hrest] at ih
    have hsum := ih (Nat.le_of_succ_le hleft) (Nat.le_of_succ_le_succ hright)
    exact congrArg Nat.succ hsum
  | case2 steps a left b right hless taken i j hrest ih =>
    rw [hrest] at ih
    have hsum := ih (Nat.le_of_succ_le_succ hleft) (Nat.le_of_succ_le hright)
    exact (Nat.succ_add i j).trans (congrArg Nat.succ hsum)
  -- With steps left one of the lists must have run out, which the lengths exclude.
  | case3 steps left right hstop =>
    cases steps with
    | zero => rfl
    | succ steps =>
      cases left with
      | nil => exact absurd hleft (Nat.not_succ_le_zero steps)
      | cons a left =>
        cases right with
        | nil => exact absurd hright (Nat.not_succ_le_zero steps)
        | cons b right => exact absurd rfl (hstop _ _ _ _ _ rfl rfl)

theorem takeFront_map (f : β → α) (steps : Nat) (left right : List β) :
    takeFront less steps (left.map f) (right.map f) =
      let (taken, i, j) := takeFront (fun a b => less (f a) (f b)) steps left right
      (taken.map f, i, j) := by
  fun_induction takeFront (fun a b => less (f a) (f b)) steps left right with
  | case1 steps a left b right hless taken i j hrest ih =>
    rw [List.map_cons] at ih
    rw [List.map_cons, List.map_cons, takeFront, if_pos hless, ih, hrest]
    rfl
  | case2 steps a left b right hless taken i j hrest ih =>
    rw [List.map_cons] at ih
    rw [List.map_cons, List.map_cons, takeFront, if_neg hless, ih, hrest]
    rfl
  | case3 steps left right hstop =>
    unfold takeFront
    split
    · next heq hleft hright =>
      obtain ⟨a, left, rfl, -, -⟩ := List.map_eq_cons_iff.mp hleft
      obtain ⟨b, right, rfl, -, -⟩ := List.map_eq_cons_iff.mp hright
      exact absurd rfl (hstop _ _ _ _ _ rfl rfl)
    · rfl

end Front

/-! ### The ends meet -/

section Meeting

variable {less : α → α → Bool} {left right : List α}

theorem head_of_merge {le : α → α → Bool} {x : α} {rest : List α}
    (h : left.merge right le = x :: rest) :
    (∃ others, left = x :: others) ∨ ∃ others, right = x :: others := by
  cases left with
  | nil => exact .inr ⟨rest, by rwa [List.nil_merge] at h⟩
  | cons a left =>
    cases right with
    | nil => exact .inl ⟨rest, by rwa [List.merge_right] at h⟩
    | cons b right =>
      rw [List.cons_merge_cons] at h
      split at h
      · exact .inl ⟨left, by rw [(List.cons.inj h).1]⟩
      · exact .inr ⟨right, by rw [(List.cons.inj h).1]⟩

/-- How many rows of a list came from the one of two lists. -/
theorem countP_of_perm {p : α → Bool} {l r taken : List α} (hp : ∀ a ∈ l, p a = true)
    (hq : ∀ b ∈ r, p b = false) (h : taken.Perm (l ++ r)) : taken.countP p = l.length := by
  have hleft : l.countP p = l.length := List.countP_eq_length.mpr hp
  have hright : r.countP p = 0 := List.countP_eq_zero.mpr fun b hb => by simp [hq b hb]
  rw [h.countP_eq, List.countP_append, hleft, hright, Nat.add_zero]

theorem Taken.length_eq {taken : List α} {i j : Nat} (h : Taken less left right taken i j) :
    taken.length = i + j := by
  rw [h.perm.length_eq, List.length_append, List.length_take_of_le h.left_le,
    List.length_take_of_le h.right_le]

theorem Taken.countP_eq {p : α → Bool} {taken : List α} {i j : Nat}
    (h : Taken less left right taken i j) (hp : ∀ a ∈ left, p a = true)
    (hq : ∀ b ∈ right, p b = false) : taken.countP p = i := by
  rw [countP_of_perm (fun a ha => hp a (List.mem_of_mem_take ha))
    (fun b hb => hq b (List.mem_of_mem_take hb)) h.perm, List.length_take_of_le h.left_le]

/-- The row between both ends, if there is one, is what neither end took. -/
theorem middle_of_merge {p : α → Bool} (hp : ∀ a ∈ left, p a = true)
    (hq : ∀ b ∈ right, p b = false) {le : α → α → Bool} {middle back : List α} {i j m n : Nat}
    (h : (left.drop i).merge (right.drop j) le = middle ++ back) (hone : middle.length ≤ 1)
    (hm : i + middle.countP p = m) (hn : j + (middle.length - middle.countP p) = n) :
    (left.take m).drop i ++ (right.take n).drop j = middle := by
  subst hm hn
  rw [List.drop_take, List.drop_take, Nat.add_sub_cancel_left, Nat.add_sub_cancel_left]
  rcases middle with _ | ⟨x, _ | ⟨y, rest⟩⟩
  · simp
  · rcases head_of_merge h with ⟨others, hothers⟩ | ⟨others, hothers⟩
    · have hx : p x = true := hp x (List.mem_of_mem_drop (hothers ▸ List.mem_cons_self))
      simp [hothers, hx]
    · have hx : p x = false := hq x (List.mem_of_mem_drop (hothers ▸ List.mem_cons_self))
      simp [hothers, hx]
  · exact absurd (Nat.le_of_succ_le_succ hone) (Nat.not_succ_le_zero _)

/-- Two cuts of one list, the first not behind the second. -/
theorem exists_middle {front rest before back : List α} (h : front ++ rest = before ++ back)
    (hle : front.length ≤ before.length) :
    ∃ middle, before = front ++ middle ∧ rest = middle ++ back := by
  rcases List.append_eq_append_iff.mp h with ⟨middle, hbefore, hrest⟩ | ⟨passed, hfront, hback⟩
  · exact ⟨middle, hbefore, hrest⟩
  · rw [hfront, List.length_append] at hle
    obtain rfl : passed = [] := List.eq_nil_of_length_eq_zero (by omega)
    exact ⟨[], by simpa using hfront.symm, by simpa using hback.symm⟩

/-- Lists whose rows can be told apart, and which are merged from the back as from the
    front, are merged from both ends. -/
theorem merge?_of_apart {p : α → Bool} (hp : ∀ a ∈ left, p a = true)
    (hq : ∀ b ∈ right, p b = false) (hle : left.length ≤ right.length)
    (hlt : right.length ≤ left.length + 1)
    (hback : right.reverse.merge left.reverse (fun a b => !less a b) =
      (left.merge right fun a b => !less b a).reverse) :
    merge? less left right = some (left.merge right fun a b => !less b a) := by
  obtain ⟨front, i, j, hfront⟩ : ∃ front i j,
      takeFront less left.length left right = (front, i, j) := ⟨_, _, _, rfl⟩
  obtain ⟨back, j', i', hends⟩ : ∃ back j' i',
      takeFront (fun a b => less b a) left.length right.reverse left.reverse = (back, j', i') :=
    ⟨_, _, _, rfl⟩
  have hsteps := takeFront_steps less (Nat.le_refl left.length) hle
  have hsteps' := takeFront_steps (fun a b => less b a)
    (hle.trans_eq right.length_reverse.symm) left.length_reverse.ge
  have htaken := takeFront_taken less left.length left right
  have htaken' := takeFront_taken (fun a b => less b a) left.length right.reverse left.reverse
  simp only [hfront, hends] at hsteps hsteps' htaken htaken'
  have hi' : i' ≤ left.length := by simpa using htaken'.right_le
  have hj' : j' ≤ right.length := by simpa using htaken'.left_le
  -- the rows of either list among those taken are as many as were counted
  have hfrontCount : front.countP p = i := htaken.countP_eq hp hq
  have hbackCount : back.countP (fun a => !p a) = j' :=
    htaken'.countP_eq (by simpa using hq) (by simpa using hp)
  have hfrontLength : front.length = i + j := htaken.length_eq
  have hbackLength : back.length = j' + i' := htaken'.length_eq
  have hbackBoth : back.length = back.countP p + back.countP fun a => !p a := by
    simpa using List.length_eq_countP_add_countP p (l := back)
  -- both ends cut the same merge, since the one from the back is its reverse
  have hcut := htaken'.merge_eq
  rw [hback, List.reverse_eq_iff, List.reverse_append] at hcut
  have hperm : (left.merge right fun a b => !less b a).Perm (left ++ right) :=
    List.merge_perm_append _
  have hall : (left.merge right fun a b => !less b a).countP p = left.length :=
    countP_of_perm hp hq hperm
  have hlength := hperm.length_eq
  have hreverse : back.reverse.length = back.length := List.length_reverse
  obtain ⟨middle, hbefore, hrest⟩ := exists_middle (htaken.merge_eq.symm.trans hcut) (by
    have hlengths := congrArg List.length hcut
    rw [List.length_append] at hlengths hlength
    omega)
  rw [hbefore] at hcut
  have hcounts := congrArg (List.countP p) hcut
  have hlengths := congrArg List.length hcut
  simp only [List.countP_append, List.countP_reverse, List.length_append, List.length_reverse]
    at hcounts hlengths hlength
  have hmiddle : middle.countP p ≤ middle.length := List.countP_le_length
  have hslices := middle_of_merge hp hq hrest (m := left.length - i') (n := right.length - j')
    (by omega) (by omega) (by omega)
  unfold merge?
  simp only [hfront, hends]
  rw [if_pos (by omega), hslices, hcut]

variable (less) in
/-- Renaming rows renames what comes of the merge. -/
theorem merge?_map (f : β → α) (left right : List β) :
    merge? less (left.map f) (right.map f) =
      (merge? (fun a b => less (f a) (f b)) left right).map (List.map f) := by
  unfold merge?
  simp only [List.length_map, ← List.map_reverse, takeFront_map]
  split <;> simp

end Meeting

/-! ### Merging in order -/

section Ordered

variable (order : α → α → Ordering) {left right : List α}

theorem not_before_eq [OrientedCmp order] (a b : α) :
    (!(order b a == .lt)) = (order a b).isLE := by
  have hswap : order b a = (order a b).swap := OrientedCmp.eq_swap
  rw [hswap]
  cases order a b <;> rfl

variable {order} in
/-- A stable arrangement, read from the back. -/
theorem isStable_reverse [OrientedCmp order] {rows arranged : List α}
    (h : IsStableArrangement (fun a b => order b a) rows.reverse arranged) :
    IsStableArrangement order rows arranged.reverse where
  perm := (List.reverse_perm _).trans (h.perm.trans (List.reverse_perm _))
  sorted := List.pairwise_reverse.mpr h.sorted
  stable row hrow := by
    have htie (a : α) : (order a row == .eq) = (order row a == .eq) := by
      have hswap : order a row = (order row a).swap := OrientedCmp.eq_swap
      rw [hswap]
      cases order row a <;> rfl
    have hstable := h.stable row (List.mem_reverse.mpr hrow)
    simp only [htie] at hstable
    rw [List.filter_reverse, hstable, List.filter_reverse, List.reverse_reverse]

/-- A merge keeps the rows of each standing as they came. -/
theorem filter_merge [TransCmp order] (row : α)
    (hleft : left.Pairwise fun a b => (order a b).isLE) :
    (left.merge right fun a b => !(order b a == .lt)).filter (order row · == .eq) =
      left.filter (order row · == .eq) ++ right.filter (order row · == .eq) := by
  induction left generalizing right with
  | nil => rw [List.nil_merge, List.filter_nil, List.nil_append]
  | cons a left ihl =>
    induction right with
    | nil => rw [List.merge_right, List.filter_nil, List.append_nil]
    | cons b right ihr =>
      rw [List.cons_merge_cons]
      split
      · simp only [List.filter_cons (x := a), ihl hleft.of_cons]
        split <;> rfl
      · next hbefore =>
        have hlt : order b a = .lt := by simpa using hbefore
        by_cases htie : (order row b == .eq) = true
        · -- the rows on the left all stand behind `b`, so none of them ties with its like
          have hnone : (a :: left).filter (order row · == .eq) = [] := by
            refine List.filter_eq_nil_iff.mpr fun c hc heq => ?_
            have hac : (order a c).isLE := isLE_of_mem_sorted hleft hc
            have hbc : order b c = .lt := TransCmp.lt_of_lt_of_isLE hlt hac
            have hsame : order b c = .eq :=
              TransCmp.eq_trans (OrientedCmp.eq_symm (beq_iff_eq.mp htie)) (beq_iff_eq.mp heq)
            rw [hbc] at hsame
            cases hsame
          rw [List.filter_cons (x := b), List.filter_cons (x := b), if_pos htie, if_pos htie, ihr,
            hnone, List.nil_append, List.nil_append]
        · rw [List.filter_cons (x := b), List.filter_cons (x := b), if_neg htie, if_neg htie, ihr]

theorem merge_isStable [TransCmp order] (hleft : left.Pairwise fun a b => (order a b).isLE)
    (hright : right.Pairwise fun a b => (order a b).isLE) :
    IsStableArrangement order (left ++ right)
      (left.merge right fun a b => !(order b a == .lt)) where
  perm := List.merge_perm_append _
  sorted := by
    simp only [not_before_eq]
    refine List.pairwise_merge (fun _ _ _ => TransCmp.isLE_trans) ?_ left right hleft hright
    intro a b
    have hswap : order b a = (order a b).swap := OrientedCmp.eq_swap
    rw [hswap]
    cases order a b <;> rfl
  stable row _ := by rw [filter_merge order row hleft, List.filter_append]

/-- From the back, the rows in order are those of the merge from the front. -/
theorem merge_reverse [TransCmp order] (hleft : left.Pairwise fun a b => (order a b).isLE)
    (hright : right.Pairwise fun a b => (order a b).isLE) :
    right.reverse.merge left.reverse (fun a b => !(order a b == .lt)) =
      (left.merge right fun a b => !(order b a == .lt)).reverse := by
  have hdown : TransCmp fun a b => order b a := TransCmp.opposite
  have hback := merge_isStable (fun a b => order b a)
    (List.pairwise_reverse.mpr hright) (List.pairwise_reverse.mpr hleft)
  rw [← List.reverse_append] at hback
  rw [← (isStable_reverse hback).unique (merge_isStable order hleft hright), List.reverse_reverse]

/-- **Lists in order are merged from both ends**, if the second is as long as the first or
    longer by one. -/
theorem merge?_eq [TransCmp order] (hleft : left.Pairwise fun a b => (order a b).isLE)
    (hright : right.Pairwise fun a b => (order a b).isLE) (hle : left.length ≤ right.length)
    (hlt : right.length ≤ left.length + 1) :
    merge? (fun a b => order a b == .lt) left right =
      some (left.merge right fun a b => !(order b a == .lt)) := by
  -- each row is marked with the list that it is from
  let mark (side : Bool) (row : α) : Bool × α := (side, row)
  have hsnd (side : Bool) (rows : List α) : (rows.map (mark side)).map Prod.snd = rows := by
    rw [List.map_map]
    exact List.map_id _
  have htrans : TransCmp fun a b : Bool × α => order a.2 b.2 :=
    { eq_swap := OrientedCmp.eq_swap, isLE_trans := TransCmp.isLE_trans }
  have hmarked : merge? (fun a b : Bool × α => order a.2 b.2 == .lt) (left.map (mark true))
      (right.map (mark false)) = some ((left.map (mark true)).merge (right.map (mark false))
        fun a b => !(order b.2 a.2 == .lt)) :=
    merge?_of_apart (p := Prod.fst) (List.forall_mem_map.mpr fun _ _ => rfl)
      (List.forall_mem_map.mpr fun _ _ => rfl) (by simpa using hle) (by simpa using hlt)
      (merge_reverse (fun a b : Bool × α => order a.2 b.2) (List.pairwise_map.mpr hleft)
        (List.pairwise_map.mpr hright))
  have hmap := merge?_map (fun a b => order a b == .lt) Prod.snd (left.map (mark true))
    (right.map (mark false))
  rw [hsnd, hsnd, hmarked, Option.map_some,
    List.map_merge (s := fun a b => !(order b a == .lt)) fun _ _ _ _ => rfl, hsnd, hsnd] at hmap
  exact hmap

end Ordered

/-! ### The same rows -/

section Rows

variable (less : α → α → Bool)

/-- If the ends do not pass each other, each row has come from one of them or is between
    them. -/
theorem merge?_perm {left right merged : List α} (h : merge? less left right = some merged) :
    merged.Perm (left ++ right) := by
  unfold merge? at h
  have htaken := takeFront_taken less left.length left right
  have htaken' := takeFront_taken (fun a b => less b a) left.length right.reverse left.reverse
  generalize takeFront less left.length left right = front at h htaken
  generalize takeFront (fun a b => less b a) left.length right.reverse left.reverse = back
    at h htaken'
  obtain ⟨front, i, j⟩ := front
  obtain ⟨back, j', i'⟩ := back
  simp only [Option.ite_none_right_eq_some, Option.some.injEq] at h htaken htaken'
  obtain ⟨⟨hi, hj⟩, rfl⟩ := h
  -- a list is what the front took, what is left between the ends, and what the back took
  have hcut (rows : List α) {m n : Nat} (hmn : m ≤ rows.length - n) :
      rows.take m ++ (rows.take (rows.length - n)).drop m ++ (rows.reverse.take n).reverse =
        rows := by
    rw [List.take_reverse, List.reverse_reverse]
    nth_rewrite 1 [← Nat.min_eq_left hmn]
    rw [← List.take_take, List.take_append_drop, List.take_append_drop]
  have hfront := htaken.perm
  have hback := (List.reverse_perm back).trans htaken'.perm
  conv_rhs => rw [← hcut left hi, ← hcut right hj]
  classical
  refine List.perm_iff_count.mpr fun row => ?_
  have hfrontCount := hfront.count_eq row
  have hbackCount := hback.count_eq row
  simp only [List.count_append, List.count_reverse] at hfrontCount hbackCount ⊢
  omega

theorem arrangeFour_perm (a b c d : α) : (arrangeFour less a b c d).Perm [a, b, c, d] := by
  have hpair (x y : α) : ∃ low high, (if less y x then (y, x) else (x, y)) = (low, high) ∧
      [low, high].Perm [x, y] := by
    split
    · exact ⟨y, x, rfl, .swap x y []⟩
    · exact ⟨x, y, rfl, .refl _⟩
  obtain ⟨low, high, hlow, hfirst⟩ := hpair a b
  obtain ⟨low', high', hlow', hsecond⟩ := hpair c d
  refine List.Perm.trans ?_ (hfirst.append hsecond)
  simp only [arrangeFour, hlow, hlow']
  classical
  refine List.perm_iff_count.mpr fun row => ?_
  cases less low' low <;> cases less high' high <;> dsimp only <;> split <;>
    simp only [List.count_cons, List.count_nil, List.cons_append, List.nil_append] <;> omega

theorem extend_arrange (rows rest : List α) :
    extend less (arrange less rows) rest = arrange less (rows ++ rest) := by
  rw [extend, arrange, arrange, List.reverse_reverse, List.foldl_append]

theorem extend_perm (rows rest : List α) : (extend less rows rest).Perm (rows ++ rest) := by
  have hall := foldl_place_perm less rest rows.reverse
  refine (List.reverse_perm _).trans (hall.trans ?_)
  exact ((List.reverse_perm rows).append_left rest).trans List.perm_append_comm

theorem arrangeHalf_perm (rows : List α) : (arrangeHalf less rows).Perm rows := by
  unfold arrangeHalf
  split
  · next a b c d rest =>
    exact (extend_perm less _ rest).trans ((arrangeFour_perm less a b c d).append_right rest)
  · exact arrange_perm less rows

end Rows

/-! ### Halves in order -/

section Halves

variable (order : α → α → Ordering)

/-- Arranged lists are merged into the arrangement of all rows. -/
theorem merge_arrange [TransCmp order] (left right : List α) :
    (arrange (fun a b => order a b == .lt) left).merge
        (arrange (fun a b => order a b == .lt) right) (fun a b => !(order b a == .lt)) =
      arrange (fun a b => order a b == .lt) (left ++ right) := by
  have hmerge := merge_isStable order (arrange_sorted order left) (arrange_sorted order right)
  have hall : IsStableArrangement order (left ++ right) _ :=
    { perm := hmerge.perm.trans ((arrange_perm _ left).append (arrange_perm _ right))
      sorted := hmerge.sorted
      stable := fun row _ => by
        rw [filter_merge order row (arrange_sorted order left), filter_arrange, filter_arrange,
          List.filter_append] }
  exact hall.unique (arrange_isStable order (left ++ right))

/-- The five comparisons are those of a merge of two pairs, less those whose outcome
    follows from the others. -/
theorem arrangeFour_eq [TransCmp order] (a b c d : α) :
    arrangeFour (fun a b => order a b == .lt) a b c d =
      arrange (fun a b => order a b == .lt) [a, b, c, d] := by
  have hpair (x y : α) : ∃ low high,
      (if (order y x == .lt) = true then (y, x) else (x, y)) = (low, high) ∧
        arrange (fun a b => order a b == .lt) [x, y] = [low, high] := by
    simp only [arrange, List.foldl_cons, List.foldl_nil, place]
    split
    · exact ⟨y, x, rfl, rfl⟩
    · exact ⟨x, y, rfl, rfl⟩
  obtain ⟨low, high, hlow, hfirst⟩ := hpair a b
  obtain ⟨low', high', hlow', hsecond⟩ := hpair c d
  have hsorted := arrange_sorted order [a, b]
  have hsorted' := arrange_sorted order [c, d]
  have hmerge := merge_arrange order [a, b] [c, d]
  rw [hfirst, hsecond] at hmerge
  rw [hfirst] at hsorted
  rw [hsecond] at hsorted'
  have hle : (order low high).isLE := List.rel_of_pairwise_cons hsorted List.mem_cons_self
  have hle' : (order low' high').isLE := List.rel_of_pairwise_cons hsorted' List.mem_cons_self
  have hnot (x y : α) (hxy : (order x y).isLE) : (order y x == .lt) = false := by
    rwa [← Bool.not_eq_true', not_before_eq]
  refine Eq.trans ?_ hmerge
  simp only [arrangeFour, hlow, hlow', List.cons_merge_cons]
  cases hlows : order low' low == .lt <;> cases hhighs : order high' high == .lt
  · simp only [List.nil_merge, List.merge_right, Bool.not_false, if_true]
    split <;> simp [*]
  · -- `low'` stands before `high`, since `high'` does
    have hbetween : order low' high = .lt :=
      TransCmp.lt_of_isLE_of_lt hle' (beq_iff_eq.mp hhighs)
    simp [hbetween, hnot _ _ hle']
  · -- `high'` does not stand before `low`, since it does not stand before `high`
    have hhigh : (order high high').isLE := by rw [← not_before_eq, hhighs]; rfl
    simp [hnot _ _ hle, hnot _ _ (TransCmp.isLE_trans hle hhigh)]
  · simp only [List.nil_merge, List.merge_right, Bool.not_true]
    split <;> simp [*]

theorem arrangeHalf_eq [TransCmp order] (rows : List α) :
    arrangeHalf (fun a b => order a b == .lt) rows =
      arrange (fun a b => order a b == .lt) rows := by
  unfold arrangeHalf
  split
  · next a b c d rest => rw [arrangeFour_eq, extend_arrange, List.cons_append, List.cons_append,
      List.cons_append, List.cons_append, List.nil_append]
  · rfl

/-- **Rows in order come out of the sort from both ends as by insertion.** -/
theorem twoEnded_eq [TransCmp order] (rows : List α) :
    twoEnded.run (fun a b => order a b == .lt) rows =
      some (arrange (fun a b => order a b == .lt) rows) := by
  unfold twoEnded
  dsimp only
  split
  · have hlength (rows : List α) : (arrange (fun a b => order a b == .lt) rows).length =
        rows.length := (arrange_perm _ rows).length_eq
    have hhalves : rows.length / 2 ≤ rows.length - rows.length / 2 ∧
        rows.length - rows.length / 2 ≤ rows.length / 2 + 1 := by omega
    have htake : (rows.take (rows.length / 2)).length = rows.length / 2 :=
      List.length_take_of_le (Nat.div_le_self _ _)
    rw [arrangeHalf_eq, arrangeHalf_eq, merge?_eq order (arrange_sorted order _)
      (arrange_sorted order _), merge_arrange, List.take_append_drop]
    · rw [hlength, hlength, htake, List.length_drop]
      exact hhalves.1
    · rw [hlength, hlength, htake, List.length_drop]
      exact hhalves.2
  · rfl

end Halves

/-! ### The sort from both ends -/

section TwoEnded

variable (less : α → α → Bool) (f : β → α)

theorem arrangeFour_map (a b c d : β) :
    arrangeFour less (f a) (f b) (f c) (f d) =
      (arrangeFour (fun a b => less (f a) (f b)) a b c d).map f := by
  grind [arrangeFour]

theorem extend_map (rows rest : List β) :
    extend less (rows.map f) (rest.map f) =
      (extend (fun a b => less (f a) (f b)) rows rest).map f := by
  rw [extend, extend, ← List.map_reverse, foldl_place_map, List.map_reverse]

theorem arrangeHalf_map (rows : List β) :
    arrangeHalf less (rows.map f) =
      (arrangeHalf (fun a b => less (f a) (f b)) rows).map f := by
  rcases rows with _ | ⟨a, _ | ⟨b, _ | ⟨c, _ | ⟨d, rest⟩⟩⟩⟩
  · rfl
  · exact arrange_map less f [a]
  · exact arrange_map less f [a, b]
  · exact arrange_map less f [a, b, c]
  · simp only [List.map_cons, arrangeHalf, arrangeFour_map, extend_map]

theorem runOn_map (falling : Bool) (last : β) (rows : List β) :
    runOn less falling (f last) (rows.map f) =
      runOn (fun a b => less (f a) (f b)) falling last rows := by
  induction rows generalizing last with
  | nil => rfl
  | cons row rest ih => rw [List.map_cons, runOn, runOn, ih]

theorem frontRun_map (rows : List β) :
    frontRun less (rows.map f) = frontRun (fun a b => less (f a) (f b)) rows := by
  rcases rows with _ | ⟨first, _ | ⟨second, rest⟩⟩
  case cons.cons => rw [List.map_cons, List.map_cons, frontRun, frontRun, runOn_map]
  all_goals rfl

theorem twoEnded_map (rows : List β) :
    twoEnded.run less (rows.map f) =
      (twoEnded.run (fun a b => less (f a) (f b)) rows).map (List.map f) := by
  unfold twoEnded
  dsimp only
  rw [List.length_map, frontRun_map, ← List.map_take, ← List.map_drop, arrangeHalf_map,
    arrangeHalf_map, merge?_map, arrange_map]
  split <;> rfl

theorem twoEnded_lawful : twoEnded.Lawful where
  few less rows h := if_neg fun hmany => absurd hmany.1 (Nat.not_lt.mpr h)
  ordered order rows h := by
    -- the order is one of the rows alone, so the sort is followed on the rows as its domain
    have hrun := twoEnded_map (fun a b => order a b == .lt) Subtype.val rows.attach
    have hmap := arrange_map (fun a b => order a b == .lt) Subtype.val rows.attach
    rw [twoEnded_eq fun a b : { row // row ∈ rows } => order a b, Option.map_some,
      ← hmap, List.attach_map_subtype_val] at hrun
    exact ⟨_, hrun, arrange_isStable_on order h⟩
  perm {α less rows arranged} h := by
    unfold twoEnded at h
    dsimp only at h
    split at h
    · have hhalves := (arrangeHalf_perm less (rows.take (rows.length / 2))).append
        (arrangeHalf_perm less (rows.drop (rows.length / 2)))
      rw [List.take_append_drop] at hhalves
      exact (merge?_perm less h).trans hhalves
    · exact Option.some.inj h ▸ arrange_perm less rows

end TwoEnded

end RowSort

/-! ### The rows of a query -/

namespace DocumentQuery

open Query

variable {α : Type} {sort : RowSort} {query : DocumentQuery} {rows : List (α × Json)}

/-- Rows that a sort may stop on: more than twenty of them, and in one of the sorted fields
    values that do not line up. -/
def MayStopOn (query : DocumentQuery) (rows : List (α × Json)) : Prop :=
  20 < rows.length ∧ ∃ field ∈ query.sort, ¬ LinesUp (rows.map Prod.snd) field.1

theorem not_mayStopOn_of_linesUp (h : ∀ field ∈ query.sort, LinesUp (rows.map Prod.snd) field.1) :
    ¬ query.MayStopOn rows := by
  rintro ⟨-, field, hfield, hnot⟩
  exact hnot (h field hfield)

/-- **Elsewhere the rows come out as by insertion**, whichever the sort is. -/
theorem orderBy?_eq (hsort : sort.Lawful) (h : ¬ query.MayStopOn rows) :
    query.orderBy? sort rows = some (query.order rows) := by
  unfold orderBy?
  split
  · next hnone => rw [order_of_no_sort (List.isEmpty_iff.mp hnone)]
  · by_cases hmany : 20 < rows.length
    · have haligned : ∀ field ∈ query.sort, LinesUp (rows.map Prod.snd) field.1 := by
        intro field hfield
        by_contra hnot
        exact h ⟨hmany, field, hfield, hnot⟩
      obtain ⟨arranged, hrun, hstable⟩ :=
        hsort.ordered query.compareRows (transCmp_compareRows haligned)
      rw [← hstable.unique (order_isStable haligned)]
      exact hrun
    · exact hsort.few _ (Nat.not_lt.mp hmany)

/-- A sort stops, or it gives the rows in some order. -/
theorem orderBy?_cases (hsort : sort.Lawful) (query : DocumentQuery) (rows : List (α × Json)) :
    (query.orderBy? sort rows = none ∧ query.MayStopOn rows) ∨
      ∃ arranged, query.orderBy? sort rows = some arranged ∧ arranged.Perm rows ∧
        (¬ query.MayStopOn rows → arranged = query.order rows) := by
  by_cases hstop : query.MayStopOn rows
  · cases hrun : query.orderBy? sort rows with
    | none => exact .inl ⟨rfl, hstop⟩
    | some arranged =>
      refine .inr ⟨arranged, rfl, ?_, absurd hstop⟩
      unfold orderBy? at hrun
      split at hrun
      · exact Option.some.inj hrun ▸ .refl rows
      · exact hsort.perm hrun
  · exact .inr ⟨_, orderBy?_eq hsort hstop, order_perm query rows, fun _ => rfl⟩

end DocumentQuery

end EntityStore
