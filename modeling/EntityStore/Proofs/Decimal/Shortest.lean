/-
  EntityStore/Proofs/Decimal/Shortest.lean
  ========================================
  **A shortest decimal reads back.**  The decimal that is found for a number lies in its
  rounding interval (`Decimal.contains_shortest`): seventeen digits always suffice, since
  a grid of that many digits is finer than the interval is wide.  Every decimal in the
  interval is read as the number (`Decimal.toBinary64_of_contains`).
-/
import EntityStore.Decimal.Shortest
import EntityStore.Proofs.Binary.Rounding

namespace EntityStore.Decimal

open Binary

-- Powers of naturals are the core ones, whatever else is in scope.
attribute [local instance (high)] instPowNat instNatPowNat

/-! ### Decimals as ratios -/

def num (d : Decimal) : Nat := d.digits * 10 ^ d.exponent.toNat

def den (d : Decimal) : Nat := 10 ^ (-d.exponent).toNat

theorem den_pos (d : Decimal) : 0 < d.den := Nat.pow_pos (by decide)

/-- A decimal lies in the interval; at its ends, only if these belong to it. -/
def Interval.Contains (I : Interval) (d : Decimal) : Prop :=
  if I.closed then
    I.low * d.den ≤ d.num * 2 ^ I.denLog ∧ d.num * 2 ^ I.denLog ≤ I.high * d.den
  else I.low * d.den < d.num * 2 ^ I.denLog ∧ d.num * 2 ^ I.denLog < I.high * d.den

namespace Interval

variable {I : Interval} {tie : Tie} {power : Int} {d : Decimal} {n : Nat}

theorem Contains.le (h : I.Contains d) :
    I.low * d.den ≤ d.num * 2 ^ I.denLog ∧ d.num * 2 ^ I.denLog ≤ I.high * d.den := by
  unfold Contains at h
  split at h
  · exact h
  · exact ⟨Nat.le_of_lt h.1, Nat.le_of_lt h.2⟩

theorem Contains.lt (h : I.Contains d) (hopen : I.closed = false) :
    I.low * d.den < d.num * 2 ^ I.denLog ∧ d.num * 2 ^ I.denLog < I.high * d.den := by
  unfold Contains at h
  rw [hopen] at h
  exact h

/-- Ten times the digits and one power of ten less are the same number. -/
theorem contains_tenfold : I.Contains ⟨10 * n, power⟩ ↔ I.Contains ⟨n, power + 1⟩ := by
  unfold Contains num den
  rcases Int.lt_or_le power 0 with hneg | hpos
  · obtain ⟨k, rfl⟩ : ∃ k : Nat, power = -(k + 1 : Int) := ⟨(-power - 1).toNat, by omega⟩
    have h₁ : (-(k + 1 : Int)).toNat = 0 := by omega
    have h₂ : (-(-(k + 1 : Int))).toNat = k + 1 := by omega
    have h₃ : (-(k + 1 : Int) + 1).toNat = 0 := by omega
    have h₄ : (-(-(k + 1 : Int) + 1)).toNat = k := by omega
    simp only [h₁, h₂, h₃, h₄, Nat.pow_zero, Nat.pow_succ, Nat.mul_one]
    have hlow : I.low * (10 ^ k * 10) = 10 * (I.low * 10 ^ k) := by grind
    have hhigh : I.high * (10 ^ k * 10) = 10 * (I.high * 10 ^ k) := by grind
    have hvalue : 10 * n * 2 ^ I.denLog = 10 * (n * 2 ^ I.denLog) := by grind
    rw [hlow, hhigh, hvalue]
    split <;> omega
  · obtain ⟨k, rfl⟩ : ∃ k : Nat, power = k := ⟨power.toNat, by omega⟩
    have h₁ : (-(k : Int)).toNat = 0 := by omega
    have h₂ : ((k : Int) + 1).toNat = k + 1 := by omega
    have h₃ : (-((k : Int) + 1)).toNat = 0 := by omega
    have h₄ : 10 * n * 10 ^ k = n * 10 ^ (k + 1) := by
      rw [Nat.pow_succ]
      grind
    simp only [h₁, h₂, h₃, Int.toNat_natCast, h₄]

/-- Zeros behind the digits and as many powers of ten less are the same number. -/
theorem contains_zeros (k : Nat) :
    I.Contains ⟨n * 10 ^ k, power⟩ ↔ I.Contains ⟨n, power + k⟩ := by
  induction k generalizing power with
  | zero => simp
  | succ k ih =>
    rw [Nat.pow_succ, ← Nat.mul_assoc, Nat.mul_comm _ 10, contains_tenfold, ih,
      show power + 1 + (k : Int) = power + ((k + 1 : Nat) : Int) by omega]

theorem contains_dropZeros (fuel : Nat) : I.Contains (dropZeros fuel d) ↔ I.Contains d := by
  induction fuel generalizing d with
  | zero => rfl
  | succ fuel ih =>
    unfold dropZeros
    split
    · next hzero =>
      obtain ⟨digits, exponent⟩ := d
      have htenfold : digits = 10 * (digits / 10) := by
        have := hzero.2
        simp only at this
        omega
      rw [ih, ← contains_tenfold, ← htenfold]
    · rfl

/-! ### Grid points -/

/-- The test of a grid point. -/
theorem inside_iff :
    (if I.closed then
        I.low * 10 ^ (-power).toNat ≤ n * (2 ^ I.denLog * 10 ^ power.toNat) &&
          n * (2 ^ I.denLog * 10 ^ power.toNat) ≤ I.high * 10 ^ (-power).toNat
      else
        I.low * 10 ^ (-power).toNat < n * (2 ^ I.denLog * 10 ^ power.toNat) &&
          n * (2 ^ I.denLog * 10 ^ power.toNat) < I.high * 10 ^ (-power).toNat : Bool) = true ↔
      I.Contains ⟨n, power⟩ := by
  have hcell : n * (2 ^ I.denLog * 10 ^ power.toNat) =
      n * 10 ^ power.toNat * 2 ^ I.denLog := by
    rw [Nat.mul_comm (2 ^ I.denLog), Nat.mul_assoc]
  rw [hcell]
  unfold Contains num den
  cases I.closed <;> simp

/-- Whatever is taken from a grid lies in the interval. -/
theorem contains_of_nearest (h : I.nearest? tie power = some n) : I.Contains ⟨n, power⟩ := by
  -- each branch takes a neighbour that was seen to lie in the interval
  unfold nearest? at h
  simp only at h
  split at h
  · next hbelow habove =>
    have hbelow := inside_iff.mp hbelow
    have habove := inside_iff.mp habove
    split at h
    · cases h
      exact hbelow
    · split at h
      · cases h
        exact habove
      · split at h
        · cases h
          exact hbelow
        · cases h
          exact habove
  · next hbelow _ =>
    cases h
    exact inside_iff.mp hbelow
  · next _ habove =>
    cases h
    exact inside_iff.mp habove
  · cases h

/-- If a neighbour of the value lies in the interval, one of the neighbours is taken. -/
theorem exists_nearest_of_contains {below : Nat}
    (hbelow : I.value * 10 ^ (-power).toNat / (2 ^ I.denLog * 10 ^ power.toNat) = below)
    (h : I.Contains ⟨below, power⟩ ∨ I.Contains ⟨below + 1, power⟩) :
    ∃ n, I.nearest? tie power = some n := by
  rw [← inside_iff, ← inside_iff] at h
  unfold nearest?
  simp only [hbelow]
  split
  · split
    · exact ⟨_, rfl⟩
    · split
      · exact ⟨_, rfl⟩
      · split <;> exact ⟨_, rfl⟩
  · exact ⟨_, rfl⟩
  · exact ⟨_, rfl⟩
  · next hbelow habove =>
    rcases h with h | h
    · exact absurd (hbelow.symm.trans h) nofun
    · exact absurd (habove.symm.trans h) nofun

/-- Some point is taken from every grid that is finer than the interval is wide. -/
theorem exists_nearest (hlow : I.low < I.value) (hhigh : I.value < I.high)
    (hfine : 2 ^ I.denLog * 10 ^ power.toNat < (I.high - I.low) * 10 ^ (-power).toNat) :
    ∃ n, I.nearest? tie power = some n := by
  refine exists_nearest_of_contains rfl ?_
  have hup : 0 < 10 ^ (-power).toNat := Nat.pow_pos (by decide)
  have hcell : 0 < 2 ^ I.denLog * 10 ^ power.toNat :=
    Nat.mul_pos (Nat.two_pow_pos _) (Nat.pow_pos (by decide))
  rw [← inside_iff, ← inside_iff]
  generalize 10 ^ (-power).toNat = up at hfine hup ⊢
  generalize 2 ^ I.denLog * 10 ^ power.toNat = cell at hfine hcell ⊢
  have hbelow : I.value * up / cell * cell ≤ I.value * up := Nat.div_mul_le_self _ _
  have habove : I.value * up < (I.value * up / cell + 1) * cell := by
    rw [Nat.mul_comm _ cell]
    exact Nat.lt_mul_div_succ _ hcell
  have hlow : I.low * up < I.value * up := Nat.mul_lt_mul_of_pos_right hlow hup
  have hhigh : I.value * up < I.high * up := Nat.mul_lt_mul_of_pos_right hhigh hup
  rw [Nat.sub_mul] at hfine
  rw [Nat.add_mul, Nat.one_mul] at habove ⊢
  -- both neighbours outside the interval would be further apart than the grid is
  cases I.closed with
  | true =>
    simp only [if_true, Bool.and_eq_true, decide_eq_true_eq]
    omega
  | false =>
    simp only [Bool.false_eq_true, if_false, Bool.and_eq_true, decide_eq_true_eq]
    omega

end Interval

/-! ### Powers of ten and of two -/

theorem ten_pow_le_two_pow {e b : Nat} (h : 10 * e ≤ 3 * b) : 10 ^ e ≤ 2 ^ b := by
  have hcubes : (10 ^ e) ^ 3 ≤ (2 ^ b) ^ 3 := by
    calc
      (10 ^ e) ^ 3 = 1000 ^ e := by rw [← Nat.pow_mul, Nat.mul_comm, Nat.pow_mul]
      _ ≤ 1024 ^ e := Nat.pow_le_pow_left (by decide) e
      _ = 2 ^ (10 * e) := by rw [Nat.pow_mul]
      _ ≤ 2 ^ (3 * b) := Nat.pow_le_pow_right (by decide) h
      _ = (2 ^ b) ^ 3 := by rw [← Nat.pow_mul, Nat.mul_comm]
  exact (Nat.pow_le_pow_iff_left (by decide)).mp hcubes

theorem two_pow_le_ten_pow {e b : Nat} (h : 28 * b ≤ 93 * e) : 2 ^ b ≤ 10 ^ e := by
  have hpowers : (2 ^ b) ^ 28 ≤ (10 ^ e) ^ 28 := by
    calc
      (2 ^ b) ^ 28 = 2 ^ (28 * b) := by rw [← Nat.pow_mul, Nat.mul_comm]
      _ ≤ 2 ^ (93 * e) := Nat.pow_le_pow_right (by decide) h
      _ = (2 ^ 93) ^ e := by rw [Nat.pow_mul]
      _ ≤ (10 ^ 28) ^ e := Nat.pow_le_pow_left (by decide) e
      _ = (10 ^ e) ^ 28 := by rw [← Nat.pow_mul, Nat.mul_comm, Nat.pow_mul]
  exact (Nat.pow_le_pow_iff_left (by decide)).mp hpowers

/-- A power of ten is not above a ratio. -/
def PowerLe (num den : Nat) (power : Int) : Prop :=
  den * 10 ^ power.toNat ≤ num * 10 ^ (-power).toNat

theorem powerLe_floorPower {num den fuel j : Nat} {start : Int} (hj : j < fuel)
    (h : PowerLe num den (start - j)) : PowerLe num den (floorPower num den fuel start) := by
  induction fuel generalizing start j with
  | zero => exact absurd hj (Nat.not_lt_zero j)
  | succ fuel ih =>
    unfold floorPower
    split
    · next hstart => exact hstart
    · next hstart =>
      rcases j with _ | j
      · rw [Int.natCast_zero, Int.sub_zero] at h
        exact absurd h hstart
      · refine ih (Nat.lt_of_succ_lt_succ hj) ?_
        rw [show start - 1 - (j : Int) = start - ((j + 1 : Nat) : Int) by omega]
        exact h

/-- Seven powers below the bound is not above the ratio. -/
theorem powerLe_powerBound {num k : Nat} (hnum : num ≠ 0) (hlow : k ≤ num.log2 + 1100)
    (hhigh : num.log2 ≤ k + 1100) : PowerLe num (2 ^ k) (powerBound num (2 ^ k) - 7) := by
  have hself : 2 ^ num.log2 ≤ num := Nat.log2_self_le hnum
  unfold PowerLe powerBound
  rw [Nat.log2_two_pow]
  generalize num.log2 = l at hlow hhigh hself
  generalize he : ((l : Int) - k + 1) * 30103 / 100000 + 1 - 7 = e
  rcases Int.lt_or_le e 0 with hneg | hpos
  · obtain ⟨f, rfl⟩ : ∃ f : Nat, e = -(f : Int) := ⟨(-e).toNat, by omega⟩
    rw [show (-(f : Int)).toNat = 0 by omega, show (-(-(f : Int))).toNat = f by omega,
      Nat.pow_zero, Nat.mul_one]
    calc
      2 ^ k ≤ 2 ^ (l + (k - l)) := Nat.pow_le_pow_right (by decide) (by omega)
      _ = 2 ^ l * 2 ^ (k - l) := Nat.pow_add _ _ _
      _ ≤ num * 10 ^ f := Nat.mul_le_mul hself (two_pow_le_ten_pow (by omega))
  · obtain ⟨f, rfl⟩ : ∃ f : Nat, e = (f : Int) := ⟨e.toNat, by omega⟩
    rw [show (-(f : Int)).toNat = 0 by omega, Int.toNat_natCast, Nat.pow_zero, Nat.mul_one]
    calc
      2 ^ k * 10 ^ f ≤ 2 ^ k * 2 ^ (l - k) := Nat.mul_le_mul_left _ (ten_pow_le_two_pow (by omega))
      _ = 2 ^ l := by rw [← Nat.pow_add]; congr 1; omega
      _ ≤ num := hself

/-! ### Grids that are fine enough -/

theorem contains_shortestFrom {I : Interval} {tie : Tie} {top : Int} {fuel digits k : Nat}
    (hk : k < fuel) (h : ∃ n, I.nearest? tie (top + 1 - ((digits + k : Nat) : Int)) = some n) :
    I.Contains (shortestFrom I tie top fuel digits) := by
  induction fuel generalizing digits k with
  | zero => exact absurd hk (Nat.not_lt_zero k)
  | succ fuel ih =>
    unfold shortestFrom
    simp only
    split
    · next n hnearest =>
      rw [Interval.contains_dropZeros]
      exact Interval.contains_of_nearest hnearest
    · next hnone =>
      rcases k with _ | k
      · rw [Nat.add_zero, hnone] at h
        obtain ⟨n, hn⟩ := h
        cases hn
      · refine ih (Nat.lt_of_succ_lt_succ hk) ?_
        rw [show digits + 1 + k = digits + (k + 1) by omega]
        exact h

/-- Sixteen powers below one that is not above the value, a grid is finer than an interval
    that is wider than a part in ten to the sixteenth of the value. -/
theorem fine_of_powerLe {num den width : Nat} {top : Int} (h : PowerLe num den top)
    (hwidth : num < 10 ^ (16 : Nat) * width) :
    den * 10 ^ (top - 16).toNat < width * 10 ^ (-(top - 16)).toNat := by
  unfold PowerLe at h
  have hshift : 10 ^ top.toNat * 10 ^ (-(top - 16)).toNat =
      10 ^ (16 : Nat) * 10 ^ (top - 16).toNat * 10 ^ (-top).toNat := by
    rw [← Nat.pow_add, ← Nat.pow_add, ← Nat.pow_add]
    congr 1
    omega
  have hpos : 0 < 10 ^ (-top).toNat := Nat.pow_pos (by decide)
  have hpos' : 0 < 10 ^ (-(top - 16)).toNat := Nat.pow_pos (by decide)
  -- from here on the powers are numbers like others, tied by `hshift`
  generalize 10 ^ top.toNat = a at h hshift
  generalize 10 ^ (-top).toNat = a' at h hshift hpos
  generalize 10 ^ (top - 16).toNat = b at hshift ⊢
  generalize 10 ^ (-(top - 16)).toNat = b' at hshift hpos' ⊢
  generalize 10 ^ (16 : Nat) = big at hshift hwidth
  have hscaled : den * a * b' ≤ num * a' * b' := Nat.mul_le_mul_right b' h
  -- the power itself cancels, sixteen powers stay
  have hcancel : den * b * big ≤ num * b' := by
    refine Nat.le_of_mul_le_mul_right ?_ hpos
    calc
      den * b * big * a' = den * (big * b * a') := by grind
      _ = den * a * b' := by rw [← hshift, Nat.mul_assoc]
      _ ≤ num * a' * b' := hscaled
      _ = num * b' * a' := by grind
  have hstrict : num * b' < big * width * b' := Nat.mul_lt_mul_of_pos_right hwidth hpos'
  have : den * b * big < width * b' * big := by grind
  exact Nat.lt_of_mul_lt_mul_right this

/-! ### The interval of a magnitude -/

namespace Interval

variable {pattern : Nat}

theorem low_lt_value {F : Format} (h : 0 < pattern) :
    (ofPattern F pattern).low < (ofPattern F pattern).value := by
  have hm := Format.significand_pos (F := F) h
  have hstep : 0 < 2 ^ F.shift pattern := Nat.two_pow_pos _
  unfold ofPattern
  simp only
  refine Nat.mul_lt_mul_of_pos_right ?_ hstep
  split <;> omega

theorem value_lt_high {F : Format} :
    (ofPattern F pattern).value < (ofPattern F pattern).high := by
  have hstep : 0 < 2 ^ F.shift pattern := Nat.two_pow_pos _
  unfold ofPattern
  simp only
  exact Nat.mul_lt_mul_of_pos_right (by omega) hstep

/-- The interval is wider than a part in ten to the sixteenth of the value. -/
theorem value_lt_width (h : 0 < pattern) :
    (ofPattern .double pattern).value <
      10 ^ (16 : Nat) * ((ofPattern .double pattern).high - (ofPattern .double pattern).low) := by
  have hm := Format.significand_pos (F := .double) h
  have hsmall : Format.double.significand pattern < 2 ^ 53 :=
    Format.significand_lt (by decide) pattern
  have hstep : 0 < 2 ^ Format.double.shift pattern := Nat.two_pow_pos _
  unfold ofPattern
  simp only
  rw [← Nat.sub_mul, ← Nat.mul_assoc]
  refine Nat.mul_lt_mul_of_pos_right ?_ hstep
  split
  · next hnarrow =>
    have hpower : Format.double.significand pattern = 2 ^ 52 := hnarrow.1
    omega
  · omega

theorem shift_le (hfinite : pattern < Format.double.infinity) :
    Format.double.shift pattern ≤ 2046 := by
  have hbound : pattern < 2047 * 2 ^ 52 := hfinite
  show pattern / 2 ^ 52 - 1 ≤ 2046
  omega

theorem log2_value_le (h : 0 < pattern) (hfinite : pattern < Format.double.infinity) :
    (ofPattern .double pattern).value ≠ 0 ∧ (ofPattern .double pattern).value.log2 ≤ 2176 := by
  have hne : (ofPattern .double pattern).value ≠ 0 :=
    Nat.ne_of_gt (Nat.lt_of_le_of_lt (Nat.zero_le _) (low_lt_value h))
  have hsmall : Format.double.significand pattern < 2 ^ 53 :=
    Format.significand_lt (by decide) pattern
  have hshift := shift_le hfinite
  have hvalue : (ofPattern .double pattern).value < 2 ^ (55 + Format.double.shift pattern) := by
    rw [Nat.pow_add]
    exact Nat.mul_lt_mul_of_pos_right (by omega) (Nat.two_pow_pos _)
  have hlog := (Nat.log2_lt hne).mpr hvalue
  exact ⟨hne, by omega⟩

/-- Seventeen digits are enough for an interval of the width and the size of a rounding
    interval. -/
theorem contains_search {I : Interval} (tie : Tie) (hlow : I.low < I.value)
    (hhigh : I.value < I.high) (hwidth : I.value < 10 ^ (16 : Nat) * (I.high - I.low))
    (hden : I.denLog = 1076) (hlog : I.value.log2 ≤ 2176) :
    I.Contains (shortestFrom I tie
      (floorPower I.value (2 ^ I.denLog) 8 (powerBound I.value (2 ^ I.denLog))) 17 1) := by
  have hne : I.value ≠ 0 := by omega
  have hpower : PowerLe I.value (2 ^ I.denLog)
      (powerBound I.value (2 ^ I.denLog) - ((7 : Nat) : Int)) :=
    powerLe_powerBound hne (by omega) (by omega)
  have htop : PowerLe I.value (2 ^ I.denLog)
      (floorPower I.value (2 ^ I.denLog) 8 (powerBound I.value (2 ^ I.denLog))) :=
    powerLe_floorPower (by decide) hpower
  generalize floorPower I.value (2 ^ I.denLog) 8 (powerBound I.value (2 ^ I.denLog)) = top at htop ⊢
  have hfine := fine_of_powerLe htop hwidth
  refine contains_shortestFrom (k := 16) (by decide) (exists_nearest hlow hhigh ?_)
  rw [show top + 1 - ((1 + 16 : Nat) : Int) = top - 16 by omega]
  exact hfine

end Interval

/-- **A shortest decimal lies in the rounding interval** of its magnitude. -/
theorem contains_shortest {x : Binary64} (tie : Tie) (hfinite : x.isFinite = true)
    (hzero : x.isZero = false) :
    (Interval.ofPattern .double x.magnitude).Contains (shortest tie x) := by
  have hfinite : x.magnitude < Format.double.infinity := by
    simpa [Binary64.isFinite] using hfinite
  have hpos : 0 < x.magnitude := by
    simpa [Binary64.isZero, Nat.pos_iff_ne_zero] using hzero
  unfold shortest
  rw [hzero]
  exact Interval.contains_search tie (Interval.low_lt_value hpos) Interval.value_lt_high
    (Interval.value_lt_width hpos) rfl (Interval.log2_value_le hpos hfinite).2

/-! ### Reading a decimal of the interval -/

/-- The ends of an interval, as steps from its magnitude. -/
theorem Interval.ends {F : Format} {pattern c : Nat} (d : Decimal)
    (hc : c = if F.significand pattern = 2 ^ (F.precision - 1) ∧ 0 < F.shift pattern then 1 else 2)
    (hpos : 0 < pattern) :
    (ofPattern F pattern).low * d.den + c * (d.den * 2 ^ F.shift pattern) =
        4 * (F.significand pattern * (d.den * 2 ^ F.shift pattern)) ∧
      (ofPattern F pattern).high * d.den =
        4 * (F.significand pattern * (d.den * 2 ^ F.shift pattern)) +
          2 * (d.den * 2 ^ F.shift pattern) := by
  have hm := Format.significand_pos (F := F) hpos
  unfold ofPattern
  simp only [← hc]
  have hc : c ≤ 4 * F.significand pattern := by grind
  constructor
  · have hlow : (4 * F.significand pattern - c + c) = 4 * F.significand pattern :=
      Nat.sub_add_cancel hc
    grind
  · grind

/-- **Every decimal of a rounding interval rounds to the magnitude.** -/
theorem ofRatio_of_contains {F : Format} {pattern : Nat} {d : Decimal} (hp : 0 < F.precision)
    (hpos : 0 < pattern) (hfinite : pattern ≤ F.infinity)
    (h : (Interval.ofPattern F pattern).Contains d) : F.ofRatio d.num d.den = pattern := by
  have hden := d.den_pos
  have hstep : 0 < d.den * 2 ^ F.shift pattern := Nat.mul_pos hden (Nat.two_pow_pos _)
  have hvalue : d.num * 2 ^ (F.unitsLog + 2) = 4 * (d.num * 2 ^ F.unitsLog) := by
    rw [Nat.pow_add]
    grind
  obtain ⟨c, hc⟩ : ∃ c, c = if F.significand pattern = 2 ^ (F.precision - 1) ∧
    0 < F.shift pattern then 1 else 2 := ⟨_, rfl⟩
  obtain ⟨hlow, hhigh⟩ := Interval.ends d hc hpos
  obtain ⟨hle_low, hle_high⟩ : (Interval.ofPattern F pattern).low * d.den ≤
      4 * (d.num * 2 ^ F.unitsLog) ∧ 4 * (d.num * 2 ^ F.unitsLog) ≤
        (Interval.ofPattern F pattern).high * d.den := hvalue ▸ h.le
  have hlt : F.significand pattern % 2 = 1 → (Interval.ofPattern F pattern).low * d.den <
      4 * (d.num * 2 ^ F.unitsLog) ∧ 4 * (d.num * 2 ^ F.unitsLog) <
        (Interval.ofPattern F pattern).high * d.den := by
    intro hodd
    exact hvalue ▸ h.lt (by simpa [Interval.ofPattern] using hodd)
  have hquarter : c * (d.den * 2 ^ F.shift pattern) ≤ 2 * (d.den * 2 ^ F.shift pattern) :=
    Nat.mul_le_mul_right _ (by grind)
  by_cases hnormal : F.shift pattern = 0 ∨
      2 ^ (F.precision - 1) * (d.den * 2 ^ F.shift pattern) ≤ d.num * 2 ^ F.unitsLog
  · refine Format.ofRatio_of_normal hp hden hfinite ?_ ?_ ?_ hnormal
    · grind
    · grind
    · intro hodd
      have := hlt hodd
      grind
  · rw [not_or, Nat.not_le] at hnormal
    have hshift : 0 < F.shift pattern := Nat.pos_of_ne_zero hnormal.1
    -- so near below a power of two is only the power itself
    have hpower : F.significand pattern = 2 ^ (F.precision - 1) := by
      refine Nat.le_antisymm ?_ (Format.le_significand_of_shift hshift)
      apply Nat.le_of_not_lt
      intro hlt
      have := Nat.mul_le_mul_right (d.den * 2 ^ F.shift pattern) hlt
      grind
    have hc : c = 1 := by rw [hc, if_pos ⟨hpower, hshift⟩]
    refine Format.ofRatio_below_power hp hden hfinite hshift hpower ?_ hnormal.2
    rw [hc] at hlow
    grind
/-! ### The nearest number -/

theorem digits_bounds {n : Nat} (h : n ≠ 0) :
    10 ^ ((digitChars n).length - 1) ≤ n ∧ n < 10 ^ (digitChars n).length := by
  unfold digitChars
  have hpos : 0 < (Nat.toDigits 10 n).length := Nat.length_toDigits_pos
  constructor
  · by_cases hone : (Nat.toDigits 10 n).length = 1
    · rw [hone]
      omega
    · apply Nat.le_of_not_lt
      intro hlt
      have := (Nat.length_toDigits_le_iff (by decide) (by omega)).mpr hlt
      omega
  · exact (Nat.length_toDigits_le_iff (by decide) hpos).mp (Nat.le_refl _)

namespace Interval

variable {pattern : Nat} {d : Decimal}

theorem low_pos {F : Format} (h : 0 < pattern) : 0 < (ofPattern F pattern).low := by
  have hm := Format.significand_pos (F := F) h
  unfold ofPattern
  simp only
  refine Nat.mul_pos ?_ (Nat.two_pow_pos _)
  split <;> omega

theorem Contains.den_le {I : Interval} (h : I.Contains d) (hlow : 0 < I.low) :
    d.den ≤ d.num * 2 ^ I.denLog :=
  Nat.le_trans (Nat.le_mul_of_pos_left _ hlow) h.le.1

theorem Contains.digits_ne_zero {I : Interval} (h : I.Contains d) (hlow : 0 < I.low) :
    d.digits ≠ 0 := by
  intro hzero
  have hden_le := h.den_le hlow
  have hden := d.den_pos
  unfold num at hden_le
  rw [hzero, Nat.zero_mul, Nat.zero_mul] at hden_le
  omega

theorem Contains.num_lt {I : Interval} {bound : Nat} (h : I.Contains d)
    (hhigh : I.high < bound * 2 ^ I.denLog) : d.num < bound * d.den := by
  have hscaled := Nat.mul_lt_mul_of_pos_right hhigh d.den_pos
  rw [Nat.mul_right_comm] at hscaled
  exact Nat.lt_of_mul_lt_mul_right (Nat.lt_of_le_of_lt h.le.2 hscaled)

theorem high_lt (hfinite : pattern < Format.double.infinity) {e : Nat} (he : 1029 ≤ e) :
    (ofPattern .double pattern).high < 2 ^ e * 2 ^ (ofPattern .double pattern).denLog := by
  have hm : Format.double.significand pattern < 2 ^ 53 :=
    Format.significand_lt (by decide) pattern
  have hshift := shift_le hfinite
  have hdenLog : (ofPattern .double pattern).denLog = 1076 := rfl
  have hexp : 56 + Format.double.shift pattern < e + (ofPattern .double pattern).denLog := by
    omega
  calc
    (ofPattern .double pattern).high
      = (4 * Format.double.significand pattern + 2) * 2 ^ Format.double.shift pattern := rfl
    _ ≤ 2 ^ 56 * 2 ^ Format.double.shift pattern := Nat.mul_le_mul_right _ (by omega)
    _ = 2 ^ (56 + Format.double.shift pattern) := (Nat.pow_add _ _ _).symm
    _ < 2 ^ (e + (ofPattern .double pattern).denLog) := Nat.pow_lt_pow_right (by decide) hexp
    _ = 2 ^ e * 2 ^ (ofPattern .double pattern).denLog := Nat.pow_add _ _ _

end Interval

/-- A decimal of a rounding interval is in the range in which the nearest number is
    looked for. -/
theorem size_of_contains {pattern : Nat} {d : Decimal} (hpos : 0 < pattern)
    (hfinite : pattern < Format.double.infinity)
    (h : (Interval.ofPattern .double pattern).Contains d) :
    d.exponent + (digitChars d.digits).length ≤ overflowExponent ∧
      underflowExponent ≤ d.exponent + (digitChars d.digits).length := by
  -- the exponents have names, since powers of this size are not to be computed
  obtain ⟨e, he⟩ : ∃ e, e = 1029 := ⟨_, rfl⟩
  obtain ⟨k, hk⟩ : ∃ k, k = (Interval.ofPattern .double pattern).denLog := ⟨_, rfl⟩
  have hk' : k = 1076 := hk
  have hden_le := h.den_le (Interval.low_pos hpos)
  have hnum_lt := h.num_lt (Interval.high_lt hfinite (Nat.le_of_eq he.symm))
  have hdigits := h.digits_ne_zero (Interval.low_pos hpos)
  obtain ⟨hlead, htotal⟩ := digits_bounds hdigits
  rw [← hk] at hden_le
  unfold num at hden_le hnum_lt
  generalize (digitChars d.digits).length = size at hlead htotal
  constructor
  · apply Int.le_of_not_gt
    intro hlarge
    have hexp : overflowExponent.toNat + (-d.exponent).toNat ≤ size - 1 + d.exponent.toNat := by
      unfold overflowExponent at hlarge ⊢
      omega
    have hpow : 2 ^ e ≤ 10 ^ overflowExponent.toNat :=
      two_pow_le_ten_pow (by unfold overflowExponent; omega)
    have : 2 ^ e * d.den ≤ d.digits * 10 ^ d.exponent.toNat := by
      calc
        2 ^ e * d.den ≤ 10 ^ overflowExponent.toNat * 10 ^ (-d.exponent).toNat :=
          Nat.mul_le_mul_right _ hpow
        _ = 10 ^ (overflowExponent.toNat + (-d.exponent).toNat) := (Nat.pow_add _ _ _).symm
        _ ≤ 10 ^ (size - 1 + d.exponent.toNat) := Nat.pow_le_pow_right (by decide) hexp
        _ = 10 ^ (size - 1) * 10 ^ d.exponent.toNat := Nat.pow_add _ _ _
        _ ≤ d.digits * 10 ^ d.exponent.toNat := Nat.mul_le_mul_right _ hlead
    omega
  · apply Int.le_of_not_gt
    intro hsmall
    have hexp : size + d.exponent.toNat + (-underflowExponent).toNat ≤ (-d.exponent).toNat := by
      unfold underflowExponent at hsmall ⊢
      omega
    have hpow : 2 ^ k ≤ 10 ^ (-underflowExponent).toNat :=
      two_pow_le_ten_pow (by unfold underflowExponent; omega)
    have hsize : d.digits * 10 ^ d.exponent.toNat < 10 ^ size * 10 ^ d.exponent.toNat :=
      Nat.mul_lt_mul_of_pos_right htotal (Nat.pow_pos (by decide))
    have : d.digits * 10 ^ d.exponent.toNat * 2 ^ k < d.den := by
      calc
        d.digits * 10 ^ d.exponent.toNat * 2 ^ k
          < 10 ^ size * 10 ^ d.exponent.toNat * 2 ^ k :=
          Nat.mul_lt_mul_of_pos_right hsize (Nat.two_pow_pos _)
        _ ≤ 10 ^ size * 10 ^ d.exponent.toNat * 10 ^ (-underflowExponent).toNat :=
          Nat.mul_le_mul_left _ hpow
        _ = 10 ^ (size + d.exponent.toNat + (-underflowExponent).toNat) := by
          rw [Nat.pow_add, Nat.pow_add]
        _ ≤ 10 ^ (-d.exponent).toNat := Nat.pow_le_pow_right (by decide) hexp
    omega

/-- **Every decimal of the rounding interval of a number is read as that number.** -/
theorem toBinary64_of_contains {x : Binary64} {d : Decimal} (hfinite : x.isFinite = true)
    (hzero : x.isZero = false) (h : (Interval.ofPattern .double x.magnitude).Contains d) :
    d.toBinary64 x.negative = x := by
  have hfinite : x.magnitude < Format.double.infinity := by
    simpa [Binary64.isFinite] using hfinite
  have hpos : 0 < x.magnitude := by
    simpa [Binary64.isZero, Nat.pos_iff_ne_zero] using hzero
  have hdigits := h.digits_ne_zero (Interval.low_pos hpos)
  obtain ⟨hlarge, hsmall⟩ := size_of_contains hpos hfinite h
  have hratio := ofRatio_of_contains (by decide) hpos (Nat.le_of_lt hfinite) h
  unfold toBinary64
  simp only
  rw [if_neg hdigits, if_neg (Int.not_lt.mpr hlarge), if_neg (Int.not_lt.mpr hsmall)]
  show Binary64.ofParts x.negative (Format.double.ofRatio d.num d.den) = x
  rw [hratio, Binary64.ofParts_parts]

end EntityStore.Decimal
