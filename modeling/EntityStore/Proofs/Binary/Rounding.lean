/-
  EntityStore/Proofs/Binary/Rounding.lean
  =======================================
  **What rounds to a magnitude.**  A finite magnitude is `m` steps of `2 ^ s` units.
  Every ratio from half a step below it to half a step above rounds to it, the ends
  included where `m` is even; below a power of two the steps are half as wide, and a
  quarter of a step is what is left (`Format.ofRatio_of_normal`,
  `Format.ofRatio_below_power`).
-/
import EntityStore.Binary.Binary64

namespace EntityStore.Binary

-- Powers of naturals are the core ones, whatever else is in scope.
attribute [local instance (high)] instPowNat instNatPowNat

/-! ### Rounding a quotient -/

/-- A quotient no further than a half from a whole number rounds to it; exactly a half
    away, only if the number is even. -/
theorem roundedQuotient_eq {num den m : Nat} (hden : 0 < den)
    (hlow : 2 * m * den ≤ 2 * num + den) (hhigh : 2 * num ≤ (2 * m + 1) * den)
    (htie : m % 2 = 1 → 2 * m * den < 2 * num + den ∧ 2 * num < (2 * m + 1) * den) :
    roundedQuotient num den = m := by
  have hdivided : den * (num / den) + num % den = num := Nat.div_add_mod num den
  have hremainder : num % den < den := Nat.mod_lt num hden
  unfold roundedQuotient
  generalize num / den = q at hdivided ⊢
  generalize num % den = r at hdivided hremainder ⊢
  subst hdivided
  have hle : q ≤ m := by
    apply Nat.le_of_not_lt
    intro hlt
    have := Nat.mul_le_mul_left den hlt
    grind
  have hge : m ≤ q + 1 := by
    apply Nat.le_of_not_lt
    intro hlt
    have := Nat.mul_le_mul_left den hlt
    grind
  rcases Nat.eq_or_lt_of_le hle with rfl | hlt
  · -- the remainder is at most a half
    have hhalf : 2 * r ≤ den := by grind
    have hodd : q % 2 = 1 → 2 * r < den := by
      intro hodd
      have := (htie hodd).2
      grind
    grind
  · -- the remainder is at least a half
    obtain rfl : m = q + 1 := by omega
    have hhalf : den ≤ 2 * r := by grind
    have heven : q % 2 = 0 → den < 2 * r := by
      intro heven
      have := (htie (by omega)).1
      grind
    grind

namespace Format

variable {F : Format}

/-! ### Patterns -/

/-- The significands of one shift begin half way below the power of two that bounds them. -/
theorem two_pow_precision (hp : 0 < F.precision) :
    2 ^ F.precision = 2 ^ (F.precision - 1) * 2 := by
  rw [← Nat.pow_succ, Nat.succ_eq_add_one, Nat.sub_add_cancel hp]

/-- A pattern is made of its shift and its significand. -/
theorem shift_mul_add_significand (pattern : Nat) :
    F.shift pattern * 2 ^ (F.precision - 1) + F.significand pattern = pattern := by
  have hdivided := Nat.div_add_mod pattern (2 ^ (F.precision - 1))
  unfold shift significand
  generalize hq : pattern / 2 ^ (F.precision - 1) = q at hdivided ⊢
  rcases q with _ | q
  · simp
  · rw [if_neg (Nat.succ_ne_zero q), Nat.add_sub_cancel]
    grind

theorem significand_lt (hp : 0 < F.precision) (pattern : Nat) :
    F.significand pattern < 2 ^ F.precision := by
  have hpow := two_pow_precision hp
  have hpos : 0 < 2 ^ (F.precision - 1) := Nat.two_pow_pos _
  unfold significand
  split
  · next hzero =>
    have := (Nat.div_eq_zero_iff_lt hpos).mp hzero
    omega
  · have := Nat.mod_lt pattern hpos
    omega

theorem significand_pos {pattern : Nat} (h : 0 < pattern) : 0 < F.significand pattern := by
  unfold significand
  split
  · exact h
  · have : 0 < 2 ^ (F.precision - 1) := Nat.two_pow_pos _
    omega

theorem le_significand_of_shift {pattern : Nat} (h : 0 < F.shift pattern) :
    2 ^ (F.precision - 1) ≤ F.significand pattern := by
  unfold shift at h
  unfold significand
  rw [if_neg (by omega)]
  omega

/-! ### The shift of a number of units -/

theorem shiftOfUnits_of_lt {units : Nat} (h : units < 2 ^ F.precision) (hp : 0 < F.precision) :
    F.shiftOfUnits units = 0 := by
  unfold shiftOfUnits
  by_cases hzero : units = 0
  · subst hzero
    simp
    omega
  · have := (Nat.log2_lt hzero).mpr h
    omega

theorem shiftOfUnits_eq {units t : Nat} (hp : 0 < F.precision)
    (hlow : 2 ^ (F.precision - 1) * 2 ^ t ≤ units) (hhigh : units < 2 ^ F.precision * 2 ^ t) :
    F.shiftOfUnits units = t := by
  have hpos : 0 < 2 ^ (F.precision - 1) * 2 ^ t :=
    Nat.mul_pos (Nat.two_pow_pos _) (Nat.two_pow_pos _)
  have hne : units ≠ 0 := by omega
  rw [← Nat.pow_add] at hlow hhigh
  have hlt := (Nat.log2_lt hne).mpr hhigh
  have hle := (Nat.le_log2 hne).mpr hlow
  unfold shiftOfUnits
  omega

/-! ### Rounding a ratio -/

/-- A ratio rounds to the pattern that its shift and its rounded significand make. -/
theorem ofRatio_eq {num den t m : Nat}
    (hshift : F.shiftOfUnits (num * 2 ^ F.unitsLog / den) = t)
    (hrounded : roundedQuotient (num * 2 ^ F.unitsLog) (den * 2 ^ t) = m)
    (hfinite : t * 2 ^ (F.precision - 1) + m ≤ F.infinity) :
    F.ofRatio num den = t * 2 ^ (F.precision - 1) + m := by
  unfold ofRatio
  simp only [hshift, hrounded]
  exact Nat.min_eq_left hfinite

variable {num den pattern : Nat}

/-- A ratio no further than half a step from a magnitude, and not below the power of two at
    which the steps of that magnitude begin. -/
theorem ofRatio_of_normal (hp : 0 < F.precision) (hden : 0 < den) (hfinite : pattern ≤ F.infinity)
    (hlow : 2 * F.significand pattern * (den * 2 ^ F.shift pattern) ≤
      2 * (num * 2 ^ F.unitsLog) + den * 2 ^ F.shift pattern)
    (hhigh : 2 * (num * 2 ^ F.unitsLog) ≤
      (2 * F.significand pattern + 1) * (den * 2 ^ F.shift pattern))
    (htie : F.significand pattern % 2 = 1 →
      2 * F.significand pattern * (den * 2 ^ F.shift pattern) <
          2 * (num * 2 ^ F.unitsLog) + den * 2 ^ F.shift pattern ∧
        2 * (num * 2 ^ F.unitsLog) <
          (2 * F.significand pattern + 1) * (den * 2 ^ F.shift pattern))
    (hnormal : F.shift pattern = 0 ∨
      2 ^ (F.precision - 1) * (den * 2 ^ F.shift pattern) ≤ num * 2 ^ F.unitsLog) :
    F.ofRatio num den = pattern := by
  have hpattern := F.shift_mul_add_significand pattern
  have hsmall := significand_lt hp pattern
  have hstep : 0 < den * 2 ^ F.shift pattern := Nat.mul_pos hden (Nat.two_pow_pos _)
  have hrounded := roundedQuotient_eq hstep hlow hhigh htie
  -- the ratio stays below the next power of two
  have hbelow : num * 2 ^ F.unitsLog < 2 ^ F.precision * 2 ^ F.shift pattern * den := by
    have hmul := Nat.mul_le_mul_right (den * 2 ^ F.shift pattern) hsmall
    grind
  have hquotient := (Nat.div_lt_iff_lt_mul hden).mpr hbelow
  have hshift : F.shiftOfUnits (num * 2 ^ F.unitsLog / den) = F.shift pattern := by
    rcases hnormal with hzero | hnormal
    · rw [hzero, Nat.pow_zero, Nat.mul_one] at hquotient
      rw [hzero]
      exact shiftOfUnits_of_lt hquotient hp
    · refine shiftOfUnits_eq hp ?_ hquotient
      rw [Nat.le_div_iff_mul_le hden]
      grind
  have hratio := ofRatio_eq hshift hrounded (by rw [hpattern]; exact hfinite)
  rw [hratio, hpattern]

/-- A ratio below a power of two: it is rounded with half the step, and up to the power if
    it is no more than a quarter of a step below. -/
theorem ofRatio_below_power (hp : 0 < F.precision) (hden : 0 < den)
    (hfinite : pattern ≤ F.infinity) (hshift : 0 < F.shift pattern)
    (hpower : F.significand pattern = 2 ^ (F.precision - 1))
    (hlow : 4 * F.significand pattern * (den * 2 ^ F.shift pattern) ≤
      4 * (num * 2 ^ F.unitsLog) + den * 2 ^ F.shift pattern)
    (hhigh : num * 2 ^ F.unitsLog < 2 ^ (F.precision - 1) * (den * 2 ^ F.shift pattern)) :
    F.ofRatio num den = pattern := by
  have hpattern := F.shift_mul_add_significand pattern
  obtain ⟨t, ht⟩ : ∃ t, F.shift pattern = t + 1 := ⟨F.shift pattern - 1, by omega⟩
  have hpow := two_pow_precision hp
  have hpos : 0 < 2 ^ (F.precision - 1) := Nat.two_pow_pos _
  have hstep : 0 < den * 2 ^ t := Nat.mul_pos hden (Nat.two_pow_pos _)
  have hdouble : den * 2 ^ F.shift pattern = 2 * (den * 2 ^ t) := by
    rw [ht, Nat.pow_succ]
    grind
  rw [hdouble, hpower] at hlow
  rw [hdouble] at hhigh
  -- counted in half the step the power is `2 ^ precision`, and the ratio rounds to it
  have hrounded : roundedQuotient (num * 2 ^ F.unitsLog) (den * 2 ^ t) = 2 ^ F.precision := by
    refine roundedQuotient_eq hstep ?_ ?_ ?_
    · rw [hpow]
      grind
    · rw [hpow]
      grind
    · omega
  have hbound : 2 ^ (F.precision - 1) * (den * 2 ^ t) ≤ num * 2 ^ F.unitsLog := by
    have := Nat.mul_le_mul_right (den * 2 ^ t) hpos
    grind
  -- the ratio is below the power, so half the step is the one that it is rounded with
  have hshift' : F.shiftOfUnits (num * 2 ^ F.unitsLog / den) = t := by
    refine shiftOfUnits_eq hp ?_ ?_
    · rw [Nat.le_div_iff_mul_le hden]
      grind
    · rw [Nat.div_lt_iff_lt_mul hden, hpow]
      grind
  -- rounding up to the power carries into the next shift
  have hsame : t * 2 ^ (F.precision - 1) + 2 ^ F.precision = pattern := by
    rw [ht, hpower] at hpattern
    rw [hpow]
    grind
  have hratio := ofRatio_eq hshift' hrounded (by rw [hsame]; exact hfinite)
  rw [hratio, hsame]

end Format

end EntityStore.Binary

/-! ### Numbers by their parts -/

namespace EntityStore.Binary64

/-- A number is made of its sign and its magnitude. -/
theorem ofParts_parts (x : Binary64) : ofParts x.negative x.magnitude = x := by
  obtain ⟨bits⟩ := x
  have hbits := bits.toNat_lt
  unfold ofParts negative magnitude signBit
  congr 1
  rw [← UInt64.toNat_inj, UInt64.toNat_ofNat']
  simp only [decide_eq_true_eq]
  split <;> omega

theorem infinity_of_isInfinite {x : Binary64} (h : x.isInfinite = true) :
    infinity x.negative = x := by
  have hmagnitude : x.magnitude = Binary.Format.double.infinity := by
    simpa [isInfinite] using h
  unfold infinity
  rw [← hmagnitude, ofParts_parts]

theorem isFinite_of_not {x : Binary64} (hnan : x.isNaN = false) (hinf : x.isInfinite = false) :
    x.isFinite = true := by
  simp only [isNaN, isInfinite, isFinite, decide_eq_false_iff_not, beq_eq_false_iff_ne,
    decide_eq_true_eq] at hnan hinf ⊢
  omega

end EntityStore.Binary64
