/-
  EntityStore/Proofs/Binary/Order.lean
  ====================================
  **The order of numbers is the order of their values**, and what rounding makes of the
  order of integers.

  Patterns increase strictly with the units that they stand for
  (`Format.units_lt_units`).  An integer rounds to the nearest one of at most fifty-three
  significant bits (`Binary64.nearestInt`): rounding never exchanges two integers and
  changes none up to `2 ^ 53`, but integers that lie close together above that become one.
-/
import EntityStore.Proofs.Binary.Rounding

namespace EntityStore.Binary

-- Powers of naturals are the core ones, whatever else is in scope.
attribute [local instance (high)] instPowNat instNatPowNat

/-! ### Rounded quotients -/

section Quotients

variable {num num' den k : Nat}

theorem roundedQuotient_mul (hden : 0 < den) (k : Nat) : roundedQuotient (k * den) den = k := by
  unfold roundedQuotient
  rw [Nat.mul_mod_left, Nat.mul_div_cancel k hden, Nat.mul_zero, if_pos (.inl hden)]

theorem roundedQuotient_scale {c : Nat} (hc : 0 < c) :
    roundedQuotient (num * c) (den * c) = roundedQuotient num den := by
  unfold roundedQuotient
  have htwice : 2 * (num % den * c) = 2 * (num % den) * c := (Nat.mul_assoc _ _ _).symm
  have hlt : 2 * (num % den) * c < den * c ↔ 2 * (num % den) < den := Nat.mul_lt_mul_right hc
  have heq : 2 * (num % den) * c = den * c ↔ 2 * (num % den) = den :=
    Nat.mul_left_inj (Nat.ne_of_gt hc)
  rw [Nat.mul_div_mul_right _ _ hc, Nat.mul_mod_mul_right, htwice]
  simp only [hlt, heq]

theorem roundedQuotient_mono (h : num ≤ num') :
    roundedQuotient num den ≤ roundedQuotient num' den := by
  have hdivided := Nat.div_add_mod num den
  have hdivided' := Nat.div_add_mod num' den
  have hquotient : num / den ≤ num' / den := Nat.div_le_div_right h
  unfold roundedQuotient
  rcases Nat.eq_or_lt_of_le hquotient with hsame | hless
  · -- the same whole part, and no smaller a remainder
    rw [hsame] at hdivided ⊢
    have hremainder : num % den ≤ num' % den := by omega
    grind
  · grind

theorem le_roundedQuotient (hden : 0 < den) (h : k * den ≤ num) : k ≤ roundedQuotient num den :=
  Nat.le_trans (Nat.le_of_eq (roundedQuotient_mul hden k).symm) (roundedQuotient_mono h)

theorem roundedQuotient_le (hden : 0 < den) (h : num ≤ k * den) : roundedQuotient num den ≤ k :=
  Nat.le_trans (roundedQuotient_mono h) (Nat.le_of_eq (roundedQuotient_mul hden k))

/-- A rounded quotient is off by no more than a half. -/
theorem roundedQuotient_near (hden : 0 < den) (num : Nat) :
    2 * (roundedQuotient num den * den) ≤ 2 * num + den ∧
      2 * num ≤ 2 * (roundedQuotient num den * den) + den := by
  have hdivided := Nat.div_add_mod num den
  have hremainder := Nat.mod_lt num hden
  unfold roundedQuotient
  generalize num / den = q at hdivided ⊢
  generalize num % den = r at hdivided hremainder ⊢
  subst hdivided
  dsimp only
  split <;> grind

end Quotients

/-! ### Patterns -/

namespace Format

variable {F : Format} {a b t m : Nat}

/-- The units of the pattern that a shift and a significand make.  The significand may be
    the next power of two, where the pattern has the next shift. -/
theorem units_shift_add (hp : 0 < F.precision) (hlow : t = 0 ∨ 2 ^ (F.precision - 1) ≤ m)
    (hhigh : m ≤ 2 ^ F.precision) :
    F.units (t * 2 ^ (F.precision - 1) + m) = m * 2 ^ t := by
  have hpow := two_pow_precision hp
  have hpos : 0 < 2 ^ (F.precision - 1) := Nat.two_pow_pos _
  unfold units significand shift
  generalize 2 ^ (F.precision - 1) = P at hlow hpow hpos ⊢
  rw [hpow] at hhigh
  rcases Nat.lt_or_ge m P with hsmall | hlarge
  · obtain rfl : t = 0 := hlow.resolve_right (Nat.not_le.mpr hsmall)
    have hdiv : (0 * P + m) / P = 0 := by
      rw [Nat.zero_mul, Nat.zero_add]
      exact Nat.div_eq_of_lt hsmall
    rw [hdiv, if_pos rfl, Nat.zero_mul, Nat.zero_add]
  · rcases Nat.eq_or_lt_of_le hhigh with rfl | hbelow
    · have hpattern : t * P + P * 2 = P * (t + 2) := by grind
      rw [hpattern, Nat.mul_div_cancel_left _ hpos, Nat.mul_mod_right, if_neg (by omega),
        Nat.add_zero, show t + 2 - 1 = t + 1 from rfl, Nat.pow_succ]
      grind
    · obtain ⟨r, rfl⟩ := Nat.exists_eq_add_of_le hlarge
      have hr : r < P := by omega
      have hpattern : t * P + (P + r) = P * (t + 1) + r := by grind
      rw [hpattern, Nat.mul_add_div hpos, Nat.mul_add_mod, Nat.div_eq_of_lt hr,
        Nat.mod_eq_of_lt hr, Nat.add_zero, if_neg (by omega), Nat.add_sub_cancel]

/-- **Patterns are ordered like the values that they stand for.** -/
theorem units_lt_units (hp : 0 < F.precision) (h : a < b) : F.units a < F.units b := by
  have hpow := two_pow_precision hp
  have hparts (pattern : Nat) := F.shift_mul_add_significand pattern
  have hshift : F.shift a ≤ F.shift b :=
    Nat.sub_le_sub_right (Nat.div_le_div_right (Nat.le_of_lt h)) 1
  unfold units
  rcases Nat.eq_or_lt_of_le hshift with hsame | hless
  · have hless : F.significand a < F.significand b := by
      have ha := hparts a
      have hb := hparts b
      rw [hsame] at ha
      omega
    rw [hsame]
    exact Nat.mul_lt_mul_of_pos_right hless (Nat.two_pow_pos _)
  · -- a significand of `b` begins where those of `a` end
    have hbelow : F.significand a < 2 ^ (F.precision - 1) * 2 := hpow ▸ significand_lt hp a
    have habove : 2 ^ (F.precision - 1) ≤ F.significand b := le_significand_of_shift (by omega)
    calc F.significand a * 2 ^ F.shift a
        < 2 ^ (F.precision - 1) * 2 * 2 ^ F.shift a :=
          Nat.mul_lt_mul_of_pos_right hbelow (Nat.two_pow_pos _)
      _ = 2 ^ (F.precision - 1) * 2 ^ (F.shift a + 1) := by
          rw [Nat.mul_assoc, Nat.pow_succ, Nat.mul_comm 2]
      _ ≤ F.significand b * 2 ^ F.shift b :=
          Nat.mul_le_mul habove (Nat.pow_le_pow_right (by decide) hless)

theorem units_lt_units_iff (hp : 0 < F.precision) : F.units a < F.units b ↔ a < b := by
  constructor
  · intro h
    apply Nat.lt_of_not_le
    intro hle
    rcases Nat.eq_or_lt_of_le hle with rfl | hlt
    · exact absurd h (Nat.lt_irrefl _)
    · exact absurd (units_lt_units hp hlt) (Nat.lt_asymm h)
  · exact units_lt_units hp

/-! ### Whole numbers of units -/

theorem shiftOfUnits_bounds (hp : 0 < F.precision) (n : Nat) :
    n < 2 ^ F.precision * 2 ^ F.shiftOfUnits n ∧
      (F.shiftOfUnits n = 0 ∨ 2 ^ (F.precision - 1) * 2 ^ F.shiftOfUnits n ≤ n) := by
  rcases Nat.eq_zero_or_pos n with rfl | hn
  · refine ⟨Nat.mul_pos (Nat.two_pow_pos _) (Nat.two_pow_pos _), .inl ?_⟩
    exact shiftOfUnits_of_lt (Nat.two_pow_pos _) hp
  · have hlow := (Nat.le_log2 (Nat.ne_of_gt hn)).mp (Nat.le_refl n.log2)
    have hhigh := (Nat.log2_lt (Nat.ne_of_gt hn)).mp (Nat.lt_succ_self n.log2)
    rw [← Nat.pow_add, ← Nat.pow_add]
    unfold shiftOfUnits
    constructor
    · exact Nat.lt_of_lt_of_le hhigh (Nat.pow_le_pow_right (by decide) (by omega))
    · rcases Nat.eq_zero_or_pos (n.log2 + 1 - F.precision) with hzero | hpos
      · exact .inl hzero
      · exact .inr (Nat.le_trans (Nat.pow_le_pow_right (by decide) (by omega)) hlow)

/-- The number nearest to a natural number among those with as many significant bits as
    the format has; of two equally near ones that with the even significand. -/
def nearest (F : Format) (n : Nat) : Nat :=
  roundedQuotient n (2 ^ F.shiftOfUnits n) * 2 ^ F.shiftOfUnits n

variable {n n' : Nat}

/-- The significand of the nearest number, or the next power of two. -/
theorem roundedQuotient_bounds (hp : 0 < F.precision) (n : Nat) :
    roundedQuotient n (2 ^ F.shiftOfUnits n) ≤ 2 ^ F.precision ∧
      (F.shiftOfUnits n = 0 ∨
        2 ^ (F.precision - 1) ≤ roundedQuotient n (2 ^ F.shiftOfUnits n)) := by
  obtain ⟨hhigh, hlow⟩ := shiftOfUnits_bounds hp n
  exact ⟨roundedQuotient_le (Nat.two_pow_pos _) (Nat.le_of_lt hhigh),
    hlow.imp_right (le_roundedQuotient (Nat.two_pow_pos _))⟩

theorem nearest_of_lt (hp : 0 < F.precision) (h : n < 2 ^ F.precision) : F.nearest n = n := by
  rw [nearest, shiftOfUnits_of_lt h hp, Nat.pow_zero, Nat.mul_one]
  have hwhole := roundedQuotient_mul Nat.one_pos n
  rwa [Nat.mul_one] at hwhole

/-- Numbers of no more bits than the format has are their own nearest numbers. -/
theorem nearest_of_le (hp : 0 < F.precision) (h : n ≤ 2 ^ F.precision) : F.nearest n = n := by
  rcases Nat.eq_or_lt_of_le h with rfl | hlt
  · have hpow : 2 ^ F.precision = 2 ^ (F.precision - 1) * 2 ^ 1 := by
      rw [← Nat.pow_add, Nat.sub_add_cancel hp]
    have hpos : 0 < 2 ^ F.precision := Nat.two_pow_pos _
    have hshift : F.shiftOfUnits (2 ^ F.precision) = 1 :=
      shiftOfUnits_eq hp (Nat.le_of_eq hpow.symm) (by omega)
    rw [nearest, hshift]
    conv => lhs; rw [hpow, roundedQuotient_mul (Nat.two_pow_pos 1)]
    exact hpow.symm
  · exact nearest_of_lt hp hlt

/-- Rounding never exchanges two numbers. -/
theorem nearest_mono (hp : 0 < F.precision) (h : n ≤ n') : F.nearest n ≤ F.nearest n' := by
  obtain ⟨-, hlow⟩ := shiftOfUnits_bounds hp n
  obtain ⟨hhigh', -⟩ := shiftOfUnits_bounds hp n'
  obtain ⟨hbelow, -⟩ := roundedQuotient_bounds hp n
  obtain ⟨-, habove⟩ := roundedQuotient_bounds hp n'
  have hpow (t : Nat) : 2 ^ F.precision * 2 ^ t = 2 ^ (F.precision - 1) * 2 ^ (t + 1) := by
    rw [two_pow_precision hp, Nat.mul_assoc, Nat.pow_succ, Nat.mul_comm 2]
  -- the larger number is rounded with no smaller step
  have hle : F.shiftOfUnits n ≤ F.shiftOfUnits n' := by
    rcases hlow with hzero | hlow
    · omega
    · rw [hpow] at hhigh'
      have hlt := Nat.lt_of_mul_lt_mul_left (Nat.lt_of_le_of_lt (Nat.le_trans hlow h) hhigh')
      have := (Nat.pow_lt_pow_iff_right (by decide : 1 < 2)).mp hlt
      omega
  unfold nearest
  rcases Nat.eq_or_lt_of_le hle with hsame | hless
  · -- with one step, as the quotients stand
    rw [hsame]
    exact Nat.mul_le_mul_right _ (roundedQuotient_mono h)
  · -- with different steps, a power of two stands between both
    calc roundedQuotient n (2 ^ F.shiftOfUnits n) * 2 ^ F.shiftOfUnits n
        ≤ 2 ^ F.precision * 2 ^ F.shiftOfUnits n := Nat.mul_le_mul_right _ hbelow
      _ = 2 ^ (F.precision - 1) * 2 ^ (F.shiftOfUnits n + 1) := hpow _
      _ ≤ roundedQuotient n' (2 ^ F.shiftOfUnits n') * 2 ^ F.shiftOfUnits n' :=
          Nat.mul_le_mul (habove.resolve_left (by omega)) (Nat.pow_le_pow_right (by decide) hless)

/-- Rounding moves a number by no more than one part in as many as there are significands. -/
theorem nearest_near (hp : 0 < F.precision) (n : Nat) :
    2 ^ F.precision * (F.nearest n - n) ≤ n ∧ 2 ^ F.precision * (n - F.nearest n) ≤ n := by
  obtain ⟨-, hlow⟩ := shiftOfUnits_bounds hp n
  obtain ⟨hover, hunder⟩ := roundedQuotient_near (Nat.two_pow_pos (F.shiftOfUnits n)) n
  have hpow := two_pow_precision hp
  rcases hlow with hzero | hlow
  · obtain ⟨hhigh, -⟩ := shiftOfUnits_bounds hp n
    rw [hzero, Nat.pow_zero, Nat.mul_one] at hhigh
    simp [nearest_of_lt hp hhigh]
  · have hstep {d : Nat} (hd : 2 * d ≤ 2 ^ F.shiftOfUnits n) : 2 ^ F.precision * d ≤ n := by
      rw [hpow, Nat.mul_assoc]
      exact Nat.le_trans (Nat.mul_le_mul_left _ hd) hlow
    change 2 * F.nearest n ≤ _ at hover
    change _ ≤ 2 * F.nearest n + _ at hunder
    exact ⟨hstep (by omega), hstep (by omega)⟩

/-- The unit in which a number is counted does not matter. -/
theorem nearest_mul_two_pow (hp : 0 < F.precision) (n e : Nat) :
    F.nearest (n * 2 ^ e) = F.nearest n * 2 ^ e := by
  obtain ⟨hhigh, hlow⟩ := shiftOfUnits_bounds hp n
  by_cases hlarge : 2 ^ (F.precision - 1) ≤ n
  · have hlow' : 2 ^ (F.precision - 1) * 2 ^ F.shiftOfUnits n ≤ n := by
      rcases hlow with hzero | hlow
      · rwa [hzero, Nat.pow_zero, Nat.mul_one]
      · exact hlow
    have hshift : F.shiftOfUnits (n * 2 ^ e) = F.shiftOfUnits n + e := by
      refine shiftOfUnits_eq hp ?_ ?_
      · rw [Nat.pow_add, ← Nat.mul_assoc]
        exact Nat.mul_le_mul_right _ hlow'
      · rw [Nat.pow_add, ← Nat.mul_assoc]
        exact Nat.mul_lt_mul_of_pos_right hhigh (Nat.two_pow_pos e)
    rw [nearest, hshift, Nat.pow_add, roundedQuotient_scale (Nat.two_pow_pos e), ← Nat.mul_assoc,
      nearest]
  · -- a short number is its own nearest number in every unit
    have hsmall : n < 2 ^ F.precision :=
      Nat.lt_of_lt_of_le (Nat.not_le.mp hlarge) (Nat.pow_le_pow_right (by decide) (Nat.sub_le _ _))
    have hshift : F.shiftOfUnits (n * 2 ^ e) ≤ e := by
      rcases (shiftOfUnits_bounds hp (n * 2 ^ e)).2 with hzero | hlow
      · omega
      · have hlt := Nat.lt_of_mul_lt_mul_left (Nat.lt_of_le_of_lt hlow
          (Nat.mul_lt_mul_of_pos_right (Nat.not_le.mp hlarge) (Nat.two_pow_pos e)))
        exact Nat.le_of_lt ((Nat.pow_lt_pow_iff_right (by decide : 1 < 2)).mp hlt)
    have hsplit : n * 2 ^ e = n * 2 ^ (e - F.shiftOfUnits (n * 2 ^ e)) *
        2 ^ F.shiftOfUnits (n * 2 ^ e) := by
      rw [Nat.mul_assoc, ← Nat.pow_add, Nat.sub_add_cancel hshift]
    rw [nearest_of_lt hp hsmall, nearest]
    generalize F.shiftOfUnits (n * 2 ^ e) = t at hsplit ⊢
    rw [hsplit, roundedQuotient_mul (Nat.two_pow_pos t)]

/-- The pattern nearest to a natural number. -/
def ofNat (F : Format) (n : Nat) : Nat := F.ofRatio n 1

/-- It stands for the nearest number, unless the format has no room for that. -/
theorem units_ofNat (hp : 0 < F.precision)
    (hfits : F.shiftOfUnits (n * 2 ^ F.unitsLog) * 2 ^ (F.precision - 1) + 2 ^ F.precision ≤
      F.infinity) :
    F.units (F.ofNat n) = F.nearest n * 2 ^ F.unitsLog := by
  obtain ⟨hhigh, hlow⟩ := roundedQuotient_bounds hp (n * 2 ^ F.unitsLog)
  have hpattern : F.ofNat n = F.shiftOfUnits (n * 2 ^ F.unitsLog) * 2 ^ (F.precision - 1) +
      roundedQuotient (n * 2 ^ F.unitsLog) (2 ^ F.shiftOfUnits (n * 2 ^ F.unitsLog)) := by
    refine ofRatio_eq ?_ ?_ (by omega)
    · rw [Nat.div_one]
    · rw [Nat.one_mul]
  rw [hpattern, units_shift_add hp hlow hhigh, ← nearest_mul_two_pow hp, nearest]

theorem ofNat_zero (hp : 0 < F.precision) : F.ofNat 0 = 0 := by
  have hshift : F.shiftOfUnits 0 = 0 := shiftOfUnits_of_lt (Nat.two_pow_pos _) hp
  have hquotient : roundedQuotient 0 1 = 0 := roundedQuotient_mul Nat.one_pos 0
  simp only [ofNat, ofRatio, Nat.zero_mul, Nat.zero_div, hshift, Nat.pow_zero, Nat.one_mul,
    hquotient, Nat.zero_add, Nat.zero_min]

end Format

end EntityStore.Binary

/-! ### Numbers -/

namespace EntityStore.Binary64

open Binary

-- Powers of naturals are the core ones, whatever else is in scope.
attribute [local instance (high)] instPowNat instNatPowNat

section Parts

variable {sign : Bool} {pattern : Nat}

theorem toNat_ofParts (h : pattern < signBit) :
    (ofParts sign pattern).bits.toNat = (if sign then signBit else 0) + pattern := by
  unfold ofParts signBit at *
  rw [UInt64.toNat_ofNat']
  split <;> omega

theorem negative_ofParts (h : pattern < signBit) : (ofParts sign pattern).negative = sign := by
  rw [negative, toNat_ofParts h]
  cases sign
  · simpa using h
  · simp

theorem magnitude_ofParts (h : pattern < signBit) : (ofParts sign pattern).magnitude = pattern := by
  rw [magnitude, toNat_ofParts h]
  cases sign
  · simpa using Nat.mod_eq_of_lt h
  · simpa using Nat.mod_eq_of_lt h

/-- A pattern up to infinity's makes a number. -/
theorem isNaN_ofParts (h : pattern ≤ Format.double.infinity) :
    (ofParts sign pattern).isNaN = false := by
  have hbound : Format.double.infinity < signBit := by decide
  rw [isNaN, magnitude_ofParts (Nat.lt_of_le_of_lt h hbound)]
  simpa using h

/-- What is rounded from a ratio is a number. -/
theorem isNaN_ofRatio (num den : Nat) : (ofRatio sign num den).isNaN = false :=
  isNaN_ofParts (Nat.min_le_right _ _)

theorem isNaN_ofInt (n : Int) : (ofInt n).isNaN = false := isNaN_ofRatio _ _

theorem isNaN_mul (x y : Binary64) : (x.mul y).isNaN = false := isNaN_ofRatio _ _

theorem isNaN_div (x y : Binary64) : (x.div y).isNaN = false := isNaN_ofRatio _ _

theorem isNaN_neg (x : Binary64) : x.neg.isNaN = x.isNaN := by
  have hbound : x.magnitude < signBit := Nat.mod_lt _ (by decide)
  rw [isNaN, isNaN, neg, magnitude_ofParts hbound]

end Parts

/-! ### Integers -/

/-- A function of magnitudes on integers, which keep their sign. -/
def withSign (f : Nat → Nat) (n : Int) : Int := n.sign * f n.natAbs

section Signs

variable {f g : Nat → Nat} {m n : Int}

theorem withSign_natCast (hf : f 0 = 0) (k : Nat) : withSign f k = f k := by
  rcases Nat.eq_zero_or_pos k with rfl | hpos
  · rw [withSign, Int.natCast_zero, Int.sign_zero, Int.zero_mul, hf, Int.natCast_zero]
  · rw [withSign, Int.sign_natCast_of_ne_zero (Nat.ne_of_gt hpos), Int.one_mul, Int.natAbs_natCast]

theorem withSign_neg (f : Nat → Nat) (n : Int) : withSign f (-n) = -withSign f n := by
  rw [withSign, withSign, Int.sign_neg, Int.natAbs_neg, Int.neg_mul]

/-- Functions that order magnitudes alike order integers alike. -/
theorem withSign_lt_iff {bound : Nat} (hf : f 0 = 0) (hg : g 0 = 0)
    (h : ∀ {j k}, j < bound → k < bound → (f j < f k ↔ g j < g k))
    (hm : m.natAbs < bound) (hn : n.natAbs < bound) :
    withSign f m < withSign f n ↔ withSign g m < withSign g n := by
  have hzero : 0 < bound := Nat.lt_of_le_of_lt (Nat.zero_le _) hm
  have hpos {k : Nat} (hk : k < bound) : 0 < f k ↔ 0 < g k := by
    have hfirst := h hzero hk
    rwa [hf, hg] at hfirst
  obtain ⟨a, rfl | rfl⟩ := Int.eq_nat_or_neg m <;> obtain ⟨b, rfl | rfl⟩ := Int.eq_nat_or_neg n <;>
    simp only [Int.natAbs_neg, Int.natAbs_natCast] at hm hn <;>
    simp only [withSign_neg, withSign_natCast hf, withSign_natCast hg]
  · rw [Int.ofNat_lt, Int.ofNat_lt]
    exact h hm hn
  · omega
  · have ha := hpos hm
    have hb := hpos hn
    omega
  · rw [Int.neg_lt_neg_iff, Int.neg_lt_neg_iff, Int.ofNat_lt, Int.ofNat_lt]
    exact h hn hm

end Signs

/-- The bound of the integers of fifty-three significant bits: `2 ^ 53`. -/
def exactBound : Nat := 2 ^ Format.double.precision

/-- The integer nearest to an integer among those of fifty-three significant bits: what is
    left of it in a floating-point number. -/
def nearestInt (n : Int) : Int := withSign Format.double.nearest n

variable {m n : Int}

private theorem precision_pos : 0 < Format.double.precision := by decide

private theorem nearest_zero : Format.double.nearest 0 = 0 :=
  Format.nearest_of_le precision_pos (Nat.zero_le _)

theorem nearestInt_natCast (k : Nat) : nearestInt k = Format.double.nearest k :=
  withSign_natCast nearest_zero k

theorem nearestInt_neg (n : Int) : nearestInt (-n) = -nearestInt n := withSign_neg _ n

/-- **Integers up to `2 ^ 53` are kept as they are.** -/
theorem nearestInt_of_le (h : n.natAbs ≤ exactBound) : nearestInt n = n := by
  rw [nearestInt, withSign, Format.nearest_of_le precision_pos h, Int.sign_mul_natAbs]

/-- **Rounding never exchanges two integers.** -/
theorem nearestInt_mono (h : m ≤ n) : nearestInt m ≤ nearestInt n := by
  have hnonneg (k : Nat) : 0 ≤ nearestInt k := nearestInt_natCast k ▸ Int.natCast_nonneg _
  obtain ⟨a, rfl | rfl⟩ := Int.eq_nat_or_neg m <;> obtain ⟨b, rfl | rfl⟩ := Int.eq_nat_or_neg n
  · rw [nearestInt_natCast, nearestInt_natCast]
    exact Int.ofNat_le.mpr (Format.nearest_mono precision_pos (Int.ofNat_le.mp h))
  · obtain ⟨rfl, rfl⟩ : a = 0 ∧ b = 0 := by omega
    exact Int.le_refl _
  · rw [nearestInt_neg]
    exact Int.le_trans (Int.neg_nonpos_of_nonneg (hnonneg a)) (hnonneg b)
  · rw [nearestInt_neg, nearestInt_neg, nearestInt_natCast, nearestInt_natCast]
    have hle : b ≤ a := by omega
    exact Int.neg_le_neg (Int.ofNat_le.mpr (Format.nearest_mono precision_pos hle))

/-- **Rounding moves an integer by no more than one part in `2 ^ 53`.** -/
theorem nearestInt_near (n : Int) : exactBound * (nearestInt n - n).natAbs ≤ n.natAbs := by
  have hnat (k : Nat) : exactBound * (nearestInt k - k).natAbs ≤ k := by
    obtain ⟨hover, hunder⟩ := Format.nearest_near precision_pos (F := .double) k
    have hmoved : ((Format.double.nearest k : Int) - k).natAbs = Format.double.nearest k - k ∨
        ((Format.double.nearest k : Int) - k).natAbs = k - Format.double.nearest k := by
      omega
    rw [nearestInt_natCast]
    rcases hmoved with hmoved | hmoved
    · rw [hmoved]
      exact hover
    · rw [hmoved]
      exact hunder
  obtain ⟨k, rfl | rfl⟩ := Int.eq_nat_or_neg n
  · exact hnat k
  · have hflip : nearestInt (-(k : Int)) - -(k : Int) = -(nearestInt k - k) := by
      rw [nearestInt_neg]
      omega
    rw [hflip, Int.natAbs_neg, Int.natAbs_neg]
    exact hnat k

/-- The magnitude of an integer of no more than sixty-four bits. -/
theorem units_ofNat_of_lt {k : Nat} (h : k < UInt64.size) :
    Format.double.units (Format.double.ofNat k) =
      Format.double.nearest k * 2 ^ Format.double.unitsLog := by
  refine Format.units_ofNat precision_pos ?_
  have hshift : Format.double.shiftOfUnits (k * 2 ^ Format.double.unitsLog) ≤ 1085 := by
    have hlog : Format.double.unitsLog = 1074 := rfl
    have hprecision : Format.double.precision = 53 := rfl
    obtain ⟨-, hlow⟩ := Format.shiftOfUnits_bounds precision_pos (k * 2 ^ Format.double.unitsLog)
    generalize Format.double.shiftOfUnits (k * 2 ^ Format.double.unitsLog) = t at hlow ⊢
    rcases hlow with rfl | hlow
    · exact Nat.zero_le _
    · have hpow : 2 ^ (Format.double.precision - 1 + t) < 2 ^ (64 + Format.double.unitsLog) := by
        rw [Nat.pow_add, Nat.pow_add 2 64]
        exact Nat.lt_of_le_of_lt hlow (Nat.mul_lt_mul_of_pos_right h (Nat.two_pow_pos _))
      have hlt := (Nat.pow_lt_pow_iff_right (by decide : 1 < 2)).mp hpow
      omega
  calc Format.double.shiftOfUnits (k * 2 ^ Format.double.unitsLog) *
          2 ^ (Format.double.precision - 1) + 2 ^ Format.double.precision
      ≤ 1085 * 2 ^ (Format.double.precision - 1) + 2 ^ Format.double.precision :=
        Nat.add_le_add_right (Nat.mul_le_mul_right _ hshift) _
    _ ≤ Format.double.infinity := by decide

/-- Two naturals stand like their nearest numbers. -/
theorem ofNat_lt_ofNat_iff {j k : Nat} (hj : j < UInt64.size) (hk : k < UInt64.size) :
    Format.double.ofNat j < Format.double.ofNat k ↔
      Format.double.nearest j < Format.double.nearest k := by
  rw [← Format.units_lt_units_iff precision_pos, units_ofNat_of_lt hj, units_ofNat_of_lt hk]
  exact Nat.mul_lt_mul_right (Nat.two_pow_pos _)

private theorem pattern_zero : Format.double.ofNat 0 = 0 := Format.ofNat_zero precision_pos

/-- The key of an integer's number is the pattern of its magnitude, with its sign. -/
theorem orderKey_ofInt (n : Int) :
    (ofInt n).orderKey = withSign Format.double.ofNat n := by
  have hpattern : Format.double.ofNat n.natAbs < signBit :=
    Nat.lt_of_le_of_lt (Nat.min_le_right _ _) (by decide : Format.double.infinity < signBit)
  rw [orderKey, ofInt, ofRatio, ← Format.ofNat, negative_ofParts hpattern,
    magnitude_ofParts hpattern]
  rcases Int.lt_or_le n 0 with hneg | hnonneg
  · rw [if_pos (decide_eq_true hneg), withSign, Int.sign_eq_neg_one_of_neg hneg, Int.neg_one_mul]
  · obtain ⟨k, rfl⟩ := Int.eq_ofNat_of_zero_le hnonneg
    rw [if_neg (by simp), Int.natAbs_natCast, withSign_natCast pattern_zero]

theorem orderKey_ofInt_lt_iff (hm : m.natAbs < UInt64.size) (hn : n.natAbs < UInt64.size) :
    (ofInt m).orderKey < (ofInt n).orderKey ↔ nearestInt m < nearestInt n := by
  rw [orderKey_ofInt, orderKey_ofInt]
  exact withSign_lt_iff pattern_zero nearest_zero ofNat_lt_ofNat_iff hm hn

/-- **Integers compare by what rounding leaves of them.** -/
theorem compare?_ofInt (hm : m.natAbs < UInt64.size) (hn : n.natAbs < UInt64.size) :
    (ofInt m).compare? (ofInt n) = some (compare (nearestInt m) (nearestInt n)) := by
  have hless := orderKey_ofInt_lt_iff hm hn
  have hmore := orderKey_ofInt_lt_iff hn hm
  rw [compare?, isNaN_ofInt, isNaN_ofInt]
  generalize (ofInt m).orderKey = a at hless hmore ⊢
  generalize (ofInt n).orderKey = b at hless hmore ⊢
  simp only [compare, compareOfLessAndEq]
  grind

end EntityStore.Binary64
