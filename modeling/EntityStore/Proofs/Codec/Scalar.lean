/-
  EntityStore/Proofs/Codec/Scalar.lean
  ====================================
  **Scalars read back.**  What the reader of a scalar makes of the text that was written
  for a value is the value again; a number that is none comes back as one that is none.

  Integers are followed digit by digit: on the way to a value that is in range, no prefix
  of its digits leaves the range (`readDigits_digits`).  A floating-point number is
  written as the digits of a decimal, all of them whole or around a point
  (`layout_decimalChars`), and read as that decimal or as the same one with its zeros
  written out; the decimal rounds to the number by `Decimal.toBinary64_of_contains`.
-/
import Mathlib.Data.List.TakeDrop
import EntityStore.Codec.Scalar
import EntityStore.Proofs.Decimal.Shortest
import EntityStore.Proofs.Text.Utf8

namespace EntityStore

-- Powers of naturals are the core ones, whatever else is in scope.
attribute [local instance (high)] instPowNat instNatPowNat

namespace Text

/-! ### Blanks -/

theorem dropWhile_isBlank {text : List Char} (h : ∀ c ∈ text, isBlank c = false) :
    text.dropWhile isBlank = text := by
  cases text with
  | nil => rfl
  | cons c rest => rw [List.dropWhile_cons, h c List.mem_cons_self, if_neg Bool.false_ne_true]

theorem trim_of_not_blank {text : List Char} (h : ∀ c ∈ text, isBlank c = false) :
    trim text = text := by
  unfold trim
  rw [dropWhile_isBlank h, dropWhile_isBlank, List.reverse_reverse]
  intro c hc
  exact h c (List.mem_reverse.mp hc)

theorem not_blank_of_all {text : List Char} (h : (text.all fun c => !isBlank c) = true) :
    ∀ c ∈ text, isBlank c = false := by
  simpa using h

/-- The visible characters of ASCII are no blanks. -/
theorem isBlank_of_visible {c : Char} (hlow : 0x21 ≤ c.toNat) (hhigh : c.toNat ≤ 0x7e) :
    isBlank c = false := by
  unfold isBlank
  simp only [Bool.or_eq_false_iff, Bool.and_eq_false_iff, decide_eq_false_iff_not,
    beq_eq_false_iff_ne]
  omega

end Text

namespace Scalar

open Decimal

/-! ### Digits -/

theorem isDigit_of_mem_digitChars {n : Nat} {c : Char} (h : c ∈ digitChars n) :
    c.isDigit = true :=
  Nat.isDigit_of_mem_toDigits (by decide) (by decide) h

theorem toNat_of_isDigit {c : Char} (h : c.isDigit = true) : 48 ≤ c.toNat ∧ c.toNat ≤ 57 := by
  unfold Char.isDigit at h
  rw [Bool.and_eq_true, decide_eq_true_eq, decide_eq_true_eq] at h
  exact ⟨UInt32.le_iff_toNat_le.mp h.1, UInt32.le_iff_toNat_le.mp h.2⟩

theorem isBlank_of_isDigit {c : Char} (h : c.isDigit = true) : Text.isBlank c = false := by
  have := toNat_of_isDigit h
  exact Text.isBlank_of_visible (by omega) (by omega)

theorem digit?_of_isDigit {c : Char} (h : c.isDigit = true) : digit? c = some (c.toNat - 48) :=
  if_pos h

theorem ne_of_isDigit {c : Char} (h : c.isDigit = true) : c ≠ '+' ∧ c ≠ '-' := by
  constructor <;> rintro rfl <;> exact absurd h (by decide)

theorem natOfDigits_eq (digits : List Char) :
    natOfDigits digits = Nat.ofDigitChars 10 digits 0 := by
  unfold natOfDigits Nat.ofDigitChars
  congr 1
  funext n c
  rw [Nat.mul_comm]
  rfl

theorem natOfDigits_digitChars (n : Nat) : natOfDigits (digitChars n) = n := by
  rw [natOfDigits_eq]
  exact Nat.ofDigitChars_ten_toDigits

/-- Zeros in front of the digits. -/
theorem natOfDigits_zeros_append (k : Nat) (digits : List Char) :
    natOfDigits (List.replicate k '0' ++ digits) = natOfDigits digits := by
  rw [natOfDigits_eq, natOfDigits_eq, Nat.ofDigitChars_append, Nat.ofDigitChars_replicate_zero,
    Nat.mul_zero]

/-- Zeros behind the digits. -/
theorem natOfDigits_append_zeros (k : Nat) (digits : List Char) :
    natOfDigits (digits ++ List.replicate k '0') = natOfDigits digits * 10 ^ k := by
  rw [natOfDigits_eq, natOfDigits_eq, Nat.ofDigitChars_append, Nat.ofDigitChars_replicate_zero,
    Nat.mul_comm]

/-! ### Integers -/

/-- A magnitude with a sign. -/
def signed (negative : Bool) (n : Nat) : Int := if negative then -(n : Int) else n

theorem le_ofDigitChars (digits : List Char) (n : Nat) : n ≤ Nat.ofDigitChars 10 digits n := by
  rw [Nat.ofDigitChars_eq_ofDigitChars_zero]
  have := Nat.le_mul_of_pos_left n (Nat.pow_pos (n := digits.length) (show 0 < 10 by decide))
  omega

theorem readDigits_digits {low high : Int} {negative : Bool} {digits : List Char}
    (hdigits : ∀ c ∈ digits, c.isDigit = true) (hzero : low ≤ 0 ∧ 0 ≤ high) (n : Nat)
    (hlow : low ≤ signed negative (Nat.ofDigitChars 10 digits n))
    (hhigh : signed negative (Nat.ofDigitChars 10 digits n) ≤ high) :
    readDigits low high negative (signed negative n) digits =
      .ok (signed negative (Nat.ofDigitChars 10 digits n)) := by
  induction digits generalizing n with
  | nil => rfl
  | cons c rest ih =>
    have hc := hdigits c List.mem_cons_self
    have hrest := fun c h => hdigits c (List.mem_cons_of_mem _ h)
    rw [Nat.ofDigitChars_cons, show '0'.toNat = 48 from rfl] at hlow hhigh ⊢
    have hle := le_ofDigitChars rest (10 * n + (c.toNat - 48))
    have hvalue : (if negative then signed negative n * 10 - ((c.toNat - 48 : Nat) : Int)
        else signed negative n * 10 + ((c.toNat - 48 : Nat) : Int)) =
        signed negative (10 * n + (c.toNat - 48)) := by
      unfold signed
      split <;> omega
    -- the digits still to come lead further away from zero
    have hbounds : low ≤ signed negative (10 * n + (c.toNat - 48)) ∧
        signed negative (10 * n + (c.toNat - 48)) ≤ high := by
      unfold signed at hlow hhigh ⊢
      cases negative with
      | true =>
        simp only [if_true] at hlow hhigh ⊢
        omega
      | false =>
        simp only [Bool.false_eq_true, if_false] at hlow hhigh ⊢
        omega
    unfold readDigits
    simp only [digit?_of_isDigit hc, hvalue]
    rw [if_neg (Int.not_lt.mpr hbounds.2), if_neg (Int.not_lt.mpr hbounds.1)]
    exact ih hrest _ hlow hhigh

theorem readInteger_digits {low high : Int} {digits : List Char} (hne : digits ≠ [])
    (hdigits : ∀ c ∈ digits, c.isDigit = true) :
    readInteger low high digits = readDigits low high false 0 digits := by
  cases digits with
  | nil => exact absurd rfl hne
  | cons c rest =>
    have hc := ne_of_isDigit (hdigits c List.mem_cons_self)
    unfold readInteger
    split
    · next h => cases h
    · next h => exact absurd (List.cons.inj h).1 hc.1
    · next h => exact absurd (List.cons.inj h).1 hc.2
    · next h => exact absurd (List.cons.inj h).1 hc.1
    · next h => exact absurd (List.cons.inj h).1 hc.2
    · rfl

theorem readInteger_minus {low high : Int} {digits : List Char} (hne : digits ≠ [])
    (hlow : low < 0) :
    readInteger low high ('-' :: digits) = readDigits low high true 0 digits := by
  cases digits with
  | nil => exact absurd rfl hne
  | cons c rest => exact if_pos hlow

/-- Digits of a range without negative numbers are read just if all of them are digits and
    their value is in the range. -/
theorem readDigits_eq_ok_iff {high n : Nat} {chars : List Char} {value : Int} (hn : n ≤ high) :
    readDigits 0 high false n chars = .ok value ↔
      (∀ c ∈ chars, c.isDigit = true) ∧ Nat.ofDigitChars 10 chars n ≤ high ∧
        value = Nat.ofDigitChars 10 chars n := by
  constructor
  · intro h
    -- induction on the digits left; `n` is the value of those read, still in the range
    induction chars generalizing n with
    | nil =>
      cases h
      exact ⟨nofun, hn, rfl⟩
    | cons c rest ih =>
      unfold readDigits digit? at h
      by_cases hc : c.isDigit = true
      · have hvalue : (n : Int) * 10 + ((c.toNat - 48 : Nat) : Int) =
            ((10 * n + (c.toNat - 48) : Nat) : Int) := by omega
        simp only [if_pos hc, Bool.false_eq_true, if_false, hvalue] at h
        split at h
        · cases h
        · next hfits =>
          rw [if_neg (by omega)] at h
          obtain ⟨hrest, hbound, hread⟩ := ih (by omega) h
          rw [Nat.ofDigitChars_cons, show '0'.toNat = 48 from rfl]
          exact ⟨List.forall_mem_cons.mpr ⟨hc, hrest⟩, hbound, hread⟩
      · simp only [if_neg hc] at h
        cases h
  · rintro ⟨hdigits, hbound, rfl⟩
    exact readDigits_digits hdigits ⟨Int.le_refl 0, by omega⟩ n (Int.natCast_nonneg _)
      (Int.ofNat_le.mpr hbound)

/-- A text is a number without a sign, or with a plus sign, of at most a given value. -/
theorem readInteger_eq_ok_iff {high : Nat} {chars : List Char} {value : Int} :
    readInteger 0 high chars = .ok value ↔
      ∃ digits, digits ≠ [] ∧ (∀ c ∈ digits, c.isDigit = true) ∧
        (chars = digits ∨ chars = '+' :: digits) ∧ Nat.ofDigitChars 10 digits 0 ≤ high ∧
          value = Nat.ofDigitChars 10 digits 0 := by
  -- behind the sign there is nothing but digits
  have hdigits {digits : List Char} : readDigits 0 high false 0 digits = .ok value ↔ _ :=
    readDigits_eq_ok_iff (Nat.zero_le high)
  constructor
  · intro h
    unfold readInteger at h
    split at h
    · cases h
    · cases h
    · cases h
    · next rest hne =>
      obtain ⟨hrest, hbound, hread⟩ := hdigits.mp h
      exact ⟨rest, hne, hrest, .inr rfl, hbound, hread⟩
    · -- no minus sign is taken, as the range begins at zero
      rw [if_neg (Int.lt_irrefl 0)] at h
      cases h
    · next hne _ _ _ _ =>
      obtain ⟨hall, hbound, hread⟩ := hdigits.mp h
      exact ⟨chars, hne, hall, .inl rfl, hbound, hread⟩
  · rintro ⟨digits, hne, hall, rfl | rfl, hbound, hread⟩
    · rw [readInteger_digits hne hall]
      exact hdigits.mpr ⟨hall, hbound, hread⟩
    · obtain ⟨c, rest, rfl⟩ := List.exists_cons_of_ne_nil hne
      exact hdigits.mpr ⟨hall, hbound, hread⟩

/-- **The decimal text of an integer of a range reads back.** -/
theorem readInteger_intChars {low high n : Int} (hlow : low ≤ n) (hhigh : n ≤ high)
    (hzero : low ≤ 0 ∧ 0 ≤ high) : readInteger low high (intChars n) = .ok n := by
  have hdigits : ∀ c ∈ digitChars n.natAbs, c.isDigit = true := fun _ => isDigit_of_mem_digitChars
  have hne : digitChars n.natAbs ≠ [] := Nat.toDigits_ne_nil
  have hvalue : Nat.ofDigitChars 10 (digitChars n.natAbs) 0 = n.natAbs :=
    Nat.ofDigitChars_ten_toDigits
  -- the digits are those of the absolute value, and either sign gives the number back
  have hread (negative : Bool) (h : signed negative n.natAbs = n) :
      readDigits low high negative 0 (digitChars n.natAbs) = .ok n := by
    have := readDigits_digits hdigits hzero 0 (by rwa [hvalue, h]) (by rwa [hvalue, h])
    rw [hvalue, h] at this
    cases negative <;> exact this
  unfold intChars
  split
  · next hneg =>
    rw [readInteger_minus hne (by omega)]
    apply hread
    unfold signed
    rw [if_pos rfl]
    omega
  · next hpos =>
    rw [readInteger_digits hne hdigits]
    apply hread
    unfold signed
    rw [if_neg Bool.false_ne_true]
    omega

theorem isBlank_of_mem_intChars {n : Int} {c : Char} (h : c ∈ intChars n) :
    Text.isBlank c = false := by
  unfold intChars at h
  split at h
  · rcases List.mem_cons.mp h with rfl | h
    · decide
    · exact isBlank_of_isDigit (isDigit_of_mem_digitChars h)
  · exact isBlank_of_isDigit (isDigit_of_mem_digitChars h)

/-! ### Decimals -/

theorem spanDigits_append {digits rest : List Char} (hdigits : ∀ c ∈ digits, c.isDigit = true)
    (hrest : ∀ c ∈ rest.head?, c.isDigit = false) :
    spanDigits (digits ++ rest) = (digits, rest) := by
  unfold spanDigits
  rw [List.span_eq_takeWhile_dropWhile, List.takeWhile_append_of_pos hdigits,
    List.dropWhile_append_of_pos hdigits]
  cases rest with
  | nil => simp
  | cons c rest =>
    have hc := hrest c rfl
    rw [List.takeWhile_cons, List.dropWhile_cons, hc, if_neg Bool.false_ne_true,
      if_neg Bool.false_ne_true, List.append_nil]

/-- A text that begins with a digit is none of the words. -/
theorem toLower_ne_word {c first : Char} {rest letters : List Char} (hc : c.isDigit = true)
    (hfirst : 0x3a ≤ first.toNat) :
    String.ofList ((c :: rest).map Char.toLower) ≠ String.ofList (first :: letters) := by
  intro h
  rw [String.ofList_inj, List.map_cons, List.cons.injEq] at h
  have hbounds := toNat_of_isDigit hc
  have hlower : c.toLower = c := by
    unfold Char.toLower
    rw [dif_neg]
    rintro ⟨hle, -⟩
    have := UInt32.le_iff_toNat_le.mp hle
    simp at this
    omega
  rw [hlower] at h
  have := congrArg Char.toNat h.1
  omega

theorem readMagnitude_digits (negative : Bool) {digits rest : List Char} (hne : digits ≠ [])
    (hdigits : ∀ c ∈ digits, c.isDigit = true) (hrest : ∀ c ∈ rest.head?, c.isDigit = false) :
    readMagnitude negative (digits ++ rest) =
      (readExponent (readFraction rest).2).map fun exponent =>
        toBinary64 negative ⟨natOfDigits (digits ++ (readFraction rest).1),
          exponent - (readFraction rest).1.length⟩ := by
  have hspan := spanDigits_append hdigits hrest
  cases digits with
  | nil => exact absurd rfl hne
  | cons c digits =>
    have hc := hdigits c List.mem_cons_self
    unfold readMagnitude
    simp only [hspan]
    rw [if_neg, if_neg, if_neg]
    · simp
    · exact toLower_ne_word hc (by decide)
    · rintro (h | h)
      · exact toLower_ne_word hc (by decide) h
      · exact toLower_ne_word hc (by decide) h

theorem readMagnitude_whole {negative : Bool} {digits : List Char} (hne : digits ≠ [])
    (hdigits : ∀ c ∈ digits, c.isDigit = true) :
    readMagnitude negative digits = some (toBinary64 negative ⟨natOfDigits digits, 0⟩) := by
  have hnone : ∀ c ∈ ([] : List Char).head?, c.isDigit = false := nofun
  have h := readMagnitude_digits negative hne hdigits hnone
  rw [List.append_nil] at h
  simpa [readFraction, readExponent] using h

theorem readMagnitude_point {negative : Bool} {whole fraction : List Char} (hne : whole ≠ [])
    (hwhole : ∀ c ∈ whole, c.isDigit = true) (hfraction : ∀ c ∈ fraction, c.isDigit = true) :
    readMagnitude negative (whole ++ '.' :: fraction) =
      some (toBinary64 negative ⟨natOfDigits (whole ++ fraction), -(fraction.length : Int)⟩) := by
  have hspan : spanDigits (fraction ++ []) = (fraction, []) := spanDigits_append hfraction nofun
  rw [List.append_nil] at hspan
  have hread : readFraction ('.' :: fraction) = (fraction, []) := hspan
  rw [readMagnitude_digits negative hne hwhole (by simp), hread]
  simp [readExponent]

/-! ### Layouts of a decimal -/

/-- Characters that show the digits of a decimal, all of them whole or around a point. -/
inductive Layout : Decimal → List Char → Prop where
  | whole {digits : List Char} (hne : digits ≠ []) (hdigits : ∀ c ∈ digits, c.isDigit = true) :
    Layout ⟨natOfDigits digits, 0⟩ digits
  | point {whole fraction : List Char} (hne : whole ≠ []) (hwhole : ∀ c ∈ whole, c.isDigit = true)
    (hfraction : ∀ c ∈ fraction, c.isDigit = true) :
    Layout ⟨natOfDigits (whole ++ fraction), -(fraction.length : Int)⟩ (whole ++ '.' :: fraction)

theorem Layout.readMagnitude {d : Decimal} {chars : List Char} (h : Layout d chars)
    (negative : Bool) : readMagnitude negative chars = some (d.toBinary64 negative) := by
  cases h with
  | whole hne hdigits => exact readMagnitude_whole hne hdigits
  | point hne hwhole hfraction => exact readMagnitude_point hne hwhole hfraction

theorem Layout.exists_digit_cons {d : Decimal} {chars : List Char} (h : Layout d chars) :
    ∃ c rest, chars = c :: rest ∧ c.isDigit = true := by
  cases h with
  | whole hne hdigits =>
    obtain ⟨c, rest, rfl⟩ := List.exists_cons_of_ne_nil hne
    exact ⟨c, rest, rfl, hdigits c List.mem_cons_self⟩
  | point hne hwhole _ =>
    obtain ⟨c, rest, rfl⟩ := List.exists_cons_of_ne_nil hne
    exact ⟨c, _, rfl, hwhole c List.mem_cons_self⟩

theorem Layout.isBlank_eq_false {d : Decimal} {chars : List Char} (h : Layout d chars) {c : Char}
    (hc : c ∈ chars) : Text.isBlank c = false := by
  cases h with
  | whole _ hdigits => exact isBlank_of_isDigit (hdigits c hc)
  | point _ hwhole hfraction =>
    rcases List.mem_append.mp hc with hc | hc
    · exact isBlank_of_isDigit (hwhole c hc)
    · rcases List.mem_cons.mp hc with rfl | hc
      · decide
      · exact isBlank_of_isDigit (hfraction c hc)

/-- A decimal with its zeros written out, if it is a whole number. -/
def withZeros (d : Decimal) : Decimal :=
  if 0 ≤ d.exponent then ⟨d.digits * 10 ^ d.exponent.toNat, 0⟩ else d

/-- **What is written for a decimal is a layout of it.** -/
theorem layout_decimalChars (d : Decimal) : Layout (withZeros d) (floatStyle.decimalChars d) := by
  obtain ⟨n, exponent⟩ := d
  have hdigits : ∀ c ∈ digitChars n, c.isDigit = true := fun _ => isDigit_of_mem_digitChars
  have hsize : 0 < (digitChars n).length := Nat.length_toDigits_pos
  have hvalue := natOfDigits_digitChars n
  have hzeros (k : Nat) : ∀ c ∈ List.replicate k '0', c.isDigit = true := by
    intro c hc
    rw [List.eq_of_mem_replicate hc]
    decide
  show Layout _ (positionalChars false (digitChars n) (exponent + (digitChars n).length - 1))
  generalize digitChars n = digits at hdigits hsize hvalue ⊢
  have hne : digits ≠ [] := List.ne_nil_of_length_pos hsize
  unfold positionalChars withZeros
  simp only
  by_cases hlead : exponent + (digits.length : Int) - 1 < 0
  · -- below one: zeros behind the point, then the digits
    rw [if_pos hlead, if_neg (show ¬ 0 ≤ exponent by omega)]
    generalize hk : (-(exponent + (digits.length : Int) - 1) - 1).toNat = k
    have hlength : -((List.replicate k '0' ++ digits).length : Int) = exponent := by
      rw [List.length_append, List.length_replicate]
      omega
    have hpoint : List.replicate 1 '0' ≠ [] := List.cons_ne_nil '0' []
    have hlayout := Layout.point hpoint (hzeros 1)
      (List.forall_mem_append.mpr ⟨hzeros k, hdigits⟩)
    rw [natOfDigits_zeros_append, natOfDigits_zeros_append, hvalue, hlength] at hlayout
    simpa using hlayout
  · rw [if_neg hlead]
    by_cases hwhole : digits.length ≤ (exponent + (digits.length : Int) - 1).toNat + 1
    · -- a whole number: the digits, then its zeros
      rw [if_pos hwhole, if_pos (show 0 ≤ exponent by omega), if_neg Bool.false_ne_true,
        List.append_nil, show (exponent + (digits.length : Int) - 1).toNat + 1 - digits.length =
          exponent.toNat by omega]
      have hlayout := Layout.whole (List.append_ne_nil_of_left_ne_nil hne _)
        (List.forall_mem_append.mpr ⟨hdigits, hzeros exponent.toNat⟩)
      rw [natOfDigits_append_zeros, hvalue] at hlayout
      exact hlayout
    · -- digits on both sides of the point
      rw [if_neg hwhole, if_neg (show ¬ 0 ≤ exponent by omega)]
      generalize hk : (exponent + (digits.length : Int) - 1).toNat + 1 = k at hwhole ⊢
      have htake : digits.take k ≠ [] := by
        apply List.ne_nil_of_length_pos
        rw [List.length_take]
        omega
      have hlength : -((digits.drop k).length : Int) = exponent := by
        rw [List.length_drop]
        omega
      have hlayout := Layout.point htake (fun c hc => hdigits c (List.mem_of_mem_take hc))
        (fun c (hc : c ∈ digits.drop k) => hdigits c (List.mem_of_mem_drop hc))
      rw [List.take_append_drop, hvalue, hlength] at hlayout
      exact hlayout

/-! ### Floating-point numbers -/

theorem contains_withZeros {I : Interval} {d : Decimal} (h : I.Contains d) :
    I.Contains (withZeros d) := by
  unfold withZeros
  split
  · next hexponent =>
    rw [Interval.contains_zeros, show (0 : Int) + (d.exponent.toNat : Nat) = d.exponent by omega]
    exact h
  · exact h

theorem toBinary64_shortest {x : Binary64} (tie : Tie) (hfinite : x.isFinite = true) :
    (withZeros (shortest tie x)).toBinary64 x.negative = x := by
  by_cases hzero : x.isZero = true
  · have hmagnitude : x.magnitude = 0 := by simpa [Binary64.isZero] using hzero
    have hshortest : shortest tie x = ⟨0, 0⟩ := if_pos hzero
    rw [hshortest]
    show Binary64.ofParts x.negative 0 = x
    rw [← hmagnitude, Binary64.ofParts_parts]
  · have hzero := Bool.eq_false_iff.mpr hzero
    exact toBinary64_of_contains hfinite hzero
      (contains_withZeros (contains_shortest tie hfinite hzero))

/-- A sign, or none, and a magnitude that begins with a digit. -/
theorem readFloat_signed {negative : Bool} {c : Char} {rest : List Char} {x : Binary64}
    (hc : c.isDigit = true) (h : readMagnitude negative (c :: rest) = some x) :
    readFloat ((if negative then ['-'] else []) ++ c :: rest) = .ok x := by
  cases negative with
  | true =>
    unfold readFloat
    simp [h]
  | false =>
    have hsign := ne_of_isDigit hc
    unfold readFloat
    simp only [Bool.false_eq_true, if_false, List.nil_append]
    grind

/-- **The text of a floating-point number reads back**; all that is no number is read as
    one and the same. -/
theorem readFloat_floatChars (x : Binary64) :
    readFloat (floatChars x) = .ok (if x.isNaN then .nan else x) := by
  unfold floatChars
  cases hnan : x.isNaN with
  | true => rfl
  | false =>
    cases hinf : x.isInfinite with
    | true =>
      -- the words for both infinities are read by computation
      have hx := Binary64.infinity_of_isInfinite hinf
      cases hneg : x.negative with
      | true =>
        rw [hneg] at hx
        exact congrArg Except.ok hx
      | false =>
        rw [hneg] at hx
        exact congrArg Except.ok hx
    | false =>
      -- a finite number is written as the shortest decimal that is rounded to it
      have hlayout := layout_decimalChars (shortest .up x)
      have hread := hlayout.readMagnitude x.negative
      rw [toBinary64_shortest .up (Binary64.isFinite_of_not hnan hinf)] at hread
      obtain ⟨c, rest, hchars, hc⟩ := hlayout.exists_digit_cons
      rw [hchars] at hread
      rw [if_neg Bool.false_ne_true, if_neg Bool.false_ne_true, if_neg Bool.false_ne_true]
      show readFloat (_ ++ floatStyle.decimalChars (shortest .up x)) = _
      rw [hchars]
      exact readFloat_signed hc hread

theorem isBlank_of_mem_floatChars {x : Binary64} {c : Char} (h : c ∈ floatChars x) :
    Text.isBlank c = false := by
  have hwords : ∀ c ∈ "NaN-inf".toList, Text.isBlank c = false := Text.not_blank_of_all rfl
  unfold floatChars at h
  split at h
  · exact hwords c (by simp at h ⊢; grind)
  · split at h
    · exact hwords c (by split at h <;> simp at h ⊢ <;> grind)
    · rcases List.mem_append.mp h with h | h
      · split at h
        · exact hwords c (by simp at h ⊢; grind)
        · cases h
      · exact (layout_decimalChars _).isBlank_eq_false h

end Scalar

namespace Codec

/-! ### Codecs -/

/-- A text without blanks that is read as a value is decoded as that value. -/
theorem decode_scalar {α ε : Type} {typeName : String} {write : α → List Char}
    {read : List Char → Except ε α} {reason : ε → String} {value found : α} {payload : Bytes}
    (h : (scalar typeName write read reason).encode value = .ok payload)
    (hplain : ∀ c ∈ write value, Text.isBlank c = false) (hread : read (write value) = .ok found) :
    (scalar typeName write read reason).decode payload = .ok found := by
  cases h
  unfold scalar decodeText
  simp only [Utf8.decode_encode, Except.mapError, String.toList_ofList,
    Text.trim_of_not_blank hplain, hread]

section

variable {payload : Bytes}

theorem decode_bool (b : Bool) (h : bool.encode b = .ok payload) :
    bool.decode payload = .ok b := by
  unfold bool at h ⊢
  cases b with
  | true => exact decode_scalar h (Text.not_blank_of_all rfl) (if_pos rfl)
  | false => exact decode_scalar h (Text.not_blank_of_all rfl) rfl

theorem decode_int32 (n : Int32) (h : int32.encode n = .ok payload) :
    int32.decode payload = .ok n := by
  have hread := Scalar.readInteger_intChars n.minValue_le_toInt n.toInt_le (by decide)
  unfold int32 at h ⊢
  refine decode_scalar h (fun _ => Scalar.isBlank_of_mem_intChars) ?_
  rw [hread]
  exact congrArg Except.ok n.ofInt_toInt

theorem decode_int64 (n : Int64) (h : int64.encode n = .ok payload) :
    int64.decode payload = .ok n := by
  have hread := Scalar.readInteger_intChars n.minValue_le_toInt n.toInt_le (by decide)
  unfold int64 at h ⊢
  refine decode_scalar h (fun _ => Scalar.isBlank_of_mem_intChars) ?_
  rw [hread]
  exact congrArg Except.ok n.ofInt_toInt

/-- Words are read from the range of the integers without a sign. -/
theorem readInteger_word {n size : Nat} (h : n < size) :
    Scalar.readInteger 0 (size - 1) (Scalar.intChars n) = .ok (n : Int) :=
  Scalar.readInteger_intChars (by omega) (by omega) (by omega)

theorem decode_word32 (n : UInt32) (h : word32.encode n = .ok payload) :
    word32.decode payload = .ok n := by
  have hread := readInteger_word n.toNat_lt_size
  unfold word32 at h ⊢
  refine decode_scalar h (fun _ => Scalar.isBlank_of_mem_intChars) ?_
  rw [hread]
  exact congrArg Except.ok n.ofNat_toNat

theorem decode_word64 (n : UInt64) (h : word64.encode n = .ok payload) :
    word64.decode payload = .ok n := by
  have hread := readInteger_word n.toNat_lt_size
  unfold word64 at h ⊢
  refine decode_scalar h (fun _ => Scalar.isBlank_of_mem_intChars) ?_
  rw [hread]
  exact congrArg Except.ok n.ofNat_toNat

theorem decode_binary64 (x : Binary64) (h : binary64.encode x = .ok payload) :
    binary64.decode payload = .ok (if x.isNaN then .nan else x) := by
  unfold binary64 at h ⊢
  exact decode_scalar h (fun _ => Scalar.isBlank_of_mem_floatChars) (Scalar.readFloat_floatChars x)

end

end Codec

/-! ### Shapes -/

/-- The types that are stored without a document: text, bytes and scalars. -/
inductive PlainShape : Type → Type 1 where
  | text : PlainShape String
  | bytes : PlainShape Bytes
  | bool : PlainShape Bool
  | int32 : PlainShape Int32
  | int64 : PlainShape Int64
  | word32 : PlainShape UInt32
  | word64 : PlainShape UInt64
  | binary64 : PlainShape Binary64

namespace PlainShape

variable {α : Type}

def codec : PlainShape α → Codec α
  | text => Codec.text
  | bytes => Codec.bytes
  | bool => Codec.bool
  | int32 => Codec.int32
  | int64 => Codec.int64
  | word32 => Codec.word32
  | word64 => Codec.word64
  | binary64 => Codec.binary64

/-- What is found is what was written; for a number that is none, anything that is none. -/
def Same : PlainShape α → α → α → Prop
  | binary64, written, found => found = written ∨ (written.isNaN = true ∧ found.isNaN = true)
  | _, written, found => found = written

/-- **Values of every shape read back** from their payloads. -/
theorem exists_decode (shape : PlainShape α) {value : α} {payload : Bytes}
    (h : shape.codec.encode value = .ok payload) :
    ∃ found, shape.codec.decode payload = .ok found ∧ shape.Same value found := by
  cases shape with
  | text =>
    cases h
    refine ⟨value, ?_, rfl⟩
    show (Utf8.decode (Utf8.encode value)).mapError _ = _
    rw [Utf8.decode_encode]
    rfl
  | bytes => exact ⟨payload, rfl, (Except.ok.inj h).symm⟩
  | bool => exact ⟨value, Codec.decode_bool value h, rfl⟩
  | int32 => exact ⟨value, Codec.decode_int32 value h, rfl⟩
  | int64 => exact ⟨value, Codec.decode_int64 value h, rfl⟩
  | word32 => exact ⟨value, Codec.decode_word32 value h, rfl⟩
  | word64 => exact ⟨value, Codec.decode_word64 value h, rfl⟩
  -- A number that is none is written as one of them, whichever it was.
  | binary64 =>
    refine ⟨_, Codec.decode_binary64 value h, ?_⟩
    split
    · next hnan => exact .inr ⟨hnan, by decide⟩
    · exact .inl rfl

end PlainShape

end EntityStore
