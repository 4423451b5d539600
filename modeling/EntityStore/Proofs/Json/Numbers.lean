/-
  EntityStore/Proofs/Json/Numbers.lean
  ====================================
  **Numbers inside a document.**  A numeral that is the whole of an input is read in the
  same way in front of whatever cannot continue a number.  The text of a whole number of
  sixty-four bits is a numeral with this value.
-/
import EntityStore.Json.Printer
import EntityStore.Json.Reader
import EntityStore.Proofs.Codec.Scalar

namespace EntityStore.Json

-- Powers of naturals are the core ones, whatever else is in scope.
attribute [local instance (high)] instPowNat instNatPowNat

/-! ### What follows a numeral -/

/-- Nothing follows, or a byte that continues no number. -/
def Boundary (rest : Bytes) : Prop :=
  ∀ b ∈ rest.head?, digit? b = none ∧ b ≠ 0x2e ∧ b ≠ 0x65 ∧ b ≠ 0x45

variable {input tail rest : Bytes} {digits : List Nat}

theorem readDigits_append (hrest : Boundary rest) (input : Bytes) :
    readDigits (input ++ rest) = ((readDigits input).1, (readDigits input).2 ++ rest) := by
  induction input with
  | nil =>
    cases rest with
    | nil => rfl
    | cons b rest => simp [readDigits, (hrest b rfl).1]
  | cons b input ih =>
    rw [List.cons_append, readDigits, readDigits]
    cases digit? b with
    | none => rfl
    | some d => rw [ih]

theorem readWhole_append (hrest : Boundary rest) (h : readWhole input = some (digits, tail)) :
    readWhole (input ++ rest) = some (digits, tail ++ rest) := by
  rcases input with _ | ⟨b, input⟩
  · cases h
  · by_cases hzero : b = 0x30
    · subst hzero
      cases h
      rfl
    · have happend := readDigits_append hrest (b :: input)
      unfold readWhole at h ⊢
      grind

theorem readFraction_append (hrest : Boundary rest) (h : readFraction input = some (digits, tail)) :
    readFraction (input ++ rest) = some (digits, tail ++ rest) := by
  rcases input with _ | ⟨b, input⟩
  · cases h
    rcases rest with _ | ⟨b, rest⟩
    · rfl
    · have hpoint := (hrest b rfl).2.1
      unfold readFraction
      grind
  · have happend := readDigits_append hrest input
    unfold readFraction at h ⊢
    grind

theorem readExponentDigits_append (hrest : Boundary rest) {negative : Bool}
    {exponent : Option (Bool × List Nat)}
    (h : readExponentDigits negative input = some (exponent, tail)) :
    readExponentDigits negative (input ++ rest) = some (exponent, tail ++ rest) := by
  have happend := readDigits_append hrest input
  unfold readExponentDigits at h ⊢
  grind

theorem readExponent_append (hrest : Boundary rest) {exponent : Option (Bool × List Nat)}
    (h : readExponent input = some (exponent, tail)) :
    readExponent (input ++ rest) = some (exponent, tail ++ rest) := by
  rcases input with _ | ⟨mark, input⟩
  · cases h
    rcases rest with _ | ⟨b, rest⟩
    · rfl
    · have hmark := (hrest b rfl).2.2
      unfold readExponent
      grind
  · by_cases hmark : mark = 0x65 ∨ mark = 0x45
    · rcases input with _ | ⟨sign, input⟩
      · -- a mark alone is no exponent
        unfold readExponent at h
        simp only [hmark, if_true] at h
        cases h
      · unfold readExponent at h ⊢
        simp only [List.cons_append, hmark, if_true] at h ⊢
        have happend {negative : Bool} {input : Bytes} :=
          @readExponentDigits_append input tail rest hrest negative exponent
        grind
    · unfold readExponent at h ⊢
      grind

/-- The rest of a numeral behind its sign. -/
def readUnsigned (negative : Bool) (input : Bytes) : Option (Numeral × Bytes) := do
  let (whole, input) ← readWhole input
  let (fraction, input) ← readFraction input
  let (exponent, input) ← readExponent input
  return ({ negative, whole, fraction, exponent }, input)

theorem readNumeral_minus (input : Bytes) :
    readNumeral (0x2d :: input) = readUnsigned true input := rfl

theorem readNumeral_unsigned (h : ∀ b ∈ input.head?, b ≠ 0x2d) :
    readNumeral input = readUnsigned false input := by
  rcases input with _ | ⟨b, input⟩
  · rfl
  · have hb := h b rfl
    unfold readNumeral readUnsigned
    grind

theorem readUnsigned_eq_some_iff {negative : Bool} {numeral : Numeral} :
    readUnsigned negative input = some (numeral, tail) ↔
      ∃ whole behindWhole fraction behindFraction exponent,
        readWhole input = some (whole, behindWhole) ∧
        readFraction behindWhole = some (fraction, behindFraction) ∧
        readExponent behindFraction = some (exponent, tail) ∧
        ⟨negative, whole, fraction, exponent⟩ = numeral := by
  simp [readUnsigned, Option.bind_eq_some_iff]

theorem readUnsigned_append (hrest : Boundary rest) {negative : Bool} {numeral : Numeral}
    (h : readUnsigned negative input = some (numeral, tail)) :
    readUnsigned negative (input ++ rest) = some (numeral, tail ++ rest) := by
  obtain ⟨whole, behindWhole, fraction, behindFraction, exponent, hwhole, hfraction, hexponent,
    rfl⟩ := readUnsigned_eq_some_iff.mp h
  exact readUnsigned_eq_some_iff.mpr ⟨whole, _, fraction, _, exponent,
    readWhole_append hrest hwhole, readFraction_append hrest hfraction,
    readExponent_append hrest hexponent, rfl⟩

theorem readWhole_head (h : readWhole input = some (digits, tail)) :
    ∃ b behind, input = b :: behind ∧ 0x30 ≤ b ∧ b ≤ 0x39 := by
  rcases input with _ | ⟨b, input⟩
  · cases h
  · refine ⟨b, input, rfl, ?_⟩
    unfold readWhole readDigits digit? at h
    grind

/-- A numeral begins with a sign or a digit. -/
theorem readNumeral_head {numeral : Numeral} (h : readNumeral input = some (numeral, tail)) :
    ∃ b behind, input = b :: behind ∧ (b = 0x2d ∨ 0x30 ≤ b ∧ b ≤ 0x39) := by
  by_cases hminus : ∀ b ∈ input.head?, b ≠ 0x2d
  · rw [readNumeral_unsigned hminus] at h
    obtain ⟨whole, _, _, _, _, hwhole, -⟩ := readUnsigned_eq_some_iff.mp h
    obtain ⟨b, behind, hinput, hb⟩ := readWhole_head hwhole
    exact ⟨b, behind, hinput, .inr hb⟩
  · rcases input with _ | ⟨b, behind⟩
    · cases h
    · exact ⟨b, behind, rfl, .inl (by simpa using hminus)⟩

theorem readNumeral_append (hrest : Boundary rest) {numeral : Numeral}
    (h : readNumeral input = some (numeral, tail)) :
    readNumeral (input ++ rest) = some (numeral, tail ++ rest) := by
  obtain ⟨b, behind, rfl, -⟩ := readNumeral_head h
  by_cases hminus : b = 0x2d
  · subst hminus
    rw [readNumeral_minus] at h
    rw [List.cons_append, readNumeral_minus]
    exact readUnsigned_append hrest h
  · rw [readNumeral_unsigned (by simpa using hminus)] at h ⊢
    exact readUnsigned_append hrest h

/-! ### Whole numbers -/

open Decimal Scalar

/-- The value of a digit. -/
def digitValue (c : Char) : Nat := c.toNat - 48

theorem head_digitChars {n : Nat} (h : 0 < n) :
    ∃ c behind, digitChars n = c :: behind ∧ c ≠ '0' := by
  induction n using Nat.strongRecOn with
  | ind n ih =>
    unfold digitChars at ih ⊢
    rw [Nat.toDigits_eq_if (by decide)]
    split
    · next hsmall =>
      have hdigit : ∀ d < 10, 0 < d → Nat.digitChar d ≠ '0' := by decide
      exact ⟨_, [], rfl, hdigit n hsmall h⟩
    · next hlarge =>
      obtain ⟨c, behind, hchars, hc⟩ := ih (n / 10) (by omega) (by omega)
      exact ⟨c, _, by rw [hchars]; rfl, hc⟩

theorem utf8EncodeChar_digit {c : Char} (h : c.isDigit = true) :
    ∃ b : UInt8, String.utf8EncodeChar c = [b] ∧ digit? b = some (digitValue c) ∧
      b.toNat = c.toNat := by
  have hbounds := toNat_of_isDigit h
  have hbyte : (UInt8.ofNat c.toNat).toNat = c.toNat := Utf8.toNat_byte (by omega)
  refine ⟨_, Utf8.utf8EncodeChar_ascii (by omega), ?_, hbyte⟩
  unfold digit? digitValue
  have hrange : 0x30 ≤ UInt8.ofNat c.toNat ∧ UInt8.ofNat c.toNat ≤ 0x39 := by
    simp only [UInt8.le_iff_toNat_le, hbyte]
    exact hbounds
  rw [if_pos hrange, hbyte]

theorem readDigits_digits {chars : List Char} (h : ∀ c ∈ chars, c.isDigit = true) :
    readDigits (chars.flatMap String.utf8EncodeChar) = (chars.map digitValue, []) := by
  induction chars with
  | nil => rfl
  | cons c chars ih =>
    obtain ⟨hc, hrest⟩ := List.forall_mem_cons.mp h
    obtain ⟨b, hbytes, hdigit, -⟩ := utf8EncodeChar_digit hc
    rw [List.flatMap_cons, hbytes, List.singleton_append, readDigits, hdigit, ih hrest]
    rfl

theorem readWhole_digitChars (n : Nat) :
    readWhole ((digitChars n).flatMap String.utf8EncodeChar) =
      some ((digitChars n).map digitValue, []) := by
  have hdigits : ∀ c ∈ digitChars n, c.isDigit = true := fun _ => isDigit_of_mem_digitChars
  have hread := readDigits_digits hdigits
  rcases Nat.eq_zero_or_pos n with rfl | hpos
  · rfl
  · obtain ⟨c, behind, hchars, hc⟩ := head_digitChars hpos
    rw [hchars] at hdigits hread ⊢
    obtain ⟨b, hbytes, -, hvalue⟩ := utf8EncodeChar_digit (hdigits c List.mem_cons_self)
    have hzero : b ≠ 0x30 := by
      rintro rfl
      exact hc (Char.toNat_inj.mp hvalue.symm)
    rw [List.flatMap_cons, hbytes, List.singleton_append] at hread ⊢
    unfold readWhole
    grind

/-- All digits of a number that fits sixty-four bits are taken. -/
theorem takeDigits_digits {chars : List Char} {significand : Nat}
    (h : Nat.ofDigitChars 10 chars significand < UInt64.size) :
    takeDigits significand (chars.map digitValue) =
      (Nat.ofDigitChars 10 chars significand, []) := by
  induction chars generalizing significand with
  | nil => rfl
  | cons c chars ih =>
    rw [Nat.ofDigitChars_cons, Nat.mul_comm 10] at h ⊢
    have hle := le_ofDigitChars chars (significand * 10 + (c.toNat - '0'.toNat))
    have hfits : significand * 10 + digitValue c < UInt64.size := Nat.lt_of_le_of_lt hle h
    rw [List.map_cons, takeDigits, if_pos hfits]
    exact ih h

/-- The numeral of a whole number. -/
def wholeNumeral (n : Int) : Numeral := ⟨n < 0, (digitChars n.natAbs).map digitValue, [], none⟩

theorem readNumeral_intChars (n : Int) :
    readNumeral ((intChars n).flatMap String.utf8EncodeChar) = some (wholeNumeral n, []) := by
  have hunsigned (negative : Bool) :
      readUnsigned negative ((digitChars n.natAbs).flatMap String.utf8EncodeChar) =
        some (⟨negative, (digitChars n.natAbs).map digitValue, [], none⟩, []) :=
    readUnsigned_eq_some_iff.mpr ⟨_, [], [], [], none, readWhole_digitChars n.natAbs, rfl, rfl, rfl⟩
  unfold intChars wholeNumeral
  by_cases hneg : n < 0
  · rw [if_pos hneg, decide_eq_true hneg]
    exact hunsigned true
  · rw [if_neg hneg, decide_eq_false hneg, readNumeral_unsigned]
    · exact hunsigned false
    · obtain ⟨b, behind, hbytes, hb⟩ := readWhole_head (readWhole_digitChars n.natAbs)
      rw [hbytes]
      rintro _ ⟨⟩ rfl
      exact absurd hb (by decide)

/-- The whole numbers that a value can hold: with or without a sign, in sixty-four bits. -/
def IsWord (n : Int) : Prop := Int64.minValue.toInt ≤ n ∧ n < UInt64.size

theorem isWord_iff {n : Int} : IsWord n ↔ -0x8000000000000000 ≤ n ∧ n < 0x10000000000000000 :=
  Iff.rfl

theorem value?_wholeNumeral {n : Int} (h : IsWord n) : (wholeNumeral n).value? = some (.int n) := by
  obtain ⟨hlow, hhigh⟩ := isWord_iff.mp h
  have hmin : Int64.minValue.toInt = -0x8000000000000000 := rfl
  have hsize : UInt64.size = 0x10000000000000000 := rfl
  have hvalue : Nat.ofDigitChars 10 (digitChars n.natAbs) 0 = n.natAbs :=
    Nat.ofDigitChars_ten_toDigits
  -- none of the digits is left over, since the value fits a word
  have htaken : takeDigits 0 ((digitChars n.natAbs).map digitValue) = (n.natAbs, []) := by
    rw [takeDigits_digits, hvalue]
    rw [hvalue]
    omega
  have hwhole : (wholeNumeral n).isWhole = true := rfl
  have hsignificand : takeDigits 0 (wholeNumeral n).whole = (n.natAbs, []) := htaken
  unfold Numeral.value?
  simp only [hsignificand, hwhole, List.isEmpty_nil, Bool.and_self, if_true]
  -- with a sign it fits the negative words, without one the others
  by_cases hneg : n < 0
  · have hsign : (wholeNumeral n).negative = true := decide_eq_true hneg
    have hfits : ¬ (n.natAbs = 0 ∨ -(n.natAbs : Int) < Int64.minValue.toInt) := by omega
    have hvalue : -(n.natAbs : Int) = n := by omega
    rw [if_pos hsign, if_neg hfits, hvalue]
  · have hsign : ¬ (wholeNumeral n).negative = true := by
      rw [show (wholeNumeral n).negative = decide (n < 0) from rfl, decide_eq_true_eq]
      exact hneg
    have hvalue : (n.natAbs : Int) = n := by omega
    rw [if_neg hsign, hvalue]

end EntityStore.Json

namespace EntityStore.Number

open Json

/-! ### Numbers that read back -/

/-- The bytes of the text of a number. -/
def bytes (n : Number) : Bytes := (numberChars n).flatMap String.utf8EncodeChar

/-- The number whose text is all of the input. -/
def ofBytes? (input : Bytes) : Option Number :=
  match readNumeral input with
  | some (numeral, []) => numeral.value?
  | _ => none

/-- A number is read back from its own text.  Whole numbers are if they fit a word; which
    floating-point numbers are depends on how exactly decimals are rounded. -/
def ReadsBack : Number → Prop
  | .int n => IsWord n
  | .float x => ofBytes? (bytes (.float x)) = some (.float x)

theorem ReadsBack.exists_numeral {n : Number} (h : n.ReadsBack) :
    ∃ numeral, readNumeral n.bytes = some (numeral, []) ∧ numeral.value? = some n := by
  cases n with
  | int n => exact ⟨wholeNumeral n, readNumeral_intChars n, value?_wholeNumeral h⟩
  | float x =>
    have hread : ofBytes? (bytes (.float x)) = some (.float x) := h
    unfold ofBytes? at hread
    split at hread
    · next numeral hnumeral => exact ⟨numeral, hnumeral, hread⟩
    · cases hread

end EntityStore.Number
