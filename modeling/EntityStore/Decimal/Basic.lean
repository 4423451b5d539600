/-
  EntityStore/Decimal/Basic.lean
  ==============================
  **Decimal numbers** — whole digits times a power of ten, and the binary number
  nearest to one.
-/
import EntityStore.Binary.Binary64

namespace EntityStore

-- Powers of naturals are the core ones, whatever else is in scope.
attribute [local instance (high)] instPowNat instNatPowNat

/-- `digits * 10 ^ exponent`. -/
structure Decimal where
  digits : Nat
  exponent : Int
deriving DecidableEq

namespace Decimal

/-- The decimal digits of a number, the first one first. -/
def digitChars (n : Nat) : List Char := Nat.toDigits 10 n

/-- Numbers from this power of ten up are larger than every finite number. -/
def overflowExponent : Int := 310
/-- Numbers below this power of ten are nearer to zero than to anything else. -/
def underflowExponent : Int := -330

/-- The binary number nearest to a decimal of either sign.  Far outside the range
    of binary numbers the answer is known without computing the ratio. -/
def toBinary64 (negative : Bool) (d : Decimal) : Binary64 :=
  let size := d.exponent + (digitChars d.digits).length
  if d.digits = 0 then .ofParts negative 0
  else if size > overflowExponent then .infinity negative
  else if size < underflowExponent then .ofParts negative 0
  else .ofRatio negative (d.digits * 10 ^ d.exponent.toNat) (10 ^ (-d.exponent).toNat)

/-- Moves zeros at the end of the digits into the exponent; `fuel` bounds the
    digits looked at. -/
def dropZeros : (fuel : Nat) → Decimal → Decimal
  | 0, d => d
  | fuel + 1, d =>
    if d.digits ≠ 0 ∧ d.digits % 10 = 0 then dropZeros fuel ⟨d.digits / 10, d.exponent + 1⟩
    else d

end Decimal

end EntityStore
