/-
  EntityStore/Binary/Binary64.lean
  ================================
  **Sixty-four-bit floating-point numbers**, held as their bits.

  Arithmetic is exact arithmetic followed by one rounding to the nearest number,
  ties to even.  Order and equality of numbers are those of the values: the two
  zeros are equal, and what is no number is neither equal to nor ordered with
  anything.
-/
import EntityStore.Binary.Format

namespace EntityStore

/-- A sixty-four-bit floating-point number. -/
structure Binary64 where
  bits : UInt64
deriving DecidableEq

namespace Binary64

open Binary

-- Powers of naturals are the core ones, whatever else is in scope.
attribute [local instance (high)] instPowNat instNatPowNat

/-- The value of the sign bit. -/
def signBit : Nat := 0x8000000000000000

/-- The number of a sign and a magnitude pattern. -/
def ofParts (negative : Bool) (pattern : Nat) : Binary64 :=
  ⟨UInt64.ofNat ((if negative then signBit else 0) + pattern)⟩

/-- The sign bit is set. -/
def negative (x : Binary64) : Bool := signBit ≤ x.bits.toNat

/-- The bits without the sign. -/
def magnitude (x : Binary64) : Nat := x.bits.toNat % signBit

def isNaN (x : Binary64) : Bool := Format.double.infinity < x.magnitude
def isInfinite (x : Binary64) : Bool := x.magnitude == Format.double.infinity
def isFinite (x : Binary64) : Bool := x.magnitude < Format.double.infinity
def isZero (x : Binary64) : Bool := x.magnitude == 0

def zero : Binary64 := ⟨0⟩
def infinity (negative : Bool) : Binary64 := ofParts negative Format.double.infinity
/-- The one pattern that stands for every result that is no number. -/
def nan : Binary64 := ofParts false (Format.double.infinity + 0x8000000000000)

/-- The same magnitude with the other sign. -/
def neg (x : Binary64) : Binary64 := ofParts (!x.negative) x.magnitude

/-- The units in a finite number's magnitude; a unit is the least positive number. -/
def units (x : Binary64) : Nat := Format.double.units x.magnitude

/-- The number nearest to a signed ratio. -/
def ofRatio (negative : Bool) (num den : Nat) : Binary64 :=
  ofParts negative (Format.double.ofRatio num den)

/-- The number nearest to an integer. -/
def ofInt (n : Int) : Binary64 := ofRatio (n < 0) n.natAbs 1

/-- The rounded product of two finite numbers. -/
def mul (x y : Binary64) : Binary64 :=
  ofRatio (x.negative != y.negative) (x.units * y.units) (2 ^ (2 * Format.double.unitsLog))

/-- The rounded quotient of a finite number by a finite one other than zero. -/
def div (x y : Binary64) : Binary64 :=
  ofRatio (x.negative != y.negative) x.units y.units

/-! ### Order -/

/-- An integer that orders numbers like their values. -/
def orderKey (x : Binary64) : Int := if x.negative then -(x.magnitude : Int) else x.magnitude

/-- How two numbers compare, if both are numbers. -/
def compare? (x y : Binary64) : Option Ordering :=
  if x.isNaN || y.isNaN then none else some (compare x.orderKey y.orderKey)

/-- Both are numbers, of the same value. -/
def sameValue (x y : Binary64) : Bool := x.compare? y == some .eq

/-! ### Other widths -/

/-- The number that the bits of a narrower format stand for. -/
def ofNarrow (F : Format) (bits : Nat) : Binary64 :=
  let pattern := bits % 2 ^ F.magnitudeBits
  let negative := bits / 2 ^ F.magnitudeBits % 2 == 1
  if pattern < F.infinity then ofRatio negative (F.units pattern) (2 ^ F.unitsLog)
  else if pattern = F.infinity then infinity negative
  else nan

/-- The bits of the same number in a narrower format, if it has that number. -/
def toNarrow? (F : Format) (x : Binary64) : Option Nat :=
  let sign := if x.negative then 2 ^ F.magnitudeBits else 0
  if x.isNaN then none
  else if x.isInfinite then some (sign + F.infinity)
  else (F.exactly? x.units Format.double.unitsLog).map (sign + ·)

end Binary64

end EntityStore
