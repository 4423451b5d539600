/-
  EntityStore/Binary/Format.lean
  ==============================
  **Binary floating-point formats** — magnitudes as natural numbers.

  Every finite magnitude of a format is a whole number of *units*, the format's
  least positive value.  Counting in units turns reading, rounding and
  conversion between formats into arithmetic on natural numbers.

  A magnitude's bit pattern, the sign bit left out, is `shift * 2^(p-1) + m` for
  the value of `m * 2^shift` units, where `p` is the precision: patterns are
  ordered like the values they stand for.
-/

namespace EntityStore.Binary

-- Powers of naturals are the core ones, whatever else is in scope.
attribute [local instance (high)] instPowNat instNatPowNat

/-- A format: how many bits a significand has, the leading one included, and how
    many bits the exponent field has. -/
structure Format where
  precision : Nat
  exponentBits : Nat
deriving DecidableEq

namespace Format

/-- Sixteen-bit numbers. -/
def half : Format := ⟨11, 5⟩
/-- Thirty-two-bit numbers. -/
def single : Format := ⟨24, 8⟩
/-- Sixty-four-bit numbers. -/
def double : Format := ⟨53, 11⟩

variable (F : Format)

/-- The pattern of infinity: every larger pattern is no number. -/
def infinity : Nat := (2 ^ F.exponentBits - 1) * 2 ^ (F.precision - 1)

/-- The number of bits of a magnitude. -/
def magnitudeBits : Nat := F.exponentBits + (F.precision - 1)

/-- How many units make one: `2 ^ unitsLog`. -/
def unitsLog : Nat := 2 ^ (F.exponentBits - 1) + F.precision - 3

/-- The significand of a finite magnitude. -/
def significand (pattern : Nat) : Nat :=
  if pattern / 2 ^ (F.precision - 1) = 0 then pattern
  else 2 ^ (F.precision - 1) + pattern % 2 ^ (F.precision - 1)

/-- The power of two by which the significand of a finite magnitude counts. -/
def shift (pattern : Nat) : Nat := pattern / 2 ^ (F.precision - 1) - 1

/-- The units in a finite magnitude. -/
def units (pattern : Nat) : Nat := F.significand pattern * 2 ^ F.shift pattern

/-- The shift at which a number of units fits the precision. -/
def shiftOfUnits (units : Nat) : Nat := units.log2 + 1 - F.precision

end Format

/-- The quotient of two numbers, rounded to the nearest whole number and a half to
    the even neighbour. -/
def roundedQuotient (num den : Nat) : Nat :=
  let q := num / den
  let twice := 2 * (num % den)
  if twice < den ∨ (twice = den ∧ q % 2 = 0) then q else q + 1

/-- The magnitude nearest to `num / den`, of two equally near ones the even
    pattern; infinity from half a step above the largest finite magnitude. -/
def Format.ofRatio (F : Format) (num den : Nat) : Nat :=
  let scaled := num * 2 ^ F.unitsLog
  let shift := F.shiftOfUnits (scaled / den)
  min (shift * 2 ^ (F.precision - 1) + roundedQuotient scaled (den * 2 ^ shift)) F.infinity

/-- The finite magnitude of exactly `num / 2^denLog`, if the format has one. -/
def Format.exactly? (F : Format) (num denLog : Nat) : Option Nat :=
  let scaled := num * 2 ^ F.unitsLog
  if scaled % 2 ^ denLog = 0 then
    let units := scaled / 2 ^ denLog
    let shift := F.shiftOfUnits units
    if units % 2 ^ shift = 0 then
      let pattern := shift * 2 ^ (F.precision - 1) + units / 2 ^ shift
      if pattern < F.infinity then some pattern else none
    else none
  else none

end EntityStore.Binary
