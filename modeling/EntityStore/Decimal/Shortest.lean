/-
  EntityStore/Decimal/Shortest.lean
  =================================
  **Shortest decimals** — the fewest digits from which a binary number can be
  read back, and of those the nearest to it.

  A magnitude is read back from every decimal inside its rounding interval.  For
  one digit, two digits, and so on, the two neighbours of the magnitude on that
  decimal grid are tried: if any point of a grid lies in the interval, one of
  the neighbours does.
-/
import EntityStore.Decimal.Basic

namespace EntityStore.Decimal

open Binary

-- Powers of naturals are the core ones, whatever else is in scope.
attribute [local instance (high)] instPowNat instNatPowNat

/-- Which of two equally near decimals is taken. -/
inductive Tie where
  | toEven
  | up
deriving DecidableEq

/-- The decimals that round to a magnitude, as numerators over `2 ^ denLog`. -/
structure Interval where
  low : Nat
  value : Nat
  high : Nat
  denLog : Nat
  /-- Both ends still round to the magnitude. -/
  closed : Bool

/-- The rounding interval of a magnitude pattern.  It reaches half a step to
    either side, and a quarter below a power of two, where the steps change. -/
def Interval.ofPattern (F : Format) (pattern : Nat) : Interval :=
  let m := F.significand pattern
  let s := F.shift pattern
  let step := 2 ^ s
  let narrow := m = 2 ^ (F.precision - 1) ∧ 0 < s
  { low := (4 * m - if narrow then 1 else 2) * step
    value := 4 * m * step
    high := (4 * m + 2) * step
    denLog := F.unitsLog + 2
    closed := m % 2 = 0 }

/-- The interval's point on the grid of the multiples of `10 ^ power` that is
    nearest to the value, if one of the value's neighbours lies inside. -/
def Interval.nearest? (I : Interval) (tie : Tie) (power : Int) : Option Nat :=
  let up := 10 ^ (-power).toNat
  let cell := 2 ^ I.denLog * 10 ^ power.toNat
  let value := I.value * up
  let below := value / cell
  let inside (n : Nat) : Bool :=
    let x := n * cell
    if I.closed then I.low * up ≤ x && x ≤ I.high * up else I.low * up < x && x < I.high * up
  let twice := 2 * (value % cell)
  match inside below, inside (below + 1) with
  | true, true =>
    if twice < cell then some below
    else if cell < twice then some (below + 1)
    else if tie = .toEven ∧ below % 2 = 0 then some below
    else some (below + 1)
  | true, false => some below
  | false, true => some (below + 1)
  | false, false => none

/-- The largest power of ten not above `num / den`, counted down from `start`;
    `fuel` bounds the steps. -/
def floorPower (num den : Nat) : (fuel : Nat) → (start : Int) → Int
  | 0, start => start
  | fuel + 1, start =>
    if den * 10 ^ start.toNat ≤ num * 10 ^ (-start).toNat then start
    else floorPower num den fuel (start - 1)

/-- A power of ten that is not below the quotient's, and above it by at most two. -/
def powerBound (num den : Nat) : Int :=
  ((num.log2 : Int) - den.log2 + 1) * 30103 / 100000 + 1

/-- Tries grids of `digits` digits and more, `fuel` of them. -/
def shortestFrom (I : Interval) (tie : Tie) (top : Int) : (fuel digits : Nat) → Decimal
  | 0, _ => ⟨0, 0⟩
  | fuel + 1, digits =>
    let power := top + 1 - digits
    match I.nearest? tie power with
    | some n => dropZeros 20 ⟨n, power⟩
    | none => shortestFrom I tie top fuel (digits + 1)

/-- The shortest decimal of a finite number's magnitude.  Seventeen digits always
    read back. -/
def shortest (tie : Tie) (x : Binary64) : Decimal :=
  if x.isZero then ⟨0, 0⟩
  else
    let I := Interval.ofPattern .double x.magnitude
    let top := floorPower I.value (2 ^ I.denLog) 8 (powerBound I.value (2 ^ I.denLog))
    shortestFrom I tie top 17 1

end EntityStore.Decimal
