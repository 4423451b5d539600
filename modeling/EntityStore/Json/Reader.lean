/-
  EntityStore/Json/Reader.lean
  ============================
  **What a written document stands for** — strings become text, numbers become
  values, objects become maps in key order.
-/
import EntityStore.Json.Written
import EntityStore.Decimal.Basic

namespace EntityStore.Json

-- Powers of naturals are the core ones, whatever else is in scope.
attribute [local instance (high)] instPowNat instNatPowNat

/-! ### Strings -/

/-- The byte that a short escape stands for. -/
def shortEscape (b : UInt8) : UInt8 :=
  if b = 0x62 then 0x08
  else if b = 0x66 then 0x0c
  else if b = 0x6e then 0x0a
  else if b = 0x72 then 0x0d
  else if b = 0x74 then 0x09
  else b

def isHighSurrogate (n : Nat) : Bool := 0xd800 ≤ n && n < 0xdc00
def isLowSurrogate (n : Nat) : Bool := 0xdc00 ≤ n && n < 0xe000

/-- A piece of a string: a byte that stands for itself, or a sixteen-bit unit
    written as four hexadecimal digits. -/
inductive Piece where
  | byte (b : UInt8)
  | unit (n : Nat)
deriving DecidableEq

/-- The pieces of a string. -/
def pieces? : Bytes → Option (List Piece)
  | [] => some []
  | 0x5c :: 0x75 :: a :: b :: c :: d :: rest =>
    match hexQuad? a b c d, pieces? rest with
    | some n, some pieces => some (.unit n :: pieces)
    | _, _ => none
  | 0x5c :: e :: rest => (pieces? rest).map (.byte (shortEscape e) :: ·)
  | b :: rest => (pieces? rest).map (.byte b :: ·)

/-- The bytes that pieces stand for.  A high surrogate must be followed at once by
    a low one, and a low one must not stand alone. -/
def joinPieces? : List Piece → Option Bytes
  | [] => some []
  | .byte b :: rest => (joinPieces? rest).map (b :: ·)
  | .unit n :: rest =>
    if isHighSurrogate n then
      match rest with
      | .unit m :: rest =>
        if isLowSurrogate m then
          let c := Char.ofNat (0x10000 + (n - 0xd800) * 0x400 + (m - 0xdc00))
          (joinPieces? rest).map (String.utf8EncodeChar c ++ ·)
        else none
      | _ => none
    else if isLowSurrogate n then none
    else (joinPieces? rest).map (String.utf8EncodeChar (Char.ofNat n) ++ ·)

/-- The text that a string stands for. -/
def textOfRaw? (raw : Bytes) : Option String :=
  ((pieces? raw).bind joinPieces?).bind Utf8.decode?

/-! ### Numbers -/

/-- Appends digits to a significand while it fits sixty-four bits, and returns
    the digits that are left over. -/
def takeDigits (significand : Nat) : List Nat → Nat × List Nat
  | [] => (significand, [])
  | d :: ds =>
    if significand * 10 + d < UInt64.size then takeDigits (significand * 10 + d) ds
    else (significand, d :: ds)

/-- The largest power of ten that is a finite number. -/
def largestPower : Nat := 308

def powerOfTen (n : Nat) : Binary64 := .ofInt (10 ^ n)

/-- A number times a power of ten, by one rounded multiplication or division; far
    below zero by several.  Too large a result is refused. -/
def scale? : (fuel : Nat) → Binary64 → (power : Int) → Option Binary64
  | 0, x, _ => some x
  | fuel + 1, x, power =>
    if power.natAbs ≤ largestPower then
      if 0 ≤ power then
        let y := x.mul (powerOfTen power.natAbs)
        if y.isInfinite then none else some y
      else some (x.div (powerOfTen power.natAbs))
    else if x.isZero then some x
    else if 0 ≤ power then none
    else scale? fuel (x.div (powerOfTen largestPower)) (power + largestPower)

def natOfDigits (digits : List Nat) : Nat := digits.foldl (fun n d => n * 10 + d) 0

/-- Exponents from this one up are not computed with. -/
def exponentLimit : Nat := 0x80000000

namespace Numeral

/-- No fraction and no exponent. -/
def isWhole (n : Numeral) : Bool := n.fraction.isEmpty && n.exponent.isNone

/-- The floating-point value.  A significand of sixty-four bits takes digits while
    they fit; whole digits left over count as powers of ten, and fraction digits
    left over are dropped. -/
def toBinary64? (n : Numeral) : Option Binary64 :=
  let (significand, moreWhole) := takeDigits 0 n.whole
  let (significand, moreFraction) := takeDigits significand n.fraction
  let power : Int := moreWhole.length - (n.fraction.length - moreFraction.length : Nat)
  let magnitude? :=
    match n.exponent with
    | none => scale? 4 (.ofInt significand) power
    | some (negative, digits) =>
      let e := natOfDigits digits
      if e < exponentLimit then
        scale? 4 (.ofInt significand) (if negative then power - e else power + e)
      else if significand ≠ 0 ∧ !negative then none
      else some .zero
  magnitude?.map fun x => if n.negative then x.neg else x

/-- The value: whole numbers that fit sixty-four bits, signed or unsigned, stay
    whole, and every other is a floating-point number.  Negative zero is one. -/
def value? (n : Numeral) : Option Number :=
  let (significand, more) := takeDigits 0 n.whole
  if n.isWhole && more.isEmpty then
    if n.negative then
      if significand = 0 ∨ -significand < Int64.minValue.toInt then
        some (.float (Binary64.ofInt significand).neg)
      else some (.int (-significand))
    else some (.int significand)
  else n.toBinary64?.map .float

end Numeral

/-! ### Documents -/

mutual

/-- The value of a written document, if all its strings are text and all its
    numbers are in range. -/
def ofWritten? : Written → Option Json
  | .null => some .null
  | .bool b => some (.bool b)
  | .number n => n.value?.map .num
  | .text raw => (textOfRaw? raw).map .str
  | .array items => (ofItems? items).map .arr
  | .object members => (ofMembers? members).map ofMembers

/-- The values of the items of an array. -/
def ofItems? : List Written → Option (List Json)
  | [] => some []
  | item :: rest =>
    match ofWritten? item, ofItems? rest with
    | some value, some values => some (value :: values)
    | _, _ => none

/-- The keys and values of the members of an object. -/
def ofMembers? : List (Bytes × Written) → Option (List (String × Json))
  | [] => some []
  | (key, value) :: rest =>
    match textOfRaw? key, ofWritten? value, ofMembers? rest with
    | some key, some value, some members => some ((key, value) :: members)
    | _, _, _ => none

end

/-- How many arrays and objects may stand inside one another in a value. -/
def depthLimit : Nat := 127

/-- The value that a payload holds. -/
def ofBytes? (input : Bytes) : Option Json := (Written.ofBytes? depthLimit input).bind ofWritten?

/-- The value that a text holds. -/
def ofText? (text : String) : Option Json := ofBytes? (Utf8.encode text)

end EntityStore.Json
