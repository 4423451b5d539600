/-
  EntityStore/Codec/Scalar.lean
  =============================
  **Scalars as text** — truth values, integers and floating-point numbers are
  stored as their decimal text.  Readers allow blanks around the text and name
  the whole text when they refuse it.
-/
import EntityStore.Codec.Basic
import EntityStore.Decimal.Style
import EntityStore.Text.Blank

namespace EntityStore

namespace Scalar

/-- The value of a decimal digit. -/
def digit? (c : Char) : Option Nat := if c.isDigit then some (c.toNat - 48) else none

/-! ### Integers -/

/-- Why a text is no integer of a range. -/
inductive IntegerFault where
  | empty
  | invalidDigit
  | tooLarge
  | tooSmall
deriving DecidableEq

def IntegerFault.message : IntegerFault → String
  | empty => "cannot parse integer from empty string"
  | invalidDigit => "invalid digit found in string"
  | tooLarge => "number too large to fit in target type"
  | tooSmall => "number too small to fit in target type"

/-- Appends digits to a value, away from zero, and stops at the first character
    that is no digit or takes the value out of its range. -/
def readDigits (low high : Int) (negative : Bool) (value : Int) :
    List Char → Except IntegerFault Int
  | [] => .ok value
  | c :: rest =>
    match digit? c with
    | none => .error .invalidDigit
    | some d =>
      let value := if negative then value * 10 - d else value * 10 + d
      if high < value then .error .tooLarge
      else if value < low then .error .tooSmall
      else readDigits low high negative value rest

/-- An integer of a range: digits behind an optional sign, where a range without
    negative numbers knows no minus sign. -/
def readInteger (low high : Int) : List Char → Except IntegerFault Int
  | [] => .error .empty
  | ['+'] => .error .invalidDigit
  | ['-'] => .error .invalidDigit
  | '+' :: rest => readDigits low high false 0 rest
  | '-' :: rest =>
    if low < 0 then readDigits low high true 0 rest else .error .invalidDigit
  | chars => readDigits low high false 0 chars

/-! ### Floating-point numbers -/

/-- Why a text is no floating-point number. -/
inductive FloatFault where
  | empty
  | invalid
deriving DecidableEq

def FloatFault.message : FloatFault → String
  | empty => "cannot parse float from empty string"
  | invalid => "invalid float literal"

/-- The digits at the head of a text. -/
def spanDigits (chars : List Char) : List Char × List Char := chars.span Char.isDigit

def natOfDigits (digits : List Char) : Nat :=
  digits.foldl (fun n c => n * 10 + (c.toNat - 48)) 0

/-- A fraction behind a point, which may be empty. -/
def readFraction : List Char → List Char × List Char
  | '.' :: rest => spanDigits rest
  | rest => ([], rest)

/-- An exponent that ends the text, or the end of the text. -/
def readExponent : List Char → Option Int
  | [] => some 0
  | mark :: rest =>
    if mark = 'e' ∨ mark = 'E' then
      let (negative, digits) : Bool × List Char :=
        match rest with
        | '-' :: rest => (true, rest)
        | '+' :: rest => (false, rest)
        | rest => (false, rest)
      if digits.isEmpty || !digits.all Char.isDigit then none
      else some (if negative then -(natOfDigits digits : Int) else natOfDigits digits)
    else none

/-- A magnitude: digits with an optional point and exponent, or one of the words
    for infinity and for what is no number, in any case. -/
def readMagnitude (negative : Bool) (chars : List Char) : Option Binary64 :=
  let word := String.ofList (chars.map Char.toLower)
  if word = "inf" ∨ word = "infinity" then some (.infinity negative)
  else if word = "nan" then some .nan
  else
    let (whole, rest) := spanDigits chars
    let (fraction, rest) := readFraction rest
    if whole.isEmpty && fraction.isEmpty then none
    else
      (readExponent rest).map fun exponent =>
        Decimal.toBinary64 negative ⟨natOfDigits (whole ++ fraction), exponent - fraction.length⟩

/-- The number nearest to the decimal that a text holds. -/
def readFloat : List Char → Except FloatFault Binary64
  | [] => .error .empty
  | chars =>
    let found :=
      match chars with
      | '-' :: rest => readMagnitude true rest
      | '+' :: rest => readMagnitude false rest
      | chars => readMagnitude false chars
    match found with
    | some x => .ok x
    | none => .error .invalid

/-- Floating-point scalars have every digit written out and no point behind a
    whole number; a tie goes up. -/
def floatStyle : Decimal.Style where
  tie := .up
  positional := none
  keepsPoint := false

def floatChars (x : Binary64) : List Char :=
  if x.isNaN then "NaN".toList
  else if x.isInfinite then (if x.negative then "-inf" else "inf").toList
  else floatStyle.chars x

/-- The decimal text of an integer. -/
def intChars (n : Int) : List Char :=
  if n < 0 then '-' :: Decimal.digitChars n.natAbs else Decimal.digitChars n.natAbs

end Scalar

namespace Codec

/-- A scalar: how it is written, and how its text without blanks around it is
    read. -/
def scalar {α ε : Type} (typeName : String) (write : α → List Char)
    (read : List Char → Except ε α) (reason : ε → String) : Codec α where
  encode value := .ok (Utf8.encode (String.ofList (write value)))
  decode payload :=
    match decodeText payload with
    | .error error => .error error
    | .ok text =>
      match read (Text.trim text.toList) with
      | .ok value => .ok value
      | .error fault =>
        .error (.decode ("'" ++ text ++ "' is not a valid " ++ typeName ++ ": " ++ reason fault))

/-- Truth values are the words `true` and `false`. -/
def bool : Codec Bool :=
  scalar "bool" (fun b => (if b then "true" else "false").toList)
    (fun chars =>
      if chars = "true".toList then .ok true
      else if chars = "false".toList then .ok false
      else .error ())
    (fun _ => "provided string was not `true` or `false`")

def int32 : Codec Int32 :=
  scalar "i32" (fun n => Scalar.intChars n.toInt)
    (fun chars =>
      (Scalar.readInteger Int32.minValue.toInt Int32.maxValue.toInt chars).map Int32.ofInt)
    Scalar.IntegerFault.message

def int64 : Codec Int64 :=
  scalar "i64" (fun n => Scalar.intChars n.toInt)
    (fun chars =>
      (Scalar.readInteger Int64.minValue.toInt Int64.maxValue.toInt chars).map Int64.ofInt)
    Scalar.IntegerFault.message

def word32 : Codec UInt32 :=
  scalar "u32" (fun n => Scalar.intChars n.toNat)
    (fun chars =>
      (Scalar.readInteger 0 (UInt32.size - 1) chars).map fun n => UInt32.ofNat n.toNat)
    Scalar.IntegerFault.message

def word64 : Codec UInt64 :=
  scalar "u64" (fun n => Scalar.intChars n.toNat)
    (fun chars =>
      (Scalar.readInteger 0 (UInt64.size - 1) chars).map fun n => UInt64.ofNat n.toNat)
    Scalar.IntegerFault.message

def binary64 : Codec Binary64 :=
  scalar "f64" Scalar.floatChars Scalar.readFloat Scalar.FloatFault.message

end Codec

end EntityStore
