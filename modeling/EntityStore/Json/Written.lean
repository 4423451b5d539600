/-
  EntityStore/Json/Written.lean
  =============================
  **JSON as it is written** — the grammar, before anything is made of numbers and
  strings.

  A document is first read for its grammar alone.  What its numbers and strings
  stand for is decided afterwards and only where it is needed, so members that
  nobody asks for may hold strings that are no text and numbers out of range.
-/
import EntityStore.Json.Basic
import EntityStore.Text.Utf8

namespace EntityStore.Json

/-- A number as written: its digits, first one first.  A number without a
    fraction has no fraction digits; an exponent is a sign and digits. -/
structure Numeral where
  negative : Bool
  whole : List Nat
  fraction : List Nat
  exponent : Option (Bool × List Nat)
deriving DecidableEq

/-- A document as written.  A string is kept as the bytes between its quotes. -/
inductive Written where
  | null
  | bool (b : Bool)
  | number (numeral : Numeral)
  | text (raw : Bytes)
  | array (items : List Written)
  | object (members : List (Bytes × Written))

/-! ### Reading -/

def isBlankByte (b : UInt8) : Bool := b == 0x20 || b == 0x0a || b == 0x0d || b == 0x09

def skipBlanks (input : Bytes) : Bytes := input.dropWhile isBlankByte

/-- The value of a decimal digit. -/
def digit? (b : UInt8) : Option Nat :=
  if 0x30 ≤ b ∧ b ≤ 0x39 then some (b.toNat - 0x30) else none

/-- The value of a hexadecimal digit of either case. -/
def hexValue? (b : UInt8) : Option Nat :=
  if 0x30 ≤ b ∧ b ≤ 0x39 then some (b.toNat - 0x30)
  else if 0x61 ≤ b ∧ b ≤ 0x66 then some (b.toNat - 0x57)
  else if 0x41 ≤ b ∧ b ≤ 0x46 then some (b.toNat - 0x37)
  else none

/-- The number that four hexadecimal digits stand for. -/
def hexQuad? (a b c d : UInt8) : Option Nat := do
  return (((← hexValue? a) * 16 + (← hexValue? b)) * 16 + (← hexValue? c)) * 16 + (← hexValue? d)

/-- The digits at the head of the input, and the input behind them. -/
def readDigits : Bytes → List Nat × Bytes
  | [] => ([], [])
  | b :: rest =>
    match digit? b with
    | some d => let (ds, rest) := readDigits rest; (d :: ds, rest)
    | none => ([], b :: rest)

/-- The digits before the point: a single zero, or digits of which the first is
    not zero. -/
def readWhole : Bytes → Option (List Nat × Bytes)
  | 0x30 :: rest => some ([0], rest)
  | input =>
    match readDigits input with
    | ([], _) => none
    | found => some found

/-- A point and at least one digit, or no fraction at all. -/
def readFraction : Bytes → Option (List Nat × Bytes)
  | 0x2e :: rest =>
    match readDigits rest with
    | ([], _) => none
    | found => some found
  | input => some ([], input)

/-- The digits of an exponent, of which there must be one. -/
def readExponentDigits (negative : Bool) (input : Bytes) :
    Option (Option (Bool × List Nat) × Bytes) :=
  match readDigits input with
  | ([], _) => none
  | (ds, rest) => some (some (negative, ds), rest)

/-- A mark, a sign or none, and at least one digit; or no exponent at all. -/
def readExponent : Bytes → Option (Option (Bool × List Nat) × Bytes)
  | b :: rest =>
    if b = 0x65 ∨ b = 0x45 then
      match rest with
      | 0x2d :: rest => readExponentDigits true rest
      | 0x2b :: rest => readExponentDigits false rest
      | rest => readExponentDigits false rest
    else some (none, b :: rest)
  | [] => some (none, [])

def readNumeral (input : Bytes) : Option (Numeral × Bytes) := do
  let (negative, input) : Bool × Bytes :=
    match input with
    | 0x2d :: rest => (true, rest)
    | input => (false, input)
  let (whole, input) ← readWhole input
  let (fraction, input) ← readFraction input
  let (exponent, input) ← readExponent input
  return ({ negative, whole, fraction, exponent }, input)

/-- The bytes that may follow a backslash, other than `u`. -/
def isShortEscape (b : UInt8) : Bool :=
  b == 0x22 || b == 0x5c || b == 0x2f || b == 0x62 || b == 0x66 || b == 0x6e || b == 0x72
    || b == 0x74

/-- The rest of a string behind its opening quote: the bytes before the closing
    quote, and the input behind it.  Control characters and unknown escapes are
    refused. -/
def readText : Bytes → Option (Bytes × Bytes)
  | [] => none
  | 0x22 :: rest => some ([], rest)
  | 0x5c :: 0x75 :: a :: b :: c :: d :: rest =>
    if (hexQuad? a b c d).isSome then
      (readText rest).map fun (raw, rest) => (0x5c :: 0x75 :: a :: b :: c :: d :: raw, rest)
    else none
  | 0x5c :: e :: rest =>
    if isShortEscape e then (readText rest).map fun (raw, rest) => (0x5c :: e :: raw, rest)
    else none
  | b :: rest =>
    if b < 0x20 then none else (readText rest).map fun (raw, rest) => (b :: raw, rest)

/-- The input behind an expected word. -/
def readWord (word input : Bytes) : Option Bytes :=
  if word.isPrefixOf input then some (input.drop word.length) else none

mutual

/-- The value at the head of the input.  `depth` bounds the nesting of arrays and
    objects; `fuel` bounds the work and is never short when it starts above
    twice the length of the input. -/
def readValue : (fuel depth : Nat) → Bytes → Option (Written × Bytes)
  | 0, _, _ => none
  | fuel + 1, depth, input =>
    match skipBlanks input with
    | [] => none
    | 0x22 :: rest => (readText rest).map fun (raw, rest) => (.text raw, rest)
    | 0x5b :: rest =>
      match depth with
      | 0 => none
      | depth + 1 =>
        match skipBlanks rest with
        | 0x5d :: rest => some (.array [], rest)
        | rest => (readItems fuel depth rest).map fun (items, rest) => (.array items, rest)
    | 0x7b :: rest =>
      match depth with
      | 0 => none
      | depth + 1 =>
        match skipBlanks rest with
        | 0x7d :: rest => some (.object [], rest)
        | rest => (readMembers fuel depth rest).map fun (members, rest) => (.object members, rest)
    | 0x6e :: rest => (readWord [0x75, 0x6c, 0x6c] rest).map (.null, ·)
    | 0x74 :: rest => (readWord [0x72, 0x75, 0x65] rest).map (.bool true, ·)
    | 0x66 :: rest => (readWord [0x61, 0x6c, 0x73, 0x65] rest).map (.bool false, ·)
    | input => (readNumeral input).map fun (numeral, rest) => (.number numeral, rest)

/-- One item of an array, the items behind it, and the closing bracket. -/
def readItems : (fuel depth : Nat) → Bytes → Option (List Written × Bytes)
  | 0, _, _ => none
  | fuel + 1, depth, input =>
    match readValue fuel depth input with
    | none => none
    | some (item, rest) =>
      match skipBlanks rest with
      | 0x2c :: rest => (readItems fuel depth rest).map fun (items, rest) => (item :: items, rest)
      | 0x5d :: rest => some ([item], rest)
      | _ => none

/-- One member of an object, the members behind it, and the closing brace. -/
def readMembers : (fuel depth : Nat) → Bytes → Option (List (Bytes × Written) × Bytes)
  | 0, _, _ => none
  | fuel + 1, depth, input =>
    match skipBlanks input with
    | 0x22 :: rest =>
      match readText rest with
      | none => none
      | some (key, rest) =>
        match skipBlanks rest with
        | 0x3a :: rest =>
          match readValue fuel depth rest with
          | none => none
          | some (value, rest) =>
            match skipBlanks rest with
            | 0x2c :: rest =>
              (readMembers fuel depth rest).map fun (members, rest) =>
                ((key, value) :: members, rest)
            | 0x7d :: rest => some ([(key, value)], rest)
            | _ => none
        | _ => none
    | _ => none

end

/-- The one document that the input holds, with nothing but blanks around it and
    at most `depth` arrays and objects inside one another. -/
def Written.ofBytes? (depth : Nat) (input : Bytes) : Option Written :=
  match readValue (2 * input.length + 2) depth input with
  | some (document, rest) => if (skipBlanks rest).isEmpty then some document else none
  | none => none

end EntityStore.Json
