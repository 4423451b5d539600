/-
  EntityStore/Key/Composite.lean
  ==============================
  **Composite keys** — several parts in one ledger key.

  U+0000 opens a composite key and closes each of its parts.  No part may hold
  U+0000, which would split it, or U+10FFFF, which closes the range of all keys
  under a prefix.
-/
import EntityStore.Key.Basic

namespace EntityStore

/-- The character that opens a composite key and closes each part. -/
def separator : Char := '\x00'

/-- The last code point; behind a prefix it bounds the keys under it. -/
def lastRune : Char := Char.ofNat 0x10ffff

/-- Why parts cannot be joined, or a text cannot be split. -/
inductive CompositeError where
  /-- A part holds a rune that the encoding needs for itself. -/
  | reservedRune (part : String) (rune : Nat)
  /-- The text is no composite key. -/
  | notComposite (key : String)
deriving DecidableEq

namespace CompositeError

/-- Four or more hexadecimal digits in upper case. -/
def runeDigits (rune : Nat) : List Char :=
  let digits := (Nat.toDigits 16 rune).map Char.toUpper
  List.replicate (4 - digits.length) '0' ++ digits

def message : CompositeError → String
  | reservedRune part rune =>
    "key part " ++ Text.quoted part ++ " contains reserved rune U+"
      ++ String.ofList (runeDigits rune)
  | notComposite key => "key " ++ Text.quoted key ++ " is not a composite key"

/-- The failure as the store reports it. -/
def toStoreError : CompositeError → StoreError
  | reservedRune part rune =>
    .invalidKeyPart part (if rune = 0 then "contains the composite separator U+0000"
      else "contains the range terminator U+10FFFF")
  | notComposite key => .invalidKeyPart key "not a composite key"

end CompositeError

namespace Composite

/-- The rune is kept for the encoding itself. -/
def isReserved (c : Char) : Bool := c == separator || c == lastRune

/-- Accepts a part without reserved runes; otherwise names the first of them. -/
def checkPart (part : String) : Except CompositeError Unit :=
  match part.toList.find? isReserved with
  | some rune => .error (.reservedRune part rune.toNat)
  | none => .ok ()

/-- Accepts parts without reserved runes; otherwise names the first part that
    holds one. -/
def checkParts : List String → Except CompositeError Unit
  | [] => .ok ()
  | part :: rest =>
    match checkPart part with
    | .error error => .error error
    | .ok () => checkParts rest

/-- Every part closed by the separator. -/
def closeParts (parts : List String) : List Char :=
  parts.flatMap fun part => part.toList ++ [separator]

/-- The composite key of an object type and its attributes. -/
def encode (objectType : String) (attributes : List String) : Except CompositeError String :=
  match checkParts (objectType :: attributes) with
  | .error error => .error error
  | .ok () => .ok (String.ofList (separator :: closeParts (objectType :: attributes)))

/-- Cuts a text into the pieces that the separator closes.  `piece` holds the
    piece being read, its last character first.  Text behind the last separator
    makes no piece: `none`. -/
def splitParts : (piece : List Char) → List Char → Option (List String)
  | [], [] => some []
  | _ :: _, [] => none
  | piece, c :: rest =>
    if c = separator then (splitParts [] rest).map (String.ofList piece.reverse :: ·)
    else splitParts (c :: piece) rest

/-- The object type and attributes of a composite key.  A composite key opens
    with the separator and closes with another one. -/
def split (key : String) : Except CompositeError (String × List String) :=
  match key.toList with
  | c :: rest =>
    if c = separator then
      match splitParts [] rest with
      | some (objectType :: attributes) => .ok (objectType, attributes)
      | _ => .error (.notComposite key)
    else .error (.notComposite key)
  | [] => .error (.notComposite key)

/-- The half-open range of all keys under a partial key. -/
def range (objectType : String) (attributes : List String) :
    Except CompositeError (String × String) :=
  (encode objectType attributes).map fun start => (start, start.push lastRune)

/-- The key opens like a composite key. -/
def isComposite (key : String) : Bool := key.toList.head? == some separator

end Composite

/-! ### Ledger keys -/

/-- The ledger key of a key, where `join` makes composite keys: one part stands for
    itself, several are joined.  A single part that looks like a composite key is
    refused. -/
def Key.encodeWith (join : String → List String → Except CompositeError String)
    (key : Key) : Except StoreError String :=
  match key.parts with
  | [] => .error .emptyKey
  | [part] =>
    if Composite.isComposite part then
      .error (.invalidKeyPart part "simple key may not start with U+0000")
    else .ok part
  | objectType :: attributes =>
    (join objectType attributes).mapError CompositeError.toStoreError

/-- The ledger key of a key. -/
def Key.encode (key : Key) : Except StoreError String := key.encodeWith Composite.encode

end EntityStore
