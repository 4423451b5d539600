/-
  EntityStore/Json/Printer.lean
  =============================
  **Compact JSON text** — no blanks, members in key order, and only those
  characters escaped that must be.
-/
import EntityStore.Json.Basic
import EntityStore.Decimal.Style
import EntityStore.Text.Utf8

namespace EntityStore.Json

/-- Floating-point numbers are written out from `0.00001` up to sixteen places
    before the point, whole ones with `.0`; a tie goes to the even digit. -/
def numberStyle : Decimal.Style where
  tie := .toEven
  positional := some (-5, 15)
  keepsPoint := true

/-- The decimal text of a whole number. -/
def intChars (n : Int) : List Char :=
  if n < 0 then '-' :: Decimal.digitChars n.natAbs else Decimal.digitChars n.natAbs

def numberChars : Number → List Char
  | .int n => intChars n
  | .float x => numberStyle.chars x

/-- A character inside a string. -/
def escapedChar (c : Char) : List Char :=
  if c = '"' then ['\\', '"']
  else if c = '\\' then ['\\', '\\']
  else if c = '\x08' then ['\\', 'b']
  else if c = '\x0c' then ['\\', 'f']
  else if c = '\n' then ['\\', 'n']
  else if c = '\r' then ['\\', 'r']
  else if c = '\t' then ['\\', 't']
  else if c.toNat < 0x20 then
    ['\\', 'u', '0', '0', Bytes.hexDigit (c.toNat / 16), Bytes.hexDigit (c.toNat % 16)]
  else [c]

def stringChars (s : String) : List Char := '"' :: s.toList.flatMap escapedChar ++ ['"']

/-- A member's key and colon. -/
def keyChars (key : String) : List Char := stringChars key ++ [':']

/-- Texts between an opening and a closing character, commas between them. -/
def listChars (opening closing : Char) : List (List Char) → List Char
  | [] => [opening, closing]
  | first :: rest => opening :: first ++ rest.flatMap (',' :: ·) ++ [closing]

mutual

/-- The text of a value. -/
def chars : Json → List Char
  | null => ['n', 'u', 'l', 'l']
  | bool true => ['t', 'r', 'u', 'e']
  | bool false => ['f', 'a', 'l', 's', 'e']
  | num n => numberChars n
  | str s => stringChars s
  | arr items => listChars '[' ']' (itemChars items)
  | obj members => listChars '\x7b' '\x7d' (memberChars members)

/-- The texts of the items of an array. -/
def itemChars : List Json → List (List Char)
  | [] => []
  | item :: rest => chars item :: itemChars rest

/-- The texts of the members of an object. -/
def memberChars : List (String × Json) → List (List Char)
  | [] => []
  | (key, value) :: rest => (keyChars key ++ chars value) :: memberChars rest

end

/-- The text of a value. -/
def render (value : Json) : String := String.ofList value.chars

/-- The text of a value as a payload. -/
def toBytes (value : Json) : Bytes := Utf8.encode value.render

end EntityStore.Json
