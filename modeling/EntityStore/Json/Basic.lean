/-
  EntityStore/Json/Basic.lean
  ===========================
  **JSON values** — documents, the queries over them, and record payloads.

  An object lists its members in key order.  Whole numbers and floating-point
  numbers are different values even where they are numerically equal; the two
  floating-point zeros are one value.
-/
import EntityStore.Binary.Binary64
import EntityStore.OrderedMap

namespace EntityStore

/-- A number of a document: whole, or with a fraction or exponent. -/
inductive Number where
  | int (n : Int)
  | float (x : Binary64)
deriving DecidableEq

namespace Number

/-- Equality of numbers, which never crosses the two kinds. -/
def same : Number → Number → Bool
  | int m, int n => m == n
  | float x, float y => x.sameValue y
  | _, _ => false

/-- The nearest floating-point number. -/
def toBinary64 : Number → Binary64
  | int n => .ofInt n
  | float x => x

end Number

/-- A JSON value. -/
inductive Json where
  | null
  | bool (b : Bool)
  | num (n : Number)
  | str (s : String)
  | arr (items : List Json)
  | obj (members : List (String × Json))

namespace Json

/-! ### Equality -/

mutual

/-- Equality of values. -/
def same : Json → Json → Bool
  | null, null => true
  | bool a, bool b => a == b
  | num a, num b => a.same b
  | str a, str b => a == b
  | arr xs, arr ys => sameItems xs ys
  | obj xs, obj ys => sameMembers xs ys
  | _, _ => false

/-- Equal items at equal places. -/
def sameItems : List Json → List Json → Bool
  | [], [] => true
  | x :: xs, y :: ys => same x y && sameItems xs ys
  | _, _ => false

/-- Equal members at equal places. -/
def sameMembers : List (String × Json) → List (String × Json) → Bool
  | [], [] => true
  | (k, x) :: xs, (l, y) :: ys => k == l && same x y && sameMembers xs ys
  | _, _ => false

end

/-! ### Parts of a value -/

def isObj : Json → Bool
  | obj _ => true
  | _ => false

def members? : Json → Option (List (String × Json))
  | obj members => some members
  | _ => none

def items? : Json → Option (List Json)
  | arr items => some items
  | _ => none

def text? : Json → Option String
  | str s => some s
  | _ => none

def bool? : Json → Option Bool
  | bool b => some b
  | _ => none

/-- A whole number that fits sixty-four bits. -/
def count? : Json → Option Nat
  | num (.int n) => if 0 ≤ n ∧ n < UInt64.size then some n.toNat else none
  | _ => none

/-- An object of members given in any order; the last of several with one key
    stays. -/
def ofMembers (members : List (String × Json)) : Json := obj (Assoc.insertAll members [])

/-- An object with one member. -/
def single (key : String) (value : Json) : Json := obj [(key, value)]

/-- The natural number as a value. -/
def ofNat (n : Nat) : Json := num (.int n)

/-- The texts as an array. -/
def ofTexts (texts : List String) : Json := arr (texts.map str)

end Json

end EntityStore
