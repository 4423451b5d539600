/-
  EntityStore/Text/Utf8.lean
  ==========================
  **UTF-8** — text to bytes, and bytes to text with a diagnosis.

  A byte sequence that is no text is refused at the first character that cannot
  be completed.  The diagnosis gives the index at which that character begins
  and, unless the input merely ended inside it, how many of its bytes were still
  the start of some character.
-/
import EntityStore.Bytes

namespace EntityStore.Utf8

/-- The bytes of a text. -/
def encode (text : String) : Bytes := text.toList.flatMap String.utf8EncodeChar

/-- Why a byte sequence is not text. -/
inductive Fault where
  /-- The `length` bytes at `index` begin no character. -/
  | invalid (index length : Nat)
  /-- The input ends inside the character that begins at `index`. -/
  | incomplete (index : Nat)
deriving DecidableEq

def Fault.message : Fault → String
  | .invalid index length => s!"invalid utf-8 sequence of {length} bytes from index {index}"
  | .incomplete index => s!"incomplete utf-8 byte sequence from index {index}"

/-- Where a reader stands between two bytes. -/
inductive Place where
  /-- Between two characters. -/
  | between
  /-- Inside a character: `seen` bytes are read and carry `value`, `missing` + 1
      are still to come, and the next lies between `low` and `high`. -/
  | inside (seen value missing : Nat) (low high : UInt8)
deriving DecidableEq

/-- Where the first byte of a character leads, if any character begins with it.
    Four first bytes narrow the range of the second: the others would give an
    overlong form, a surrogate, or a number above the last code point. -/
def Place.ofFirst (b : UInt8) : Option Place :=
  if b < 0xC2 then none
  else if b < 0xE0 then some (.inside 1 (b.toNat - 0xC0) 0 0x80 0xBF)
  else if b < 0xF0 then
    some (.inside 1 (b.toNat - 0xE0) 1 (if b = 0xE0 then 0xA0 else 0x80)
      (if b = 0xED then 0x9F else 0xBF))
  else if b < 0xF5 then
    some (.inside 1 (b.toNat - 0xF0) 2 (if b = 0xF0 then 0x90 else 0x80)
      (if b = 0xF4 then 0x8F else 0xBF))
  else none

/-- Reads on from a place.  `index` counts the bytes read so far and `done` holds
    the characters read so far, the last one first. -/
def decodeFrom : Place → (index : Nat) → (done : List Char) → Bytes → Except Fault (List Char)
  | .between, _, done, [] => .ok done.reverse
  | .inside seen _ _ _ _, index, _, [] => .error (.incomplete (index - seen))
  | .between, index, done, b :: rest =>
    if b < 0x80 then decodeFrom .between (index + 1) (Char.ofNat b.toNat :: done) rest
    else
      match Place.ofFirst b with
      | some place => decodeFrom place (index + 1) done rest
      | none => .error (.invalid index 1)
  | .inside seen value missing low high, index, done, b :: rest =>
    if low ≤ b ∧ b ≤ high then
      let value := value * 64 + (b.toNat - 0x80)
      match missing with
      | 0 => decodeFrom .between (index + 1) (Char.ofNat value :: done) rest
      | missing + 1 =>
        decodeFrom (.inside (seen + 1) value missing 0x80 0xBF) (index + 1) done rest
    else .error (.invalid (index - seen) seen)

/-- The text that a byte sequence holds. -/
def decode (bytes : Bytes) : Except Fault String :=
  (decodeFrom .between 0 [] bytes).map String.ofList

/-- The text that a byte sequence holds, if it holds one. -/
def decode? (bytes : Bytes) : Option String := (decode bytes).toOption

end EntityStore.Utf8
