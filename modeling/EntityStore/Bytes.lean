/-
  EntityStore/Bytes.lean
  ======================
  **Byte sequences** — the form in which every payload is stored.  A payload is
  a list, so that encoders and decoders are recursive functions on it.
-/

namespace EntityStore

-- Powers of naturals are the core ones, whatever else is in scope.
attribute [local instance (high)] instPowNat instNatPowNat

/-- A payload, or any other sequence of bytes. -/
abbrev Bytes := List UInt8

namespace Bytes

/-- The lowercase hexadecimal digit of a number below sixteen. -/
def hexDigit (n : Nat) : Char :=
  if n < 10 then Char.ofNat (48 + n) else Char.ofNat (87 + n)

/-- Two lowercase hexadecimal digits for each byte. -/
def toHexDigits (bytes : Bytes) : List Char :=
  bytes.flatMap fun b => [hexDigit (b.toNat / 16), hexDigit (b.toNat % 16)]

/-- Lowercase hexadecimal text. -/
def toHex (bytes : Bytes) : String := String.ofList bytes.toHexDigits

/-- The `width` low bytes of a number, the most significant first. -/
def bigEndian : (width : Nat) → Nat → Bytes
  | 0, _ => []
  | width + 1, n => UInt8.ofNat (n / 256 ^ width) :: bigEndian width n

/-- The number that a byte sequence stands for, the most significant byte first. -/
def toNatBigEndian (bytes : Bytes) : Nat :=
  bytes.foldl (fun n b => n * 256 + b.toNat) 0

@[simp] theorem length_bigEndian (width n : Nat) : (bigEndian width n).length = width := by
  induction width with
  | zero => rfl
  | succ width ih => simp [bigEndian, ih]

end Bytes

end EntityStore
