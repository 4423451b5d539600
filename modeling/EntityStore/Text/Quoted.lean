/-
  EntityStore/Text/Quoted.lean
  ============================
  **Quoted text** — how keys, bookmarks and namespaces are shown inside messages:
  between double quotes, on one line, and with every character visible.
-/
import EntityStore.Bytes
import EntityStore.Text.Unprintable

namespace EntityStore.Text

/-- The hexadecimal digits of a number, without leading zeros. -/
def hexDigits (n : Nat) : List Char := (Nat.toDigits 16 n)

/-- A character inside quotes: a short escape where there is one, its number in
    braces where it does not show on its own, and otherwise the character. -/
def quotedChar (c : Char) : List Char :=
  if c = '\x00' then ['\\', '0']
  else if c = '\t' then ['\\', 't']
  else if c = '\n' then ['\\', 'n']
  else if c = '\r' then ['\\', 'r']
  else if c = '\\' then ['\\', '\\']
  else if c = '"' then ['\\', '"']
  else if isUnprintable c then ['\\', 'u', '\x7b'] ++ hexDigits c.toNat ++ ['\x7d']
  else [c]

/-- The text between double quotes. -/
def quoted (text : String) : String :=
  String.ofList ('"' :: text.toList.flatMap quotedChar ++ ['"'])

end EntityStore.Text
