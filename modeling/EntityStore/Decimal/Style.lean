/-
  EntityStore/Decimal/Style.lean
  ==============================
  **Number styles** — where a decimal is written out in full and where with an
  exponent, and whether whole numbers show a point.
-/
import EntityStore.Decimal.Shortest

namespace EntityStore.Decimal

/-- The decisions of a way to write numbers. -/
structure Style where
  tie : Tie
  /-- The exponents of the leading digit for which every digit is written out;
      all exponents where no range is given. -/
  positional : Option (Int × Int)
  /-- Whole numbers end in `.0`. -/
  keepsPoint : Bool

/-- The digits written out around the decimal point; `lead` is the exponent of
    the leading digit. -/
def positionalChars (keepsPoint : Bool) (digits : List Char) (lead : Int) : List Char :=
  if lead < 0 then ['0', '.'] ++ List.replicate (-lead - 1).toNat '0' ++ digits
  else
    let whole := lead.toNat + 1
    if digits.length ≤ whole then
      digits ++ List.replicate (whole - digits.length) '0'
        ++ (if keepsPoint then ['.', '0'] else [])
    else digits.take whole ++ '.' :: digits.drop whole

/-- One digit before the point and a signed exponent. -/
def exponentChars (digits : List Char) (lead : Int) : List Char :=
  let mantissa :=
    match digits with
    | first :: second :: rest => first :: '.' :: second :: rest
    | short => short
  mantissa ++ ['e', if lead < 0 then '-' else '+'] ++ digitChars lead.natAbs

/-- The digits of a decimal in a style. -/
def Style.decimalChars (style : Style) (d : Decimal) : List Char :=
  let digits := digitChars d.digits
  let lead := d.exponent + digits.length - 1
  match style.positional with
  | none => positionalChars style.keepsPoint digits lead
  | some (low, high) =>
    if low ≤ lead ∧ lead ≤ high then positionalChars style.keepsPoint digits lead
    else exponentChars digits lead

/-- A finite number in a style: its sign and its shortest decimal. -/
def Style.chars (style : Style) (x : Binary64) : List Char :=
  (if x.negative then ['-'] else []) ++ style.decimalChars (shortest style.tie x)

end EntityStore.Decimal
