/-
  EntityStore/Config/Settings.lean
  ================================
  **Flat settings documents** — lines of `name = value` in TOML, with comments and
  blank lines between them.

  Values are integers, strings and choices.  A choice may stand in sections of its
  own, behind the lines.  Everything else of the format (larger tables, arrays,
  dates, floating-point numbers) has no place in flat settings and is refused like
  a malformed line.
-/

namespace EntityStore.Settings

/-- What a setting may be set to. -/
inductive Value where
  | integer (n : Int)
  | text (s : String)
  /-- A table whose one member is empty: the member's name is the choice.  It stands
      between braces, behind the setting's name and a point, or in sections. -/
  | choice (name : String)
deriving DecidableEq

/-! ### Lines and blanks -/

def isSpace (c : Char) : Bool := c == ' ' || c == '\t'

def skipSpaces (chars : List Char) : List Char := chars.dropWhile isSpace

/-- Control characters other than the tab, which no comment or string may hold. -/
def isControl (c : Char) : Bool := (c.toNat < 0x20 && c != '\t') || c.toNat == 0x7f

/-- The input behind the line that a comment ends. -/
def skipComment : List Char → Option (List Char)
  | [] => some []
  | '\n' :: rest => some rest
  | '\r' :: '\n' :: rest => some rest
  | c :: rest => if isControl c then none else skipComment rest

/-- The input behind a line on which nothing but a comment is left. -/
def skipLineEnd (chars : List Char) : Option (List Char) :=
  match skipSpaces chars with
  | [] => some []
  | '\n' :: rest => some rest
  | '\r' :: '\n' :: rest => some rest
  | '#' :: rest => skipComment rest
  | _ => none

/-- The input behind blanks, line ends and comments.  `fuel` bounds the lines. -/
def skipBlankLines : (fuel : Nat) → List Char → Option (List Char)
  | 0, _ => none
  | fuel + 1, chars =>
    match skipLineEnd chars with
    | some [] => some []
    | some rest => skipBlankLines fuel rest
    | none => some (skipSpaces chars)

/-- The input behind everything that may stand between the parts of a table or an
    array. -/
def skipBetween (chars : List Char) : Option (List Char) :=
  skipBlankLines (chars.length + 1) chars

/-! ### Strings -/

/-- The value of a digit in a base up to sixteen. -/
def digit? (base : Nat) (c : Char) : Option Nat :=
  let value :=
    if '0' ≤ c ∧ c ≤ '9' then c.toNat - 48
    else if 'a' ≤ c ∧ c ≤ 'f' then c.toNat - 87
    else if 'A' ≤ c ∧ c ≤ 'F' then c.toNat - 55
    else base
  if value < base then some value else none

/-- The character whose number `count` hexadecimal digits give, and the input behind
    them. -/
def readCodePoint : (count value : Nat) → List Char → Option (Char × List Char)
  | 0, value, rest =>
    if h : value.isValidChar then some (Char.ofNatAux value h, rest) else none
  | _ + 1, _, [] => none
  | count + 1, value, c :: rest =>
    match digit? 16 c with
    | some d => readCodePoint count (value * 16 + d) rest
    | none => none

/-- The character of an escape, behind its backslash. -/
def readEscape : List Char → Option (Char × List Char)
  | 'b' :: rest => some ('\x08', rest)
  | 't' :: rest => some ('\t', rest)
  | 'n' :: rest => some ('\n', rest)
  | 'f' :: rest => some ('\x0c', rest)
  | 'r' :: rest => some ('\r', rest)
  | 'e' :: rest => some ('\x1b', rest)
  | '"' :: rest => some ('"', rest)
  | '\\' :: rest => some ('\\', rest)
  | 'x' :: rest => readCodePoint 2 0 rest
  | 'u' :: rest => readCodePoint 4 0 rest
  | 'U' :: rest => readCodePoint 8 0 rest
  | _ => none

/-- The input behind spaces and line ends. -/
def skipSpacesAndLineEnds : List Char → List Char
  | [] => []
  | '\n' :: rest => skipSpacesAndLineEnds rest
  | '\r' :: '\n' :: rest => skipSpacesAndLineEnds rest
  | c :: rest => if isSpace c then skipSpacesAndLineEnds rest else c :: rest

/-- The input behind a backslash that joins lines: spaces up to the end of the line,
    then every space and line end before the next character. -/
def skipJoin (chars : List Char) : Option (List Char) :=
  match skipSpaces chars with
  | '\n' :: rest => some (skipSpacesAndLineEnds rest)
  | '\r' :: '\n' :: rest => some (skipSpacesAndLineEnds rest)
  | _ => none

/-- A string with escapes behind its opening quote.  `fuel` bounds its length. -/
def readBasic : (fuel : Nat) → List Char → Option (List Char × List Char)
  | 0, _ => none
  | _, [] => none
  | _, '"' :: rest => some ([], rest)
  | fuel + 1, '\\' :: rest =>
    match readEscape rest with
    | some (c, rest) => (readBasic fuel rest).map fun (text, rest) => (c :: text, rest)
    | none => none
  | fuel + 1, c :: rest =>
    if isControl c then none
    else (readBasic fuel rest).map fun (text, rest) => (c :: text, rest)

/-- A string with escapes over several lines, behind its three opening quotes. -/
def readBasicLines : (fuel : Nat) → List Char → Option (List Char × List Char)
  | 0, _ => none
  | _, [] => none
  | _, '"' :: '"' :: '"' :: rest => some ([], rest)
  | fuel + 1, '\\' :: rest =>
    match skipJoin rest with
    | some rest => readBasicLines fuel rest
    | none =>
      match readEscape rest with
      | some (c, rest) => (readBasicLines fuel rest).map fun (text, rest) => (c :: text, rest)
      | none => none
  | fuel + 1, '\r' :: '\n' :: rest =>
    (readBasicLines fuel rest).map fun (text, rest) => ('\n' :: text, rest)
  | fuel + 1, c :: rest =>
    if isControl c && c != '\n' then none
    else (readBasicLines fuel rest).map fun (text, rest) => (c :: text, rest)

/-- A string without escapes behind its opening quote. -/
def readLiteral : List Char → Option (List Char × List Char)
  | [] => none
  | '\'' :: rest => some ([], rest)
  | c :: rest =>
    if isControl c then none
    else (readLiteral rest).map fun (text, rest) => (c :: text, rest)

/-- A string without escapes over several lines, behind its three opening quotes. -/
def readLiteralLines : List Char → Option (List Char × List Char)
  | [] => none
  | '\'' :: '\'' :: '\'' :: rest => some ([], rest)
  | '\r' :: '\n' :: rest => (readLiteralLines rest).map fun (text, rest) => ('\n' :: text, rest)
  | c :: rest =>
    if isControl c && c != '\n' then none
    else (readLiteralLines rest).map fun (text, rest) => (c :: text, rest)

/-- A line end directly behind three opening quotes is no part of the string. -/
def skipFirstLineEnd : List Char → List Char
  | '\n' :: rest => rest
  | '\r' :: '\n' :: rest => rest
  | rest => rest

/-! ### Names and values -/

def isNameChar (c : Char) : Bool := c.isAlphanum || c == '_' || c == '-'

/-- The name of a setting: bare, or a string on one line. -/
def readName (chars : List Char) : Option (String × List Char) :=
  match chars with
  | '"' :: rest =>
    (readBasic (rest.length + 1) rest).map fun (text, rest) => (String.ofList text, rest)
  | '\'' :: rest => (readLiteral rest).map fun (text, rest) => (String.ofList text, rest)
  | chars =>
    match chars.span isNameChar with
    | ([], _) => none
    | (name, rest) => some (String.ofList name, rest)

/-- Digits of a base, with single underscores between them. -/
def readDigits (base : Nat) : (value : Nat) → List Char → Option Nat
  | _, [] => none
  | value, [c] => (digit? base c).map (value * base + ·)
  | value, c :: '_' :: rest =>
    match digit? base c with
    | some d => readDigits base (value * base + d) rest
    | none => none
  | value, c :: rest =>
    match digit? base c with
    | some d => readDigits base (value * base + d) rest
    | none => none

/-- Decimal digits, of which the first is zero only if it is the only one. -/
def readDecimal : List Char → Option Nat
  | ['0'] => some 0
  | '0' :: _ => none
  | digits => readDigits 10 0 digits

/-- An integer: decimal with an optional sign, or of base sixteen, eight or two. -/
def readInteger : List Char → Option Int
  | '0' :: 'x' :: digits => (readDigits 16 0 digits).map Int.ofNat
  | '0' :: 'o' :: digits => (readDigits 8 0 digits).map Int.ofNat
  | '0' :: 'b' :: digits => (readDigits 2 0 digits).map Int.ofNat
  | '+' :: digits => (readDecimal digits).map Int.ofNat
  | '-' :: digits => (readDecimal digits).map fun n => -(n : Int)
  | digits => (readDecimal digits).map Int.ofNat

/-- The input behind an empty table or an empty array. -/
def skipEmpty : List Char → Option (List Char)
  | '\x7b' :: rest =>
    match skipBetween rest with
    | some ('\x7d' :: rest) => some rest
    | _ => none
  | '[' :: rest =>
    match skipBetween rest with
    | some (']' :: rest) => some rest
    | _ => none
  | _ => none

/-- The name of a choice that is set to something empty.  `skip` passes over what may
    stand in front of the name and around the equals sign. -/
def readChoice (skip : List Char → Option (List Char)) (chars : List Char) :
    Option (String × List Char) := do
  let (name, rest) ← readName (← skip chars)
  match ← skip rest with
  | '=' :: rest => return (name, ← skipEmpty (← skip rest))
  | _ => none

/-- A choice on a line of its own or behind a point: its parts stand on one line. -/
def readLineChoice (chars : List Char) : Option (String × List Char) :=
  readChoice (fun chars => some (skipSpaces chars)) chars

/-- A choice between braces, behind the opening one.  Its parts may stand on lines of
    their own, and a comma may follow it. -/
def readBracedChoice (chars : List Char) : Option (String × List Char) := do
  let (name, rest) ← readChoice skipBetween chars
  let rest ← skipBetween rest
  let rest ←
    match rest with
    | ',' :: rest => skipBetween rest
    | rest => some rest
  match rest with
  | '\x7d' :: rest => return (name, rest)
  | _ => none

def readValue (chars : List Char) : Option (Value × List Char) :=
  let asText (found : List Char × List Char) : Value × List Char :=
    (.text (String.ofList found.1), found.2)
  match chars with
  | '"' :: '"' :: '"' :: rest =>
    (readBasicLines (rest.length + 1) (skipFirstLineEnd rest)).map asText
  | '"' :: rest => (readBasic (rest.length + 1) rest).map asText
  | '\'' :: '\'' :: '\'' :: rest => (readLiteralLines (skipFirstLineEnd rest)).map asText
  | '\'' :: rest => (readLiteral rest).map asText
  | '\x7b' :: rest => (readBracedChoice rest).map fun (name, rest) => (.choice name, rest)
  | chars =>
    let (digits, rest) := chars.span fun c => isNameChar c || c == '+'
    (readInteger digits).map fun n => (.integer n, rest)

/-! ### Sections -/

/-- A section: the setting that its header names, and the choices that stand in the
    header or in its lines. -/
structure Section where
  setting : String
  /-- The header names the setting alone. -/
  ofSetting : Bool
  choices : List String
deriving DecidableEq

/-- A section's header behind its bracket: a setting, or a setting and a choice. -/
def readHeader (chars : List Char) : Option (Section × List Char) := do
  let (setting, rest) ← readName (skipSpaces chars)
  match skipSpaces rest with
  | ']' :: rest => return (⟨setting, true, []⟩, ← skipLineEnd rest)
  | '.' :: rest =>
    let (choice, rest) ← readName (skipSpaces rest)
    match skipSpaces rest with
    | ']' :: rest => return (⟨setting, false, [choice]⟩, ← skipLineEnd rest)
    | _ => none
  | _ => none

/-- The rest of a section, and the sections behind it.  `fuel` bounds the lines. -/
def readSections : (fuel : Nat) → Section → List Char → Option (List Section)
  | 0, _, _ => none
  | _, current, [] => some [current]
  | fuel + 1, current, chars =>
    match skipLineEnd chars with
    | some rest => readSections fuel current rest
    | none =>
      match skipSpaces chars with
      | '[' :: rest => do
        let (next, rest) ← readHeader rest
        return current :: (← readSections fuel next rest)
      | chars => do
        let (choice, rest) ← readLineChoice chars
        let current := { current with choices := current.choices ++ [choice] }
        readSections fuel current (← skipLineEnd rest)

/-- A setting that sections choose: they hold one choice together, and at most one
    header names the setting alone. -/
def chosen? (sections : List Section) (setting : String) : Option (String × Value) :=
  let own := sections.filter (·.setting == setting)
  match own.flatMap (·.choices) with
  | [choice] => if own.countP (·.ofSetting) ≤ 1 then some (setting, .choice choice) else none
  | _ => none

/-- The settings that sections choose. -/
def settingsOf? (sections : List Section) : Option (List (String × Value)) :=
  (sections.map (·.setting)).eraseDups.mapM (chosen? sections)

/-! ### Documents -/

/-- A line that is neither blank nor a header: a setting and its value. -/
def readSetting (chars : List Char) : Option ((String × Value) × List Char) := do
  let (name, rest) ← readName chars
  match skipSpaces rest with
  | '=' :: rest =>
    let (value, rest) ← readValue (skipSpaces rest)
    return ((name, value), ← skipLineEnd rest)
  | '.' :: rest =>
    let (choice, rest) ← readLineChoice rest
    return ((name, .choice choice), ← skipLineEnd rest)
  | _ => none

/-- The settings of a document in their order.  `fuel` bounds the lines. -/
def readLines : (fuel : Nat) → List Char → Option (List (String × Value))
  | 0, _ => none
  | _, [] => some []
  | fuel + 1, chars =>
    match skipLineEnd chars with
    | some rest => readLines fuel rest
    | none =>
      match skipSpaces chars with
      | '[' :: rest => do
        let (first, rest) ← readHeader rest
        settingsOf? (← readSections fuel first rest)
      | chars => do
        let (setting, rest) ← readSetting chars
        return setting :: (← readLines fuel rest)

/-- The settings of a document, which may begin with a byte order mark. -/
def ofText? (document : String) : Option (List (String × Value)) :=
  let chars :=
    match document.toList with
    | '\ufeff' :: rest => rest
    | chars => chars
  readLines (chars.length + 1) chars

end EntityStore.Settings
