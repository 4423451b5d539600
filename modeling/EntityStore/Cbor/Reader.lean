/-
  EntityStore/Cbor/Reader.lean
  ============================
  **Reading CBOR** — every form that the format allows for an item: definite and
  indefinite lengths, heads of any width, and tags.
-/
import EntityStore.Cbor.Item

namespace EntityStore.Cbor

/-- The number in a head whose low five bits are `info`, and the input behind it. -/
def readArgument (info : Nat) (input : Bytes) : Option (Nat × Bytes) :=
  let wide (width : Nat) : Option (Nat × Bytes) :=
    if width ≤ input.length then
      some (Bytes.toNatBigEndian (input.take width), input.drop width)
    else none
  if info < 24 then some (info, input)
  else if info = 24 then wide 1
  else if info = 25 then wide 2
  else if info = 26 then wide 4
  else if info = 27 then wide 8
  else none

/-- The first `count` bytes and the input behind them. -/
def readContent (count : Nat) (input : Bytes) : Option (Bytes × Bytes) :=
  if count ≤ input.length then some (input.take count, input.drop count) else none

/-- The chunks of a string of indefinite length, joined; each is a string of the
    same major type and of definite length.  `fuel` bounds the chunks. -/
def readChunks (major : Nat) : (fuel : Nat) → Bytes → Option (Bytes × Bytes)
  | 0, _ => none
  | _, [] => none
  | fuel + 1, b :: rest =>
    if b = 0xff then some ([], rest)
    else if b.toNat / 32 = major then do
      let (count, rest) ← readArgument (b.toNat % 32) rest
      let (chunk, rest) ← readContent count rest
      let (more, rest) ← readChunks major fuel rest
      return (chunk ++ more, rest)
    else none

/-- A string of one of the two kinds: its content, of definite or indefinite
    length. -/
def readString (major info : Nat) (input : Bytes) : Option (Bytes × Bytes) :=
  if info = 31 then readChunks major (input.length + 1) input
  else do
    let (count, rest) ← readArgument info input
    readContent count rest

/-- Numbers and simple values: what the low five bits of the head announce. -/
def readSimple (info : Nat) (input : Bytes) : Option (Item × Bytes) :=
  if info = 20 then some (.bool false, input)
  else if info = 21 then some (.bool true, input)
  else if info = 22 then some (.null, input)
  else if info = 23 then some (.undefined, input)
  else if info = 25 ∨ info = 26 ∨ info = 27 then do
    let (bits, rest) ← readArgument info input
    let x :=
      if info = 25 then Binary64.ofNarrow .half bits
      else if info = 26 then Binary64.ofNarrow .single bits
      else ⟨UInt64.ofNat bits⟩
    return (.float x, rest)
  else none

mutual

/-- The item at the head of the input.  `depth` bounds the nesting of arrays, maps
    and tags; `fuel` bounds the work and is never short when it starts above
    twice the length of the input. -/
def readItem : (fuel depth : Nat) → Bytes → Option (Item × Bytes)
  | 0, _, _ => none
  | _, _, [] => none
  | fuel + 1, depth, b :: rest =>
    let info := b.toNat % 32
    match b.toNat / 32 with
    | 0 => (readArgument info rest).map fun (n, rest) => (.unsigned n, rest)
    | 1 => (readArgument info rest).map fun (n, rest) => (.negative n, rest)
    | 2 => (readString 2 info rest).map fun (content, rest) => (.bytes content, rest)
    | 3 =>
      match readString 3 info rest with
      | none => none
      | some (content, rest) => (Utf8.decode? content).map fun text => (.text text, rest)
    | 4 =>
      match depth with
      | 0 => none
      | depth + 1 =>
        if info = 31 then
          (readOpenItems fuel depth rest).map fun (items, rest) => (.array items, rest)
        else
          match readArgument info rest with
          | none => none
          | some (count, rest) =>
            (readItems fuel depth count rest).map fun (items, rest) => (.array items, rest)
    | 5 =>
      match depth with
      | 0 => none
      | depth + 1 =>
        if info = 31 then
          (readOpenEntries fuel depth rest).map fun (entries, rest) => (.map entries, rest)
        else
          match readArgument info rest with
          | none => none
          | some (count, rest) =>
            (readEntries fuel depth count rest).map fun (entries, rest) => (.map entries, rest)
    | 6 =>
      match depth with
      | 0 => none
      | depth + 1 =>
        match readArgument info rest with
        | none => none
        | some (tag, rest) =>
          (readItem fuel depth rest).map fun (item, rest) => (.tagged tag item, rest)
    | _ => readSimple info rest
termination_by structural fuel => fuel

/-- `count` items. -/
def readItems : (fuel depth count : Nat) → Bytes → Option (List Item × Bytes)
  | _, _, 0, input => some ([], input)
  | 0, _, _, _ => none
  | fuel + 1, depth, count + 1, input =>
    match readItem fuel depth input with
    | none => none
    | some (item, rest) =>
      (readItems fuel depth count rest).map fun (items, rest) => (item :: items, rest)
termination_by structural fuel => fuel

/-- Items up to a break. -/
def readOpenItems : (fuel depth : Nat) → Bytes → Option (List Item × Bytes)
  | 0, _, _ => none
  | _, _, 0xff :: rest => some ([], rest)
  | fuel + 1, depth, input =>
    match readItem fuel depth input with
    | none => none
    | some (item, rest) =>
      (readOpenItems fuel depth rest).map fun (items, rest) => (item :: items, rest)
termination_by structural fuel => fuel

/-- `count` keys, each with its value. -/
def readEntries : (fuel depth count : Nat) → Bytes → Option (List (Item × Item) × Bytes)
  | _, _, 0, input => some ([], input)
  | 0, _, _, _ => none
  | fuel + 1, depth, count + 1, input =>
    match readItem fuel depth input with
    | none => none
    | some (key, rest) =>
      match readItem fuel depth rest with
      | none => none
      | some (value, rest) =>
        (readEntries fuel depth count rest).map fun (entries, rest) =>
          ((key, value) :: entries, rest)
termination_by structural fuel => fuel

/-- Keys and values up to a break. -/
def readOpenEntries : (fuel depth : Nat) → Bytes → Option (List (Item × Item) × Bytes)
  | 0, _, _ => none
  | _, _, 0xff :: rest => some ([], rest)
  | fuel + 1, depth, input =>
    match readItem fuel depth input with
    | none => none
    | some (key, rest) =>
      match readItem fuel depth rest with
      | none => none
      | some (value, rest) =>
        (readOpenEntries fuel depth rest).map fun (entries, rest) =>
          ((key, value) :: entries, rest)
termination_by structural fuel => fuel

end

/-- How many arrays, maps and tags may stand inside one another. -/
def depthLimit : Nat := 127

/-- The one item that a payload holds. -/
def Item.ofBytes? (input : Bytes) : Option Item :=
  match readItem (2 * input.length + 2) depthLimit input with
  | some (item, []) => some item
  | _ => none

/-! ### What an item stands for -/

namespace Item

/-- An integer of sixty-four bits, signed or unsigned. -/
def int? (item : Item) : Option Int :=
  match item.untagged with
  | .unsigned n => some n
  | .negative n => if Int64.minValue.toInt ≤ -1 - n then some (-1 - n) else none
  | _ => none

/-- A floating-point number, or the nearest one to an integer. -/
def float? (item : Item) : Option Binary64 :=
  match item.untagged with
  | .float x => some x
  | _ => item.int?.map .ofInt

/-- A text, or a byte string that holds one. -/
def text? (item : Item) : Option String :=
  match item.untagged with
  | .text content => some content
  | .bytes content => Utf8.decode? content
  | _ => none

/-- A list of texts. -/
def texts? (item : Item) : Option (List String) :=
  match item.untagged with
  | .array items => items.mapM text?
  | _ => none

end Item

end EntityStore.Cbor
