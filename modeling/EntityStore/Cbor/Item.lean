/-
  EntityStore/Cbor/Item.lean
  ==========================
  **CBOR data items** and their one written form: definite lengths, the shortest
  head for every number and length, and the narrowest floating-point format that
  keeps the value.
-/
import EntityStore.Binary.Binary64
import EntityStore.Text.Utf8

namespace EntityStore.Cbor

/-- A data item.  A negative item holds `n` for the integer `-1 - n`. -/
inductive Item where
  | unsigned (n : Nat)
  | negative (n : Nat)
  | bytes (content : Bytes)
  | text (content : String)
  | array (items : List Item)
  | map (entries : List (Item × Item))
  | tagged (tag : Nat) (content : Item)
  | bool (b : Bool)
  | null
  | undefined
  | float (x : Binary64)

/-- The head of an item: its major type and a number, in as few bytes as hold it. -/
def head (major n : Nat) : Bytes :=
  if n < 24 then [UInt8.ofNat (major * 32 + n)]
  else if n < UInt8.size then UInt8.ofNat (major * 32 + 24) :: Bytes.bigEndian 1 n
  else if n < UInt16.size then UInt8.ofNat (major * 32 + 25) :: Bytes.bigEndian 2 n
  else if n < UInt32.size then UInt8.ofNat (major * 32 + 26) :: Bytes.bigEndian 4 n
  else UInt8.ofNat (major * 32 + 27) :: Bytes.bigEndian 8 n

/-- A floating-point number in the narrowest format that has it. -/
def floatBytes (x : Binary64) : Bytes :=
  if x.isNaN then [0xf9, 0x7e, 0x00]
  else
    match x.toNarrow? .half with
    | some bits => 0xf9 :: Bytes.bigEndian 2 bits
    | none =>
      match x.toNarrow? .single with
      | some bits => 0xfa :: Bytes.bigEndian 4 bits
      | none => 0xfb :: Bytes.bigEndian 8 x.bits.toNat

mutual

/-- The written form of an item. -/
def Item.toBytes : Item → Bytes
  | .unsigned n => head 0 n
  | .negative n => head 1 n
  | .bytes content => head 2 content.length ++ content
  | .text content => head 3 (Utf8.encode content).length ++ Utf8.encode content
  | .array items => head 4 items.length ++ itemsToBytes items
  | .map entries => head 5 entries.length ++ entriesToBytes entries
  | .tagged tag content => head 6 tag ++ content.toBytes
  | .bool false => [0xf4]
  | .bool true => [0xf5]
  | .null => [0xf6]
  | .undefined => [0xf7]
  | .float x => floatBytes x

/-- The written forms of the items of an array, one behind the other. -/
def itemsToBytes : List Item → Bytes
  | [] => []
  | item :: rest => item.toBytes ++ itemsToBytes rest

/-- The written forms of the keys and values of a map, one behind the other. -/
def entriesToBytes : List (Item × Item) → Bytes
  | [] => []
  | (key, value) :: rest => key.toBytes ++ (value.toBytes ++ entriesToBytes rest)

end

/-- An integer of at most sixty-four bits as an item. -/
def Item.ofInt (n : Int) : Item :=
  if 0 ≤ n then .unsigned n.toNat else .negative (-1 - n).toNat

/-- The item behind any tags. -/
def Item.untagged : Item → Item
  | .tagged _ content => content.untagged
  | item => item

end EntityStore.Cbor
