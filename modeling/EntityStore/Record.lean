/-
  EntityStore/Record.lean
  =======================
  **Records** — values with named fields, as JSON documents and as CBOR maps.

  A shape lists the fields in their order of declaration, which is the order in
  which they are written.  A reader takes them in any order, passes over fields
  it does not know, and also takes a bare list of all fields in declaration
  order.
-/
import EntityStore.Cbor.Json
import EntityStore.Json.Printer
import EntityStore.Json.Reader

namespace EntityStore

/-- What a field may hold. -/
inductive FieldKind where
  | text
  | word32
  /-- Text, null, or nothing at all. -/
  | optionalText
  | texts
deriving DecidableEq

/-- What a field holds. -/
inductive FieldValue where
  | text (s : String)
  | word32 (n : UInt32)
  | absent
  | texts (items : List String)
deriving DecidableEq

/-- A named field. -/
structure Field where
  name : String
  kind : FieldKind
deriving DecidableEq

namespace FieldValue

def toJson : FieldValue → Json
  | text s => .str s
  | word32 n => .ofNat n.toNat
  | absent => .null
  | texts items => .ofTexts items

def toItem : FieldValue → Cbor.Item
  | text s => .text s
  | word32 n => .unsigned n.toNat
  | absent => .null
  | texts items => .array (items.map .text)

/-- A whole number as a thirty-two bit field. -/
def ofInt? (n : Int) : Option FieldValue :=
  if 0 ≤ n ∧ n < UInt32.size then some (.word32 (UInt32.ofNat n.toNat)) else none

/-- The text of a written string. -/
def writtenText? : Json.Written → Option String
  | .text raw => Json.textOfRaw? raw
  | _ => none

/-- The content of a field of a written document. -/
def ofWritten? : FieldKind → Json.Written → Option FieldValue
  | .text, .text raw => (Json.textOfRaw? raw).map .text
  | .word32, .number n =>
    match n.value? with
    | some (.int n) => ofInt? n
    | _ => none
  | .optionalText, .null => some .absent
  | .optionalText, .text raw => (Json.textOfRaw? raw).map .text
  | .texts, .array items => (items.mapM writtenText?).map .texts
  | _, _ => none

/-- The content of a field of an item.  Only a plain null leaves an optional field
    without content. -/
def ofItem? : FieldKind → Cbor.Item → Option FieldValue
  | .text, item => item.text?.map .text
  | .word32, item => item.int?.bind ofInt?
  | .optionalText, .null => some .absent
  | .optionalText, item => item.text?.map .text
  | .texts, item => item.texts?.map .texts

end FieldValue

/-- How the values of a type are taken apart into fields and put together again. -/
structure RecordShape (α : Type) where
  fields : List Field
  toValues : α → List FieldValue
  ofValues? : List FieldValue → Option α

namespace RecordShape

variable {α δ : Type} (shape : RecordShape α)

/-! ### Writing -/

/-- The record as a document: its fields in declaration order. -/
def toJson (record : α) : Json :=
  .obj ((shape.fields.map Field.name).zip ((shape.toValues record).map FieldValue.toJson))

/-- The record as an item: a map with the field names as keys. -/
def toItem (record : α) : Cbor.Item :=
  .map ((shape.fields.map fun field => Cbor.Item.text field.name).zip
    ((shape.toValues record).map FieldValue.toItem))

/-! ### Reading -/

/-- The content of one field among entries that carry the position of their field,
    if they belong to one.  A field may be missing only if it is optional, and
    none may occur twice. -/
def valueAt? (read : FieldKind → δ → Option FieldValue) (entries : List (Option Nat × δ))
    (kind : FieldKind) (position : Nat) : Option FieldValue :=
  match entries.filter fun entry => entry.1 = some position with
  | [] => if kind = .optionalText then some .absent else none
  | [(_, content)] => read kind content
  | _ => none

/-- A record from entries in any order. -/
def ofEntries? (read : FieldKind → δ → Option FieldValue) (entries : List (Option Nat × δ)) :
    Option α :=
  (shape.fields.zipIdx.mapM fun (field : Field × Nat) =>
    valueAt? read entries field.1.kind field.2).bind shape.ofValues?

/-- A record from the contents of all its fields in declaration order. -/
def ofSequence? (read : FieldKind → δ → Option FieldValue) (contents : List δ) : Option α :=
  if contents.length = shape.fields.length then
    ((shape.fields.zip contents).mapM fun (field : Field × δ) =>
      read field.1.kind field.2).bind shape.ofValues?
  else none

/-- The position of the field of a name. -/
def position? (name : String) : Option Nat :=
  shape.fields.findIdx? fun field => field.name = name

/-- A record from a written document: an object, or an array of all fields.  The
    keys of an object must be text even where no field has that name. -/
def ofWritten? : Json.Written → Option α
  | .object members =>
    (members.mapM fun (member : Bytes × Json.Written) =>
      (Json.textOfRaw? member.1).map fun name => (shape.position? name, member.2)).bind
      (shape.ofEntries? FieldValue.ofWritten?)
  | .array items => shape.ofSequence? FieldValue.ofWritten? items
  | _ => none

/-- The field that the key of an item's map stands for: a name as text or bytes,
    or a position.  The outer `none` is a key that cannot name a field. -/
def keyPosition? (key : Cbor.Item) : Option (Option Nat) :=
  match key.untagged with
  | .text name => some (shape.position? name)
  | .bytes name => some (shape.fields.findIdx? fun field => Utf8.encode field.name = name)
  | .unsigned n => some (if n < shape.fields.length then some n else none)
  | _ => none

/-- A record from an item: a map, or an array of all fields. -/
def ofItem? (item : Cbor.Item) : Option α :=
  match item.untagged with
  | .map entries =>
    (entries.mapM fun (entry : Cbor.Item × Cbor.Item) =>
      (shape.keyPosition? entry.1).map fun position => (position, entry.2)).bind
      (shape.ofEntries? FieldValue.ofItem?)
  | .array items => shape.ofSequence? FieldValue.ofItem? items
  | _ => none

end RecordShape

end EntityStore
