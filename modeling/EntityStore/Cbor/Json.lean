/-
  EntityStore/Cbor/Json.lean
  ==========================
  **JSON values as CBOR items** and back.
-/
import EntityStore.Cbor.Reader
import EntityStore.Json.Basic

namespace EntityStore

namespace Cbor

open Json

mutual

/-- The item of a value: objects are maps in key order. -/
def ofJson : Json → Item
  | .null => .null
  | .bool b => .bool b
  | .num (.int n) => .ofInt n
  | .num (.float x) => .float x
  | .str s => .text s
  | .arr items => .array (ofJsonItems items)
  | .obj members => .map (ofJsonMembers members)

/-- The items of the items of an array. -/
def ofJsonItems : List Json → List Item
  | [] => []
  | item :: rest => ofJson item :: ofJsonItems rest

/-- The entries of the members of an object. -/
def ofJsonMembers : List (String × Json) → List (Item × Item)
  | [] => []
  | (key, value) :: rest => (.text key, ofJson value) :: ofJsonMembers rest

end

/-- The first key of an object: text only. -/
def firstKey? (item : Item) : Option String :=
  match item.untagged with
  | .text content => some content
  | _ => none

mutual

/-- The value of an item.  Byte strings and integers below sixty-four bits are no
    values; what is no finite number is null. -/
def toJson? : Item → Option Json
  | .unsigned n => some (.num (.int n))
  | .negative n => if Int64.minValue.toInt ≤ -1 - n then some (.num (.int (-1 - n))) else none
  | .bytes _ => none
  | .text content => some (.str content)
  | .array items => (toJsonItems? items).map .arr
  | .map entries => (toJsonMembers? firstKey? entries).map ofMembers
  | .tagged _ content => toJson? content
  | .bool b => some (.bool b)
  | .null => some .null
  | .undefined => some .null
  | .float x => some (if x.isFinite then .num (.float x) else .null)

/-- The values of the items of an array. -/
def toJsonItems? : List Item → Option (List Json)
  | [] => some []
  | item :: rest =>
    match toJson? item, toJsonItems? rest with
    | some value, some values => some (value :: values)
    | _, _ => none

/-- The keys and values of a map.  The first key is read by `readKey`, and every
    later one is a text or a byte string that holds one. -/
def toJsonMembers? (readKey : Item → Option String) :
    List (Item × Item) → Option (List (String × Json))
  | [] => some []
  | (key, value) :: rest =>
    match readKey key, toJson? value, toJsonMembers? Item.text? rest with
    | some key, some value, some members => some ((key, value) :: members)
    | _, _, _ => none

end

end Cbor

end EntityStore
