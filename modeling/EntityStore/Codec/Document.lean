/-
  EntityStore/Codec/Document.lean
  ===============================
  **Documents as payloads** — JSON, which rich queries can look into, and CBOR,
  which they cannot.
-/
import EntityStore.Codec.Basic
import EntityStore.Key.Basic
import EntityStore.Record

namespace EntityStore.Codec

variable {α : Type}

/-- A payload that does not hold what is wanted of a JSON document. -/
def malformedJson : StoreError := .decode "malformed JSON document"

/-- A payload that does not hold what is wanted of a CBOR item. -/
def malformedCbor : StoreError := .decode "malformed CBOR item"

/-- What a reader found, or the failure that stands for finding nothing. -/
def found (failure : StoreError) : Option α → Except StoreError α
  | some value => .ok value
  | none => .error failure

/-! ### JSON -/

/-- Any JSON value. -/
def json : Codec Json where
  encode value := .ok value.toBytes
  decode payload := found malformedJson (Json.ofBytes? payload)

/-- A document as written, with the grammar checked and no limit to its depth. -/
def written? (payload : Bytes) : Option Json.Written :=
  Json.Written.ofBytes? payload.length payload

/-- Records of a shape. -/
def record (shape : RecordShape α) : Codec α where
  encode value := .ok (shape.toJson value).toBytes
  decode payload := found malformedJson ((written? payload).bind shape.ofWritten?)

/-- The texts of an array of strings. -/
def textsOfWritten? : Json.Written → Option (List String)
  | .array items => items.mapM FieldValue.writtenText?
  | _ => none

/-- Keys are arrays of their parts. -/
def key : Codec Key where
  encode key := .ok (Json.ofTexts key.parts).toBytes
  decode payload :=
    found malformedJson (((written? payload).bind textsOfWritten?).map Key.mk)

/-! ### CBOR -/

/-- Values that are written as items and read from them. -/
def cbor (write : α → Cbor.Item) (read : Cbor.Item → Option α) : Codec α where
  encode value := .ok (write value).toBytes
  decode payload := found malformedCbor ((Cbor.Item.ofBytes? payload).bind read)

def cborJson : Codec Json := cbor Cbor.ofJson Cbor.toJson?

def cborRecord (shape : RecordShape α) : Codec α := cbor shape.toItem shape.ofItem?

def cborText : Codec String := cbor .text Cbor.Item.text?

def cborKey : Codec Key :=
  cbor (fun key => .array (key.parts.map .text)) (fun item => item.texts?.map Key.mk)

def cborBinary64 : Codec Binary64 := cbor .float Cbor.Item.float?

/-- An integer of a range as an item. -/
def intOfItem? (low high : Int) (item : Cbor.Item) : Option Int :=
  item.int?.bind fun n => if low ≤ n ∧ n ≤ high then some n else none

def cborInt64 : Codec Int64 :=
  cbor (fun n => .ofInt n.toInt) fun item =>
    (intOfItem? Int64.minValue.toInt Int64.maxValue.toInt item).map Int64.ofInt

def cborWord64 : Codec UInt64 :=
  cbor (fun n => .unsigned n.toNat) fun item =>
    (intOfItem? 0 (UInt64.size - 1) item).map fun n => UInt64.ofNat n.toNat

end EntityStore.Codec
