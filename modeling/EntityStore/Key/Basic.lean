/-
  EntityStore/Key/Basic.lean
  ==========================
  **Keys** — ordered parts, the first of which is the namespace.

  Keys are compared part by part and each part by its code points, so a key
  stands before every key that extends it.
-/
import EntityStore.Error

namespace EntityStore

/-- The parts of a key, the namespace first. -/
structure Key where
  parts : List String
deriving DecidableEq

namespace Key

/-- A key of one part. -/
def single (part : String) : Key := ⟨[part]⟩

/-- The first part, if there is one. -/
def namespace? (key : Key) : Option String := key.parts.head?

/-- The parts of one key behind those of another. -/
def append (key other : Key) : Key := ⟨key.parts ++ other.parts⟩

instance : Append Key := ⟨append⟩

/-- One more part at the end. -/
def push (key : Key) (part : String) : Key := ⟨key.parts ++ [part]⟩

/-- The parts as shown in messages. -/
def display (key : Key) : String := " | ".intercalate key.parts

instance : LT Key := ⟨fun a b => a.parts < b.parts⟩
instance : LE Key := ⟨fun a b => ¬ b < a⟩

instance (a b : Key) : Decidable (a < b) := inferInstanceAs (Decidable (a.parts < b.parts))
instance (a b : Key) : Decidable (a ≤ b) := inferInstanceAs (Decidable (¬ b < a))

end Key

/-! ### Where a key comes from -/

/-- A key argument: parts that are given, or what a value answers when it is
    asked for its key. -/
inductive KeySource where
  | given (key : Key)
  | derived (answer : Except StoreError Key)

/-- The failure to derive a key, as the store reports it: failures about keys
    keep their cause, and every other becomes a key that could not be made. -/
def StoreError.asKeyFailure : StoreError → StoreError
  | .invalidKeyShape detail => .invalidKeyShape detail
  | .emptyKey => .emptyKey
  | .invalidKeyPart part reason => .invalidKeyPart part reason
  | error => .invalidKeyShape error.message

/-- The key that a source stands for. -/
def KeySource.normalize : KeySource → Except StoreError Key
  | .given key => .ok key
  | .derived answer => answer.mapError StoreError.asKeyFailure

end EntityStore
