/-
  EntityStore/Event/Trace.lean
  ============================
  **Trace records** — events as leveled records of a message and named fields.
-/
import EntityStore.Event.Basic

namespace EntityStore

/-- How much attention a record asks for. -/
inductive TraceLevel where
  | debug
  | warn
deriving DecidableEq

def TraceLevel.name : TraceLevel → String
  | debug => "debug"
  | warn => "warn"

/-- A record: a fixed message, and the values of an event as text. -/
structure TraceRecord where
  level : TraceLevel
  message : String
  fields : List (String × String)
deriving DecidableEq

namespace TraceRecord

/-- An optional collection as text. -/
def optionalText : Option String → String
  | none => "None"
  | some name => "Some(" ++ Text.quoted name ++ ")"

def flagText (flag : Bool) : String := if flag then "true" else "false"

def countText (n : Nat) : String := String.ofList (Nat.toDigits 10 n)

/-- The record of an event: failures are warnings, and everything else is for
    debugging. -/
def ofEvent : Event → TraceRecord
  | .read op target collection found =>
    ⟨.debug, "state read",
      [("op", op.name), ("key", Text.quoted target), ("collection", optionalText collection),
        ("found", flagText found)]⟩
  | .write op target collection bytes =>
    ⟨.debug, "state write",
      [("op", op.name), ("key", Text.quoted target), ("collection", optionalText collection),
        ("bytes", countText bytes)]⟩
  | .scan op target collection rows =>
    ⟨.debug, "state scan",
      [("op", op.name), ("target", Text.quoted target), ("collection", optionalText collection),
        ("rows", countText rows)]⟩
  | .conflict op target =>
    ⟨.debug, "state key already exists", [("op", op.name), ("key", Text.quoted target)]⟩
  | .failure op error =>
    ⟨.warn, "state operation failed",
      [("op", op.name), ("kind", error.kind.name), ("error", error.message)]⟩

end TraceRecord

end EntityStore
