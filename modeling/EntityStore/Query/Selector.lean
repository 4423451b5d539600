/-
  EntityStore/Query/Selector.lean
  ===============================
  **Selectors** — which documents a query asks for.

  A selector is an object.  Members named by a combination operator combine
  further selectors; every other member names a field, by its path of dotted
  names, and a condition: a value to be equal to, or an object of comparison
  operators that must all hold.
-/
import EntityStore.Json.Basic
import EntityStore.Text.Split

namespace EntityStore.Query

/-! ### Fields -/

/-- The names on the way to a field. -/
def pathNames (path : String) : List String :=
  (Text.splitOn '.' path.toList).map String.ofList

/-- The value that a sequence of names leads to, object by object. -/
def follow? (document : Json) : List String → Option Json
  | [] => some document
  | name :: rest =>
    match document.members?.bind (Assoc.get? name) with
    | some value => follow? value rest
    | none => none

/-- The value of a field of a document. -/
def field? (document : Json) (path : String) : Option Json := follow? document (pathNames path)

/-! ### Comparison -/

/-- How two values compare: numbers by their nearest floating-point numbers, texts
    by code points, false before true.  Values of different or other kinds do not
    compare. -/
def compare? : Json → Json → Option Ordering
  | .num x, .num y => x.toBinary64.compare? y.toBinary64
  | .str x, .str y => some (compare x y)
  | .bool x, .bool y => some (compare x.toNat y.toNat)
  | _, _ => none

/-- A field is present and compares with a value in an accepted way. -/
def ordered (accept : Ordering → Bool) (value : Option Json) (argument : Json) : Bool :=
  match value.bind (compare? · argument) with
  | some ordering => accept ordering
  | none => false

/-- A field is present and equal to a value. -/
def isEqual (value : Option Json) (argument : Json) : Bool :=
  match value with
  | some v => v.same argument
  | none => false

/-- The value is among the items. -/
def occursIn (value : Json) (items : List Json) : Bool := items.any (·.same value)

/-- One comparison operator with its argument, for a field that may be missing.
    Unknown operators never hold. -/
def holds (value : Option Json) (operator : String) (argument : Json) : Bool :=
  if operator = "$eq" then isEqual value argument
  else if operator = "$ne" then !isEqual value argument
  else if operator = "$gt" then ordered Ordering.isGT value argument
  else if operator = "$gte" then ordered Ordering.isGE value argument
  else if operator = "$lt" then ordered Ordering.isLT value argument
  else if operator = "$lte" then ordered Ordering.isLE value argument
  else if operator = "$in" then
    match argument.items? with
    | some options => value.any (occursIn · options)
    | none => false
  else if operator = "$nin" then
    match argument.items? with
    | some options => !value.any (occursIn · options)
    | none => false
  else if operator = "$exists" then argument.bool? == some value.isSome
  else if operator = "$all" then
    match value.bind Json.items?, argument.items? with
    | some present, some wanted => wanted.all (occursIn · present)
    | _, _ => false
  else false

/-- The object is not empty and every member is named like an operator. -/
def isOperators (members : List (String × Json)) : Bool :=
  !members.isEmpty && members.all fun member => member.1.toList.head? == some '$'

/-- A condition on a field that may be missing. -/
def matchesField (value : Option Json) (condition : Json) : Bool :=
  match condition with
  | .obj members =>
    if isOperators members then members.all fun member => holds value member.1 member.2
    else isEqual value condition
  | _ => isEqual value condition

/-! ### Combination -/

/-- What a member of a selector does with the selectors that it lists. -/
inductive Combinator where
  | every
  | any
  | neither
  | negation
deriving DecidableEq

/-- The combination that a member's name stands for; every other name is a field. -/
def combinator? (name : String) : Option Combinator :=
  if name = "$and" ∨ name = "$all" then some .every
  else if name = "$or" then some .any
  else if name = "$nor" then some .neither
  else if name = "$not" then some .negation
  else none

mutual

/-- The document satisfies every member of a selector. -/
def matchesSelector (document : Json) : List (String × Json) → Bool
  | [] => true
  | (name, condition) :: rest =>
    matchesMember document name condition && matchesSelector document rest

/-- The document satisfies one member.  Of a list of selectors only the objects
    count, and a condition that is no list lists nothing. -/
def matchesMember (document : Json) (name : String) (condition : Json) : Bool :=
  match combinator? name with
  | some .every =>
    match condition with
    | .arr items => matchesEvery document items
    | _ => true
  | some .any =>
    match condition with
    | .arr items => matchesAny document items
    | _ => false
  | some .neither =>
    match condition with
    | .arr items => !matchesAny document items
    | _ => true
  | some .negation =>
    match condition with
    | .obj members => !matchesSelector document members
    | _ => false
  | none => matchesField (field? document name) condition

/-- The document satisfies every listed selector. -/
def matchesEvery (document : Json) : List Json → Bool
  | [] => true
  | item :: rest =>
    (match item with
      | .obj members => matchesSelector document members
      | _ => true) && matchesEvery document rest

/-- The document satisfies some listed selector. -/
def matchesAny (document : Json) : List Json → Bool
  | [] => false
  | item :: rest =>
    (match item with
      | .obj members => matchesSelector document members
      | _ => false) || matchesAny document rest

end

end EntityStore.Query
