/-
  EntityStore/Query/Builder.lean
  ==============================
  **Building queries** — a builder collects constraints, order and paging, and
  compiles them to the text of a document query.  A builder without any
  constraint compiles to nothing, so that no whole scan is asked for by accident.
-/
import EntityStore.Error
import EntityStore.Json.Printer
import EntityStore.Query.Combination
import EntityStore.Text.Split

namespace EntityStore

/-- Whether smaller or larger values come first. -/
inductive SortDirection where
  | asc
  | desc
deriving DecidableEq

namespace SortDirection

def name : SortDirection → String
  | asc => "asc"
  | desc => "desc"

/-- The direction that a word names, in any case of its letters. -/
def ofChars? (word : List Char) : Option SortDirection :=
  let lower := word.map Char.toLower
  if lower = "asc".toList then some asc
  else if lower = "desc".toList then some desc
  else none

end SortDirection

/-- What a query is to ask for. -/
structure QueryBuilder where
  /-- Fields to project, in order. -/
  fields : List String := []
  docType : Option String := none
  /-- Values for fields to be equal to. -/
  filters : List (String × Json) := []
  /-- Operator conditions on fields. -/
  conditions : List (String × Json) := []
  combinations : List Combination := []
  sort : List (String × SortDirection) := []
  limit : Option UInt64 := none
  skip : Option UInt64 := none
  index : Option String := none

namespace QueryBuilder

/-! ### Collecting -/

def addField (b : QueryBuilder) (field : String) : QueryBuilder :=
  { b with fields := b.fields ++ [field] }

def setDocType (b : QueryBuilder) (docType : String) : QueryBuilder :=
  { b with docType := some docType }

/-- A later filter on the same field replaces an earlier one. -/
def addFilter (b : QueryBuilder) (field : String) (value : Json) : QueryBuilder :=
  { b with filters := Assoc.insert field value b.filters }

/-- A later condition on the same field replaces an earlier one. -/
def addCondition (b : QueryBuilder) (field : String) (condition : Json) : QueryBuilder :=
  { b with conditions := Assoc.insert field condition b.conditions }

def addCombination (b : QueryBuilder) (combination : Combination) : QueryBuilder :=
  { b with combinations := b.combinations ++ [combination] }

def addSort (b : QueryBuilder) (field : String) (direction : SortDirection) : QueryBuilder :=
  { b with sort := b.sort ++ [(field, direction)] }

/-- The field and direction of a sort token: a field that is not empty, one colon,
    and a direction. -/
def sortOfToken? (token : String) : Option (String × SortDirection) :=
  match Text.splitOnce ':' token.toList with
  | none => none
  | some (field, direction) =>
    if field.isEmpty || direction.contains ':' then none
    else (SortDirection.ofChars? direction).map fun direction => (String.ofList field, direction)

/-- Appends the sorts of all tokens, or names the first token that is none. -/
def addSorts (b : QueryBuilder) : List String → Except StoreError QueryBuilder
  | [] => .ok b
  | token :: rest =>
    match sortOfToken? token with
    | some (field, direction) => (b.addSort field direction).addSorts rest
    | none => .error (.invalidSort token)

def setLimit (b : QueryBuilder) (limit : UInt64) : QueryBuilder := { b with limit := some limit }

def setSkip (b : QueryBuilder) (skip : UInt64) : QueryBuilder := { b with skip := some skip }

def useIndex (b : QueryBuilder) (index : String) : QueryBuilder := { b with index := some index }

/-! ### Compiling -/

/-- The builder holds a constraint. -/
def hasSelector (b : QueryBuilder) : Bool :=
  b.docType.isSome || !b.filters.isEmpty || !b.conditions.isEmpty || !b.combinations.isEmpty

/-- Adds a combination to a selector: combinations of one kind share one list. -/
def mergeCombination (selector : List (String × Json)) (c : Combination) : List (String × Json) :=
  match Assoc.get? c.kind.operator selector with
  | some (.arr existing) =>
    Assoc.insert c.kind.operator (.arr (existing ++ c.members)) selector
  | _ => Assoc.insert c.kind.operator (.arr c.members) selector

/-- The selector: document type, filters, conditions, then combinations, each taking
    the place of an earlier member of the same name. -/
def selector (b : QueryBuilder) : List (String × Json) :=
  let start :=
    match b.docType with
    | some docType => [("docType", Json.str docType)]
    | none => []
  b.combinations.foldl mergeCombination
    (Assoc.insertAll b.conditions (Assoc.insertAll b.filters start))

/-- A member that is present only with a value. -/
def optionalMember (name : String) (value : Option Json) : List (String × Json) :=
  match value with
  | some value => [(name, value)]
  | none => []

/-- The members of the query. -/
def queryMembers (b : QueryBuilder) : List (String × Json) :=
  optionalMember "fields" (if b.fields.isEmpty then none else some (.ofTexts b.fields))
    ++ [("selector", .obj b.selector)]
    ++ optionalMember "sort" (if b.sort.isEmpty then none
        else some (.arr (b.sort.map fun entry => .single entry.1 (.str entry.2.name))))
    ++ optionalMember "limit" (b.limit.map fun n => .ofNat n.toNat)
    ++ optionalMember "skip" (b.skip.map fun n => .ofNat n.toNat)
    ++ optionalMember "use_index" (b.index.map .str)

/-- The query as a value. -/
def buildValue (b : QueryBuilder) : Except StoreError Json :=
  if b.hasSelector then .ok (.ofMembers b.queryMembers) else .error .noSelector

/-- The query as text. -/
def build (b : QueryBuilder) : Except StoreError String := b.buildValue.map Json.render

end QueryBuilder

end EntityStore
