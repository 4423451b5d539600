/-
  EntityStore/Query/Combination.lean
  ==================================
  **Combinations** — boolean trees over filters and conditions, and the selector
  member that each one becomes.
-/
import EntityStore.Json.Basic

namespace EntityStore

/-- How the members of a combination are combined. -/
inductive CombinationKind where
  | and
  | or
  | all
  | nor
deriving DecidableEq

def CombinationKind.operator : CombinationKind → String
  | and => "$and"
  | or => "$or"
  | all => "$all"
  | nor => "$nor"

/-- A field that is to be equal to a value. -/
structure Filter where
  field : String
  value : Json

/-- A filter as a selector. -/
def Filter.toJson (filter : Filter) : Json := .single filter.field filter.value

/-- A part of a combination: a filter, or a condition that is a selector of its
    own. -/
inductive Clause where
  | filter (filter : Filter)
  | condition (condition : Json)

/-- A node: filters, conditions and further combinations under one kind. -/
inductive Combination where
  | node (kind : CombinationKind) (filters : List Filter) (conditions : List Json)
      (children : List Combination)

namespace Combination

def kind : Combination → CombinationKind
  | node kind _ _ _ => kind

/-- The filters among clauses. -/
def filtersOf : List Clause → List Filter
  | [] => []
  | .filter filter :: rest => filter :: filtersOf rest
  | .condition _ :: rest => filtersOf rest

/-- The conditions among clauses. -/
def conditionsOf : List Clause → List Json
  | [] => []
  | .filter _ :: rest => conditionsOf rest
  | .condition condition :: rest => condition :: conditionsOf rest

/-- A node of clauses; filters are kept before conditions. -/
def ofClauses (kind : CombinationKind) (clauses : List Clause) : Combination :=
  node kind (filtersOf clauses) (conditionsOf clauses) []

/-- One more combination inside. -/
def nest : Combination → Combination → Combination
  | node kind filters conditions children, child =>
    node kind filters conditions (children ++ [child])

/-- One more condition. -/
def withCondition : Combination → Json → Combination
  | node kind filters conditions children, condition =>
    node kind filters (conditions ++ [condition]) children

mutual

/-- A combination as a selector with one member, which lists the filters, the
    conditions, and the combinations inside. -/
def render : Combination → Json
  | node kind filters conditions children =>
    .single kind.operator
      (.arr (filters.map Filter.toJson ++ conditions ++ renderAll children))

/-- Combinations as selectors. -/
def renderAll : List Combination → List Json
  | [] => []
  | child :: rest => render child :: renderAll rest

end

/-- What a combination lists. -/
def members : Combination → List Json
  | node _ filters conditions children =>
    filters.map Filter.toJson ++ conditions ++ renderAll children

theorem render_eq (c : Combination) : c.render = .single c.kind.operator (.arr c.members) := by
  cases c with
  | node kind filters conditions children => rw [render]; rfl

end Combination

end EntityStore
