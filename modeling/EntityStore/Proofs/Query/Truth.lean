/-
  EntityStore/Proofs/Query/Truth.lean
  ===================================
  **Combinations mean what they say.**

  A combination is compiled to a selector, and a ledger evaluates selectors without
  knowing where they came from.  `Combination.truth` reads the tree directly: its
  members are filters, conditions that are selectors, and combinations inside, and
  its kind says how they are combined.  Compiling and evaluating gives the same answer
  (`Combination.matchesSelector_render`).
-/
import EntityStore.Proofs.OrderedMap
import EntityStore.Query.Builder
import EntityStore.Query.Selector

namespace EntityStore

open EntityStore.Query

/-! ### Selectors, member by member -/

namespace Query

variable {document : Json}

theorem matchesSelector_iff {selector : List (String × Json)} :
    matchesSelector document selector = true ↔
      ∀ member ∈ selector, matchesMember document member.1 member.2 = true := by
  induction selector with
  | nil => simp [matchesSelector]
  | cons member rest ih =>
    obtain ⟨name, condition⟩ := member
    simp [matchesSelector, ih]

theorem matchesSelector_single (document : Json) (name : String) (condition : Json) :
    matchesSelector document [(name, condition)] = matchesMember document name condition := by
  simp [matchesSelector]

/-- What the selectors among listed items say of a document.  Items that are no objects
    say nothing. -/
def verdicts (document : Json) (items : List Json) : List Bool :=
  items.filterMap fun item => item.members?.map (matchesSelector document)

@[simp] theorem verdicts_nil : verdicts document [] = [] := rfl

@[simp] theorem verdicts_append (items more : List Json) :
    verdicts document (items ++ more) = verdicts document items ++ verdicts document more :=
  List.filterMap_append

@[simp] theorem verdicts_obj_cons (members : List (String × Json)) (items : List Json) :
    verdicts document (.obj members :: items) =
      matchesSelector document members :: verdicts document items := rfl

theorem matchesEvery_eq (items : List Json) :
    matchesEvery document items = (verdicts document items).all id := by
  induction items with
  | nil => simp [matchesEvery]
  | cons item rest ih =>
    cases item <;> simp [matchesEvery, verdicts, Json.members?, ih]

theorem matchesAny_eq (items : List Json) :
    matchesAny document items = (verdicts document items).any id := by
  induction items with
  | nil => simp [matchesAny]
  | cons item rest ih =>
    cases item <;> simp [matchesAny, verdicts, Json.members?, ih]

end Query

/-! ### The truth of a combination -/

/-- The truth of a combination, from the truths of its members. -/
def CombinationKind.truth : CombinationKind → List Bool → Bool
  | and, truths | all, truths => truths.all id
  | or, truths => truths.any id
  | nor, truths => !truths.any id

namespace CombinationKind

theorem truth_of_every {kind : CombinationKind} (h : kind = .and ∨ kind = .all)
    (truths : List Bool) : kind.truth truths = true ↔ ∀ truth ∈ truths, truth = true := by
  rcases h with rfl | rfl <;> simp [truth]

theorem truth_or (truths : List Bool) :
    CombinationKind.or.truth truths = true ↔ true ∈ truths := by
  simp [truth]

theorem truth_nor (truths : List Bool) :
    CombinationKind.nor.truth truths = true ↔ ∀ truth ∈ truths, truth = false := by
  simp [truth]

theorem operator_injective {kind other : CombinationKind} (h : kind.operator = other.operator) :
    kind = other := by
  revert h
  cases kind <;> cases other <;> decide

/-- The member that an operator names combines what it lists. -/
theorem matchesMember_operator (document : Json) (kind : CombinationKind) (items : List Json) :
    matchesMember document kind.operator (.arr items) = kind.truth (verdicts document items) := by
  cases kind with
  | and => exact matchesEvery_eq items
  | or => exact matchesAny_eq items
  | all => exact matchesEvery_eq items
  | nor => exact congrArg Bool.not (matchesAny_eq items)

end CombinationKind

namespace Combination

mutual

/-- The truths of the members: filters, conditions that are selectors, and the
    combinations inside. -/
def memberTruths (document : Json) : Combination → List Bool
  | node _ filters conditions children =>
    filters.map (fun filter => matchesSelector document [(filter.field, filter.value)])
      ++ verdicts document conditions ++ childTruths document children

def childTruths (document : Json) : List Combination → List Bool
  | [] => []
  | child :: rest => child.kind.truth (memberTruths document child) :: childTruths document rest

end

def truth (document : Json) (c : Combination) : Bool := c.kind.truth (c.memberTruths document)

theorem verdicts_filters (document : Json) (filters : List Filter) :
    verdicts document (filters.map Filter.toJson) =
      filters.map fun filter => matchesSelector document [(filter.field, filter.value)] := by
  induction filters with
  | nil => rfl
  | cons filter rest ih => rw [List.map_cons, Filter.toJson, Json.single, verdicts_obj_cons, ih,
      List.map_cons]

mutual

/-- What the compiled members say is what the members of the tree say. -/
theorem verdicts_members (document : Json) (c : Combination) :
    verdicts document c.members = c.memberTruths document := by
  match c with
  | node kind filters conditions children =>
    rw [members, memberTruths, verdicts_append, verdicts_append, verdicts_filters,
      verdicts_renderAll document children]

theorem verdicts_renderAll (document : Json) (children : List Combination) :
    verdicts document (renderAll children) = childTruths document children := by
  match children with
  | [] => rw [renderAll, childTruths, verdicts_nil]
  | child :: rest =>
    rw [renderAll, childTruths, render_eq, Json.single, verdicts_obj_cons,
      matchesSelector_single, CombinationKind.matchesMember_operator,
      verdicts_members document child, verdicts_renderAll document rest]

end

/-- **A compiled combination matches the documents of which the tree is true.** -/
theorem matchesSelector_render (document : Json) (c : Combination) :
    ∃ selector, c.render = .obj selector ∧
      matchesSelector document selector = c.truth document := by
  refine ⟨_, c.render_eq, ?_⟩
  rw [matchesSelector_single, CombinationKind.matchesMember_operator, verdicts_members, truth]

end Combination

end EntityStore
