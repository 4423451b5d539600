/-
  EntityStore/Proofs/Query/Constraints.lean
  =========================================
  **What a compiled builder asks for.**

  The selector of a builder is one object, so contributions that meet on a name take
  each other's place.  It is taken apart name by name: the last entry under a name
  counts, and under the operator of a kind stand the members of all combinations of
  that kind, behind what an entry of that name listed
  (`QueryBuilder.matchesSelector_selector`).

  A builder that holds combinations only is compiled to their joint truth
  (`combinations_mean_their_truth`).  In general nothing is lost as long as no two
  entries differ under one name and no entry is named like the operator of held
  alternatives (`QueryBuilder.clear_builder_keeps_constraints`); where a filter and a
  condition meet on a field, the filter is lost (`QueryBuilder.filter_lost_to_condition`).
-/
import EntityStore.Proofs.Except
import EntityStore.Proofs.Query.Truth

namespace EntityStore

open EntityStore.Query

namespace QueryBuilder

/-! ### The selector by name -/

/-- The members that are entered into the selector, before any combination. -/
def entries (b : QueryBuilder) : List (String × Json) :=
  (match b.docType with
    | some docType => [("docType", .str docType)]
    | none => []) ++ b.filters ++ b.conditions

theorem mem_entries_iff {b : QueryBuilder} {entry : String × Json} :
    entry ∈ b.entries ↔ (∃ docType, b.docType = some docType ∧ entry = ("docType", .str docType)) ∨
      entry ∈ b.filters ∨ entry ∈ b.conditions := by
  rw [entries, List.mem_append, List.mem_append, or_assoc]
  cases b.docType <;> simp

/-- The selector before its combinations. -/
def base (b : QueryBuilder) : List (String × Json) := Assoc.insertAll b.entries []

/-- What a selector lists under a name. -/
def listed (name : String) (selector : List (String × Json)) : List Json :=
  ((Assoc.get? name selector).bind Json.items?).getD []

theorem selector_eq (b : QueryBuilder) :
    b.selector = b.combinations.foldl mergeCombination b.base := by
  unfold selector base entries Assoc.insertAll
  cases b.docType <;> simp [Assoc.insert]

theorem mergeCombination_eq (selector : List (String × Json)) (c : Combination) :
    mergeCombination selector c = Assoc.insert c.kind.operator
      (.arr (listed c.kind.operator selector ++ c.members)) selector := by
  unfold mergeCombination listed
  split
  · next existing h => simp [h, Json.items?]
  · next h =>
    cases hfound : Assoc.get? c.kind.operator selector with
    | none => rfl
    | some value =>
      cases value with
      | arr items => exact absurd hfound (h items)
      | _ => rfl

/-- The combinations of one kind. -/
def ofKind (kind : CombinationKind) (combinations : List Combination) : List Combination :=
  combinations.filter fun c => c.kind = kind

theorem mem_ofKind {kind : CombinationKind} {combinations : List Combination} {c : Combination} :
    c ∈ ofKind kind combinations ↔ c ∈ combinations ∧ c.kind = kind := by
  simp [ofKind]

theorem listed_mergeCombination (selector : List (String × Json)) (c : Combination) :
    listed c.kind.operator (mergeCombination selector c) =
      listed c.kind.operator selector ++ c.members := by
  rw [mergeCombination_eq, listed, Assoc.get?_insert, if_pos rfl]
  rfl

theorem get?_mergeCombination_other {selector : List (String × Json)} {c : Combination}
    {name : String} (h : c.kind.operator ≠ name) :
    Assoc.get? name (mergeCombination selector c) = Assoc.get? name selector := by
  rw [mergeCombination_eq, Assoc.get?_insert, if_neg h]

theorem get?_merged_other {combinations : List Combination} {name : String}
    (h : ∀ c ∈ combinations, c.kind.operator ≠ name) (selector : List (String × Json)) :
    Assoc.get? name (combinations.foldl mergeCombination selector) =
      Assoc.get? name selector := by
  induction combinations generalizing selector with
  | nil => rfl
  | cons c rest ih =>
    obtain ⟨hc, hrest⟩ := List.forall_mem_cons.mp h
    rw [List.foldl_cons, ih hrest, get?_mergeCombination_other hc]

/-- Under the operator of a kind stand the members of all its combinations. -/
theorem get?_merged_operator (combinations : List Combination) (kind : CombinationKind)
    (selector : List (String × Json)) :
    Assoc.get? kind.operator (combinations.foldl mergeCombination selector) =
      if ofKind kind combinations = [] then Assoc.get? kind.operator selector
      else some (.arr (listed kind.operator selector
        ++ (ofKind kind combinations).flatMap Combination.members)) := by
  induction combinations generalizing selector with
  | nil => rfl
  | cons c rest ih =>
    rw [List.foldl_cons, ih]
    -- A combination of this kind adds its members behind those there are; any other leaves this
    -- operator alone.
    by_cases hc : c.kind = kind
    · subst hc
      have hkinds : ofKind c.kind (c :: rest) = c :: ofKind c.kind rest :=
        List.filter_cons_of_pos (decide_eq_true rfl)
      rw [listed_mergeCombination, hkinds, if_neg (List.cons_ne_nil _ _), List.flatMap_cons]
      split
      · next hnone =>
        rw [mergeCombination_eq, Assoc.get?_insert, if_pos rfl, hnone, List.flatMap_nil,
          List.append_nil]
      · rw [List.append_assoc]
    · have hkinds : ofKind kind (c :: rest) = ofKind kind rest :=
        List.filter_cons_of_neg (by simpa using hc)
      have hname : c.kind.operator ≠ kind.operator := mt CombinationKind.operator_injective hc
      rw [hkinds, listed, get?_mergeCombination_other hname, listed]

/-! ### The meaning of the selector -/

theorem sorted_mergeCombination {selector : List (String × Json)} (h : Assoc.Sorted selector)
    (c : Combination) : Assoc.Sorted (mergeCombination selector c) := by
  rw [mergeCombination_eq]
  exact Assoc.sorted_insert h

theorem sorted_merged {selector : List (String × Json)} (h : Assoc.Sorted selector)
    (combinations : List Combination) :
    Assoc.Sorted (combinations.foldl mergeCombination selector) := by
  induction combinations generalizing selector with
  | nil => exact h
  | cons c rest ih => exact ih (sorted_mergeCombination h c)

theorem sorted_selector (b : QueryBuilder) : Assoc.Sorted b.selector := by
  rw [selector_eq]
  exact sorted_merged (Assoc.sorted_insertAll List.Pairwise.nil) b.combinations

/-- What the members of all combinations of one kind say. -/
def truthsOfKind (document : Json) (kind : CombinationKind) (combinations : List Combination) :
    List Bool :=
  (ofKind kind combinations).flatMap (Combination.memberTruths document)

theorem mem_truthsOfKind {document : Json} {kind : CombinationKind}
    {combinations : List Combination} {truth : Bool} :
    truth ∈ truthsOfKind document kind combinations ↔
      ∃ c ∈ combinations, c.kind = kind ∧ truth ∈ c.memberTruths document := by
  simp [truthsOfKind, mem_ofKind, and_assoc]

theorem verdicts_ofKind (document : Json) (kind : CombinationKind)
    (combinations : List Combination) :
    verdicts document ((ofKind kind combinations).flatMap Combination.members) =
      truthsOfKind document kind combinations := by
  unfold truthsOfKind
  induction ofKind kind combinations with
  | nil => rfl
  | cons c rest ih =>
    rw [List.flatMap_cons, List.flatMap_cons, verdicts_append, ih, Combination.verdicts_members]

/-- **What a compiled builder asks for**: every entry that was entered last under its name
    and not taken over by combinations, and for each kind of combination held, the
    members of all of them behind what an entry of that name listed. -/
theorem matchesSelector_selector (b : QueryBuilder) (document : Json) :
    matchesSelector document b.selector = true ↔
      (∀ name value, Assoc.get? name b.base = some value →
        (∀ c ∈ b.combinations, c.kind.operator ≠ name) →
          matchesMember document name value = true) ∧
      ∀ kind, ofKind kind b.combinations ≠ [] →
        kind.truth (verdicts document (listed kind.operator b.base)
          ++ truthsOfKind document kind b.combinations) = true := by
  have hlookup : matchesSelector document b.selector = true ↔
      ∀ name value, Assoc.get? name b.selector = some value →
        matchesMember document name value = true := by
    rw [matchesSelector_iff]
    constructor
    · intro h name value hvalue
      exact h (name, value) ((Assoc.get?_eq_some_iff b.sorted_selector).mp hvalue)
    · intro h member hmember
      exact h member.1 member.2 ((Assoc.get?_eq_some_iff b.sorted_selector).mpr hmember)
  have hkind (kind : CombinationKind) (hheld : ofKind kind b.combinations ≠ []) :
      Assoc.get? kind.operator b.selector = some (.arr (listed kind.operator b.base
        ++ (ofKind kind b.combinations).flatMap Combination.members)) := by
    rw [selector_eq, get?_merged_operator, if_neg hheld]
  have htruth (kind : CombinationKind) :
      matchesMember document kind.operator (.arr (listed kind.operator b.base
        ++ (ofKind kind b.combinations).flatMap Combination.members)) =
      kind.truth (verdicts document (listed kind.operator b.base)
        ++ truthsOfKind document kind b.combinations) := by
    rw [CombinationKind.matchesMember_operator, verdicts_append, verdicts_ofKind]
  rw [hlookup]
  constructor
  · intro h
    constructor
    · intro name value hvalue hother
      refine h name value ?_
      rw [selector_eq, get?_merged_other hother]
      exact hvalue
    · intro kind hheld
      rw [← htruth]
      exact h kind.operator _ (hkind kind hheld)
  · rintro ⟨hentries, hkinds⟩ name value hvalue
    -- under an operator in use stands the merged list, whatever was entered there
    by_cases htaken : ∃ c ∈ b.combinations, c.kind.operator = name
    · obtain ⟨c, hc, rfl⟩ := htaken
      have hheld : ofKind c.kind b.combinations ≠ [] :=
        List.ne_nil_of_mem (mem_ofKind.mpr ⟨hc, rfl⟩)
      rw [hkind c.kind hheld] at hvalue
      cases hvalue
      rw [htruth]
      exact hkinds c.kind hheld
    · have hother : ∀ c ∈ b.combinations, c.kind.operator ≠ name := fun c hc hname =>
        htaken ⟨c, hc, hname⟩
      refine hentries name value ?_ hother
      rw [selector_eq, get?_merged_other hother] at hvalue
      exact hvalue

theorem get?_optionalMember {name key : String} (h : name ≠ key) (value : Option Json) :
    Assoc.get? key (optionalMember name value).reverse = none := by
  cases value with
  | none => rfl
  | some value => exact if_neg h

theorem selector_of_buildValue {b : QueryBuilder} {value : Json} (h : b.buildValue = .ok value) :
    ∃ root, value = .obj root ∧ Assoc.get? "selector" root = some (.obj b.selector) := by
  unfold buildValue at h
  split at h
  · cases h
    refine ⟨_, rfl, ?_⟩
    have hnames : "fields" ≠ "selector" ∧ "sort" ≠ "selector" ∧ "limit" ≠ "selector" ∧
        "skip" ≠ "selector" ∧ "use_index" ≠ "selector" := by decide
    obtain ⟨hfields, hsort, hlimit, hskip, hindex⟩ := hnames
    simp only [Assoc.get?_insertAll, queryMembers, List.reverse_append, Assoc.get?_append,
      get?_optionalMember hfields, get?_optionalMember hsort, get?_optionalMember hlimit,
      get?_optionalMember hskip, get?_optionalMember hindex, Option.none_or]
    rfl
  · cases h

end QueryBuilder

/-! ### Combinations together -/

/-- Combinations hold at once: every member of each conjunction does, no member of a
    denial does, and if there are alternatives, one of them does. -/
structure CombinationsHold (document : Json) (combinations : List Combination) : Prop where
  every : ∀ c ∈ combinations, c.kind = .and ∨ c.kind = .all →
    ∀ truth ∈ c.memberTruths document, truth = true
  neither : ∀ c ∈ combinations, c.kind = .nor → ∀ truth ∈ c.memberTruths document, truth = false
  any : (∃ c ∈ combinations, c.kind = .or) →
    ∃ c ∈ combinations, c.kind = .or ∧ true ∈ c.memberTruths document

theorem combinationsHold_iff {document : Json} {combinations : List Combination} :
    CombinationsHold document combinations ↔
      ∀ kind, QueryBuilder.ofKind kind combinations ≠ [] →
        kind.truth (QueryBuilder.truthsOfKind document kind combinations) = true := by
  constructor
  · intro h kind hheld
    -- conjunctions of both kinds are true just if all their members are
    have hevery (hkind : kind = .and ∨ kind = .all) :
        kind.truth (QueryBuilder.truthsOfKind document kind combinations) = true := by
      refine (CombinationKind.truth_of_every hkind _).mpr ?_
      intro truth htruth
      obtain ⟨c, hc, rfl, hmember⟩ := QueryBuilder.mem_truthsOfKind.mp htruth
      exact h.every c hc hkind truth hmember
    cases kind with
    | and => exact hevery (.inl rfl)
    | all => exact hevery (.inr rfl)
    | or =>
      obtain ⟨c, hc⟩ := List.exists_mem_of_ne_nil _ hheld
      obtain ⟨d, hd, hkind, htrue⟩ := h.any ⟨c, QueryBuilder.mem_ofKind.mp hc⟩
      exact (CombinationKind.truth_or _).mpr
        (QueryBuilder.mem_truthsOfKind.mpr ⟨d, hd, hkind, htrue⟩)
    | nor =>
      refine (CombinationKind.truth_nor _).mpr ?_
      intro truth htruth
      obtain ⟨c, hc, hkind, hmember⟩ := QueryBuilder.mem_truthsOfKind.mp htruth
      exact h.neither c hc hkind truth hmember
  · intro h
    -- each combination has its kind present, so the truth of that kind is known
    have held {c : Combination} (hc : c ∈ combinations) :
        c.kind.truth (QueryBuilder.truthsOfKind document c.kind combinations) = true :=
      h c.kind (List.ne_nil_of_mem (QueryBuilder.mem_ofKind.mpr ⟨hc, rfl⟩))
    constructor
    · intro c hc hkind truth hmember
      have hall := (CombinationKind.truth_of_every hkind _).mp (held hc)
      exact hall truth (QueryBuilder.mem_truthsOfKind.mpr ⟨c, hc, rfl, hmember⟩)
    · intro c hc hkind truth hmember
      have hnone := held hc
      rw [hkind] at hnone
      have hfalse := (CombinationKind.truth_nor _).mp hnone
      exact hfalse truth (QueryBuilder.mem_truthsOfKind.mpr ⟨c, hc, hkind, hmember⟩)
    · rintro ⟨c, hc, hkind⟩
      have hany := held hc
      rw [hkind] at hany
      exact QueryBuilder.mem_truthsOfKind.mp ((CombinationKind.truth_or _).mp hany)

/-- The builder with these combinations for its only constraints. -/
def QueryBuilder.combining (b : QueryBuilder) (combinations : List Combination) : QueryBuilder :=
  { b with docType := none, filters := [], conditions := [], combinations }

/-- **Combinations mean their truth.**  A compiled combination matches the documents of
    which its tree is true, and a builder that holds nothing but combinations, one at
    least, is compiled to a query for the documents in which all of them hold. -/
theorem combinations_mean_their_truth (document : Json) :
    (∀ c : Combination, ∃ selector, c.render = .obj selector ∧
      matchesSelector document selector = c.truth document) ∧
    ∀ (b : QueryBuilder) (first : Combination) (rest : List Combination),
      ∃ root selector, (b.combining (first :: rest)).buildValue = .ok (.obj root) ∧
        Assoc.get? "selector" root = some (.obj selector) ∧
        (matchesSelector document selector = true ↔ CombinationsHold document (first :: rest)) := by
  constructor
  · exact Combination.matchesSelector_render document
  · intro b first rest
    have hbuilt : (b.combining (first :: rest)).buildValue =
        .ok (.ofMembers (b.combining (first :: rest)).queryMembers) := rfl
    obtain ⟨root, hroot, hselector⟩ := QueryBuilder.selector_of_buildValue hbuilt
    refine ⟨root, _, hroot ▸ hbuilt, hselector, ?_⟩
    rw [QueryBuilder.matchesSelector_selector, combinationsHold_iff]
    constructor
    · rintro ⟨_, hkinds⟩ kind hheld
      exact hkinds kind hheld
    · intro hkinds
      refine ⟨?_, hkinds⟩
      intro name value hvalue
      cases hvalue

/-! ### Everything at once -/

namespace QueryBuilder

/-- A document satisfies everything that a builder holds, each filter and each condition
    on its own. -/
structure Satisfied (b : QueryBuilder) (document : Json) : Prop where
  docType : ∀ docType, b.docType = some docType → field? document "docType" = some (.str docType)
  filters : ∀ filter ∈ b.filters, matchesSelector document [filter] = true
  conditions : ∀ condition ∈ b.conditions, matchesSelector document [condition] = true
  combinations : CombinationsHold document b.combinations

/-- No contributions meet in a way that loses one: entries under one name are the same,
    and none is named like the operator of held alternatives. -/
structure IsClear (b : QueryBuilder) : Prop where
  agree : ∀ p ∈ b.entries, ∀ q ∈ b.entries, p.1 = q.1 → p.2 = q.2
  alternatives : (∃ c ∈ b.combinations, c.kind = .or) →
    ∀ p ∈ b.entries, p.1 ≠ CombinationKind.or.operator

variable {b : QueryBuilder} {document : Json}

theorem matchesMember_docType (document : Json) (docType : String) :
    matchesMember document "docType" (.str docType) = true ↔
      field? document "docType" = some (.str docType) := by
  show isEqual (field? document "docType") (.str docType) = true ↔ _
  cases field? document "docType" with
  | none => simp [isEqual]
  | some value => cases value <;> simp [isEqual, Json.same]

theorem satisfied_iff : b.Satisfied document ↔
    (∀ entry ∈ b.entries, matchesMember document entry.1 entry.2 = true) ∧
      CombinationsHold document b.combinations := by
  constructor
  · intro h
    refine ⟨?_, h.combinations⟩
    intro entry hentry
    rw [← matchesSelector_single]
    rcases mem_entries_iff.mp hentry with ⟨docType, hset, rfl⟩ | hfilter | hcondition
    · rw [matchesSelector_single]
      exact (matchesMember_docType document docType).mpr (h.docType docType hset)
    · exact h.filters entry hfilter
    · exact h.conditions entry hcondition
  · rintro ⟨hentries, hcombinations⟩
    -- an entry alone is a selector with one member
    have single {entry : String × Json} (hentry : entry ∈ b.entries) :
        matchesSelector document [entry] = true :=
      (matchesSelector_single document entry.1 entry.2).trans (hentries entry hentry)
    constructor
    · intro docType hset
      have hentry := mem_entries_iff.mpr (.inl ⟨docType, hset, rfl⟩)
      exact (matchesMember_docType document docType).mp (hentries _ hentry)
    · intro filter hfilter
      exact single (mem_entries_iff.mpr (.inr (.inl hfilter)))
    · intro condition hcondition
      exact single (mem_entries_iff.mpr (.inr (.inr hcondition)))
    · exact hcombinations

/-- Except for alternatives, members listed together are members listed apart. -/
theorem truth_append {kind : CombinationKind} (h : kind ≠ .or) (truths more : List Bool) :
    kind.truth (truths ++ more) = (kind.truth truths && kind.truth more) := by
  cases kind with
  | or => exact absurd rfl h
  | nor => simp [CombinationKind.truth, Bool.not_or]
  | _ => exact List.all_append

theorem matchesMember_operator_of_ne_or {kind : CombinationKind} (h : kind ≠ .or)
    (document value : Json) :
    matchesMember document kind.operator value =
      kind.truth (verdicts document (value.items?.getD [])) := by
  cases value with
  | arr items => exact kind.matchesMember_operator document items
  | _ =>
    cases kind with
    | or => exact absurd rfl h
    | _ => rfl

theorem mem_entries_of_get?_base {name : String} {value : Json}
    (h : Assoc.get? name b.base = some value) : (name, value) ∈ b.entries := by
  have hlast : (Assoc.get? name b.entries.reverse).or none = some value := by
    rw [← h, base, Assoc.get?_insertAll]
    rfl
  rw [Option.or_none] at hlast
  exact List.mem_reverse.mp (Assoc.mem_of_get?_eq_some hlast)

theorem matchesSelector_of_satisfied (h : b.Satisfied document) :
    matchesSelector document b.selector = true := by
  obtain ⟨hentries, hcombinations⟩ := satisfied_iff.mp h
  have hbase {name : String} {value : Json} (hvalue : Assoc.get? name b.base = some value) :
      matchesMember document name value = true :=
    hentries _ (mem_entries_of_get?_base hvalue)
  refine b.matchesSelector_selector document |>.mpr ⟨fun _ _ hvalue _ => hbase hvalue, ?_⟩
  intro kind hheld
  have htruth := combinationsHold_iff.mp hcombinations kind hheld
  -- What stood under the operator before counts too: under `$or` one more member does no harm,
  -- under the other kinds it must hold by itself.
  by_cases hkind : kind = .or
  · subst hkind
    simp only [CombinationKind.truth, List.any_append, Bool.or_eq_true] at htruth ⊢
    exact .inr htruth
  · rw [truth_append hkind, htruth, Bool.and_true, listed]
    cases hvalue : Assoc.get? kind.operator b.base with
    | none =>
      cases kind with
      | or => exact absurd rfl hkind
      | _ => rfl
    | some value =>
      rw [Option.bind_some, ← matchesMember_operator_of_ne_or hkind]
      exact hbase hvalue

theorem satisfied_of_matchesSelector (hclear : b.IsClear)
    (h : matchesSelector document b.selector = true) : b.Satisfied document := by
  obtain ⟨hother, hkinds⟩ := (b.matchesSelector_selector document).mp h
  have hbase {entry : String × Json} (hentry : entry ∈ b.entries) :
      Assoc.get? entry.1 b.base = some entry.2 :=
    (Assoc.get?_insertAll_eq_some_iff hclear.agree).mpr hentry
  refine satisfied_iff.mpr ⟨?_, combinationsHold_iff.mpr ?_⟩
  · intro entry hentry
    -- an entry named like an operator in use is listed in front of the members, and
    -- only alternatives could make up for it
    by_cases htaken : ∃ c ∈ b.combinations, c.kind.operator = entry.1
    · obtain ⟨c, hc, hname⟩ := htaken
      have hkind : c.kind ≠ .or := fun hor =>
        hclear.alternatives ⟨c, hc, hor⟩ entry hentry (hor ▸ hname.symm)
      have htruth := hkinds c.kind (List.ne_nil_of_mem (mem_ofKind.mpr ⟨hc, rfl⟩))
      rw [truth_append hkind, listed, hname, hbase hentry, Bool.and_eq_true] at htruth
      rw [← hname, matchesMember_operator_of_ne_or hkind]
      exact htruth.1
    · exact hother entry.1 entry.2 (hbase hentry) fun c hc hname => htaken ⟨c, hc, hname⟩
  · intro kind hheld
    have htruth := hkinds kind hheld
    by_cases hkind : kind = .or
    · subst hkind
      obtain ⟨c, hc⟩ := List.exists_mem_of_ne_nil _ hheld
      have hfree : Assoc.get? CombinationKind.or.operator b.base = none := by
        cases hvalue : Assoc.get? CombinationKind.or.operator b.base with
        | none => rfl
        | some value =>
          have hentry := (Assoc.get?_insertAll_eq_some_iff hclear.agree).mp hvalue
          exact absurd rfl (hclear.alternatives ⟨c, mem_ofKind.mp hc⟩ _ hentry)
      rw [listed, hfree] at htruth
      exact htruth
    · rw [truth_append hkind, Bool.and_eq_true] at htruth
      exact htruth.2

/-- **Compiling keeps constraints that do not meet.**  Whatever satisfies all that is held
    is asked for, and if the builder is clear, nothing else is. -/
theorem clear_builder_keeps_constraints (b : QueryBuilder) (value : Json)
    (h : b.buildValue = .ok value) :
    ∃ root selector, value = .obj root ∧ Assoc.get? "selector" root = some (.obj selector) ∧
      ∀ document,
        (b.Satisfied document → matchesSelector document selector = true) ∧
        (b.IsClear → matchesSelector document selector = true → b.Satisfied document) := by
  obtain ⟨root, hroot, hselector⟩ := selector_of_buildValue h
  refine ⟨root, b.selector, hroot, hselector, ?_⟩
  intro document
  constructor
  · exact matchesSelector_of_satisfied
  · exact satisfied_of_matchesSelector

theorem clear_builder_keeps_constraints_car :
    let b := (((({} : QueryBuilder).setDocType "car").addFilter "make" (.str "vw")).addCondition
      "year" (.single "$exists" (.bool true))).addCombination
        (.ofClauses .or [.filter ⟨"color", .str "red"⟩, .filter ⟨"color", .str "blue"⟩])
    ∃ root selector, b.buildValue = .ok (.obj root) ∧
      Assoc.get? "selector" root = some (.obj selector) ∧
      ∀ document, matchesSelector document selector = true ↔ b.Satisfied document := by
  intro b
  have hentries : b.entries = [("docType", .str "car"), ("make", .str "vw"),
      ("year", .single "$exists" (.bool true))] := rfl
  have hclear : b.IsClear := by
    constructor
    · simp [hentries]
    · intro _
      simp [hentries, CombinationKind.operator]
  obtain ⟨root, selector, hroot, hselector, hmeaning⟩ := clear_builder_keeps_constraints b _ rfl
  exact ⟨root, selector, congrArg Except.ok hroot, hselector,
    fun document => ⟨(hmeaning document).2 hclear, (hmeaning document).1⟩⟩

/-- A filter and a condition on one field: the filter is lost, and a query is built all
    the same. -/
theorem filter_lost_to_condition :
    let b := (({} : QueryBuilder).addFilter "make" (.str "vw")).addCondition "make"
      (.single "$exists" (.bool true))
    let document : Json := .single "make" (.str "audi")
    (∃ root selector, b.buildValue = .ok (.obj root) ∧
      Assoc.get? "selector" root = some (.obj selector) ∧
      matchesSelector document selector = true) ∧ ¬ b.Satisfied document := by
  intro b document
  constructor
  · exact ⟨_, _, rfl, rfl, by decide⟩
  · intro h
    have hfilter : matchesSelector document [("make", .str "vw")] = true :=
      h.filters _ List.mem_cons_self
    revert hfilter
    decide

end QueryBuilder

end EntityStore
