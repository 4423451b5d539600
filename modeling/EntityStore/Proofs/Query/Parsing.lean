/-
  EntityStore/Proofs/Query/Parsing.lean
  =====================================
  **What is compiled is what a ledger reads.**  A builder is compiled to a text, and a
  ledger takes the text apart with a parser of its own.  Out of any calls on a builder
  either nothing is built, because none of them set a constraint, or the parsed query
  holds the selector, the order, the limit and the rows to skip that the calls asked for.
-/
import EntityStore.Proofs.Json.Documents
import EntityStore.Proofs.Query.Constraints
import EntityStore.Query.Document

namespace EntityStore

/-! ### Calls on a builder -/

/-- A combination whose values can be read back. -/
inductive Combination.Readable : Combination → Prop where
  | node {kind : CombinationKind} {filters : List Filter} {conditions : List Json}
    {children : List Combination} (filters_readable : ∀ filter ∈ filters, filter.value.Readable)
    (conditions_readable : ∀ condition ∈ conditions, condition.Readable)
    (children_readable : ∀ child ∈ children, child.Readable) :
    Combination.Readable (.node kind filters conditions children)

/-- A call that hands something to a builder. -/
inductive BuilderCall where
  | addField (field : String)
  | setDocType (docType : String)
  | addFilter (field : String) (value : Json)
  | addCondition (field : String) (condition : Json)
  | addCombination (combination : Combination)
  | addSort (field : String) (direction : SortDirection)
  | addSorts (tokens : List String)
  | setLimit (limit : UInt64)
  | setSkip (skip : UInt64)
  | useIndex (index : String)

namespace BuilderCall

/-- The builder behind a call.  Only sort tokens can be refused. -/
def apply (b : QueryBuilder) : BuilderCall → Except StoreError QueryBuilder
  | addField field => .ok (b.addField field)
  | setDocType docType => .ok (b.setDocType docType)
  | addFilter field value => .ok (b.addFilter field value)
  | addCondition field condition => .ok (b.addCondition field condition)
  | addCombination combination => .ok (b.addCombination combination)
  | addSort field direction => .ok (b.addSort field direction)
  | addSorts tokens => b.addSorts tokens
  | setLimit limit => .ok (b.setLimit limit)
  | setSkip skip => .ok (b.setSkip skip)
  | useIndex index => .ok (b.useIndex index)

/-- The call sets a constraint. -/
def Constrains : BuilderCall → Prop
  | setDocType _ | addFilter _ _ | addCondition _ _ | addCombination _ => True
  | addField _ | addSort _ _ | addSorts _ | setLimit _ | setSkip _ | useIndex _ => False

/-- The sorts that a call adds, in order. -/
def sorts : BuilderCall → List (String × SortDirection)
  | addSort field direction => [(field, direction)]
  | addSorts tokens => tokens.filterMap QueryBuilder.sortOfToken?
  | _ => []

/-- The limit that a call sets. -/
def limit? : BuilderCall → Option UInt64
  | setLimit limit => some limit
  | _ => none

/-- The number of rows to skip that a call sets. -/
def skip? : BuilderCall → Option UInt64
  | setSkip skip => some skip
  | _ => none

/-- The values in a call can be read back. -/
def Readable : BuilderCall → Prop
  | addFilter _ value => value.Readable
  | addCondition _ condition => condition.Readable
  | addCombination combination => combination.Readable
  | _ => True

end BuilderCall

namespace QueryBuilder

/-- The builder that calls make, one after the other. -/
def made (calls : List BuilderCall) : Except StoreError QueryBuilder :=
  calls.foldlM BuilderCall.apply {}

/-- The values in a builder can be read back. -/
structure Readable (b : QueryBuilder) : Prop where
  filters : ∀ filter ∈ b.filters, filter.2.Readable
  conditions : ∀ condition ∈ b.conditions, condition.2.Readable
  combinations : ∀ combination ∈ b.combinations, combination.Readable

/-- How a builder comes out of another one by calls. -/
structure MadeFrom (b : QueryBuilder) (calls : List BuilderCall) (b' : QueryBuilder) : Prop where
  constrained : b'.hasSelector = true ↔ b.hasSelector = true ∨ ∃ call ∈ calls, call.Constrains
  sort : b'.sort = b.sort ++ calls.flatMap BuilderCall.sorts
  limit : b'.limit = (calls.filterMap BuilderCall.limit?).getLast?.or b.limit
  skip : b'.skip = (calls.filterMap BuilderCall.skip?).getLast?.or b.skip
  readable : b.Readable → (∀ call ∈ calls, call.Readable) → b'.Readable

variable {b b' : QueryBuilder}

theorem eq_of_addSorts {tokens : List String} (h : b.addSorts tokens = .ok b') :
    b' = { b with sort := b.sort ++ tokens.filterMap sortOfToken? } := by
  induction tokens generalizing b with
  | nil =>
    cases h
    simp
  | cons token rest ih =>
    rw [addSorts] at h
    cases htoken : sortOfToken? token with
    | none =>
      rw [htoken] at h
      cases h
    | some sort =>
      rw [htoken] at h
      rw [ih h, List.filterMap_cons, htoken]
      simp [addSort]

theorem isEmpty_insert (key : String) (value : Json) (members : List (String × Json)) :
    (Assoc.insert key value members).isEmpty = false := by
  cases members with
  | nil => rfl
  | cons member rest =>
    rw [Assoc.insert]
    split
    · rfl
    · split <;> rfl

theorem readable_insert {key : String} {value : Json} {members : List (String × Json)}
    (hvalue : value.Readable) (h : ∀ member ∈ members, member.2.Readable) :
    ∀ member ∈ Assoc.insert key value members, member.2.Readable := by
  intro member hmember
  rcases Assoc.mem_insert hmember with rfl | hmember
  · exact hvalue
  · exact h member hmember

theorem madeFrom_step {call : BuilderCall} (h : call.apply b = .ok b') : b.MadeFrom [call] b' := by
  -- three calls constrain and hold values that must be read back; the others set members
  cases call with
  | addFilter field value =>
    cases h
    refine ⟨?_, by simp [addFilter, BuilderCall.sorts], rfl, rfl, ?_⟩
    · simp [hasSelector, addFilter, isEmpty_insert, BuilderCall.Constrains]
    · intro hb hcalls
      exact ⟨readable_insert (hcalls _ List.mem_cons_self) hb.filters, hb.conditions,
        hb.combinations⟩
  | addCondition field condition =>
    cases h
    refine ⟨?_, by simp [addCondition, BuilderCall.sorts], rfl, rfl, ?_⟩
    · simp [hasSelector, addCondition, isEmpty_insert, BuilderCall.Constrains]
    · intro hb hcalls
      exact ⟨hb.filters, readable_insert (hcalls _ List.mem_cons_self) hb.conditions,
        hb.combinations⟩
  | addCombination combination =>
    cases h
    refine ⟨?_, by simp [addCombination, BuilderCall.sorts], rfl, rfl, ?_⟩
    · simp [hasSelector, addCombination, BuilderCall.Constrains]
    · intro hb hcalls
      refine ⟨hb.filters, hb.conditions, ?_⟩
      intro other hother
      rcases List.mem_append.mp hother with hother | hother
      · exact hb.combinations other hother
      · rw [List.mem_singleton.mp hother]
        exact hcalls _ List.mem_cons_self
  | setDocType docType =>
    cases h
    refine ⟨?_, by simp [setDocType, BuilderCall.sorts], rfl, rfl, fun hb _ => ⟨hb.1, hb.2, hb.3⟩⟩
    simp [hasSelector, setDocType, BuilderCall.Constrains]
  | addSorts tokens =>
    cases eq_of_addSorts h
    refine ⟨?_, by simp [BuilderCall.sorts], rfl, rfl, fun hb _ => ⟨hb.1, hb.2, hb.3⟩⟩
    simp [hasSelector, BuilderCall.Constrains]
  | addSort field direction =>
    cases h
    refine ⟨?_, by simp [addSort, BuilderCall.sorts], rfl, rfl, fun hb _ => ⟨hb.1, hb.2, hb.3⟩⟩
    simp [hasSelector, addSort, BuilderCall.Constrains]
  | addField _ | setLimit _ | setSkip _ | useIndex _ =>
    cases h
    refine ⟨?_, by simp [addField, setLimit, setSkip, useIndex, BuilderCall.sorts], rfl, rfl,
      fun hb _ => ⟨hb.1, hb.2, hb.3⟩⟩
    simp [hasSelector, addField, setLimit, setSkip, useIndex, BuilderCall.Constrains]

/-- The last number that calls set, where the first call comes on its own. -/
theorem last_cons (set? : BuilderCall → Option UInt64) (call : BuilderCall)
    (rest : List BuilderCall) (before : Option UInt64) :
    ((call :: rest).filterMap set?).getLast?.or before =
      (rest.filterMap set?).getLast?.or (([call].filterMap set?).getLast?.or before) := by
  rw [← List.singleton_append, List.filterMap_append, List.getLast?_append, Option.or_assoc]

theorem madeFrom_run {calls : List BuilderCall} (h : calls.foldlM BuilderCall.apply b = .ok b') :
    b.MadeFrom calls b' := by
  induction calls generalizing b with
  | nil =>
    cases h
    exact ⟨by simp, by simp, rfl, rfl, fun hb _ => hb⟩
  | cons call rest ih =>
    rw [List.foldlM_cons] at h
    obtain ⟨next, hnext, hrest⟩ := bind_eq_ok_iff.mp h
    have hstep := madeFrom_step hnext
    have hrun := ih hrest
    -- What the first call makes and what the others make, put together field by field.
    constructor
    · rw [hrun.constrained, hstep.constrained]
      simp [or_assoc]
    · rw [hrun.sort, hstep.sort]
      simp
    · rw [hrun.limit, hstep.limit]
      exact (last_cons BuilderCall.limit? call rest b.limit).symm
    · rw [hrun.skip, hstep.skip]
      exact (last_cons BuilderCall.skip? call rest b.skip).symm
    · intro hb hcalls
      obtain ⟨hcall, hcalls⟩ := List.forall_mem_cons.mp hcalls
      exact hrun.readable (hstep.readable hb (by simpa using hcall)) hcalls

/-! ### The built value can be read back -/

theorem readable_single {key : String} {value : Json} (h : value.Readable) :
    (Json.single key value).Readable :=
  .obj (List.pairwise_singleton _ _) (by simpa using h)

theorem readable_renderAll {children : List Combination}
    (h : ∀ child ∈ children, child.render.Readable) :
    ∀ item ∈ Combination.renderAll children, item.Readable := by
  induction children with
  | nil => simp [Combination.renderAll]
  | cons child rest ih =>
    obtain ⟨hchild, hrest⟩ := List.forall_mem_cons.mp h
    rw [Combination.renderAll]
    exact List.forall_mem_cons.mpr ⟨hchild, ih hrest⟩

theorem readable_render {c : Combination} (h : c.Readable) : c.render.Readable := by
  induction h with
  | node hfilters hconditions _ ih =>
    rw [Combination.render]
    refine readable_single (.arr ?_)
    refine List.forall_mem_append.mpr ⟨List.forall_mem_append.mpr ⟨?_, hconditions⟩, ?_⟩
    · exact List.forall_mem_map.mpr fun filter hfilter => readable_single (hfilters filter hfilter)
    · exact readable_renderAll ih

theorem readable_members {c : Combination} (h : c.Readable) : ∀ item ∈ c.members, item.Readable := by
  have hrender := readable_render h
  rw [Combination.render_eq] at hrender
  cases hrender with
  | obj _ hmembers =>
    cases hmembers _ List.mem_cons_self with
    | arr hitems => exact hitems

theorem readable_mergeCombination {selector : List (String × Json)} {c : Combination}
    (h : ∀ member ∈ selector, member.2.Readable) (hc : c.Readable) :
    ∀ member ∈ mergeCombination selector c, member.2.Readable := by
  have hlisted : ∀ item ∈ listed c.kind.operator selector, item.Readable := by
    intro item hitem
    unfold listed at hitem
    cases hfound : Assoc.get? c.kind.operator selector with
    | none => simp [hfound] at hitem
    | some value =>
      have hvalue := h _ (Assoc.mem_of_get?_eq_some hfound)
      cases hvalue with
      | arr hitems => exact hitems item (by simpa [hfound, Json.items?] using hitem)
      | _ => simp [hfound, Json.items?] at hitem
  rw [mergeCombination_eq]
  exact readable_insert (.arr (List.forall_mem_append.mpr ⟨hlisted, readable_members hc⟩)) h

theorem readable_selector (h : b.Readable) : (Json.obj b.selector).Readable := by
  refine .obj b.sorted_selector ?_
  have hbase : ∀ member ∈ b.base, member.2.Readable := by
    intro member hmember
    rcases Assoc.mem_insertAll hmember with hentry | hnone
    · rcases mem_entries_iff.mp hentry with ⟨docType, -, rfl⟩ | hfilter | hcondition
      · exact .str docType
      · exact h.filters member hfilter
      · exact h.conditions member hcondition
    · cases hnone
  have hcombinations := h.combinations
  rw [selector_eq]
  -- The combinations are merged in one by one, each into a selector that is readable already.
  generalize b.base = selector at hbase
  generalize b.combinations = combinations at hcombinations
  induction combinations generalizing selector with
  | nil => exact hbase
  | cons c rest ih =>
    obtain ⟨hc, hrest⟩ := List.forall_mem_cons.mp hcombinations
    exact ih _ (readable_mergeCombination hbase hc) hrest

theorem readable_optionalMember {name : String} {value : Option Json}
    (h : ∀ v ∈ value, v.Readable) : ∀ member ∈ optionalMember name value, member.2.Readable := by
  cases value with
  | none => exact nofun
  | some value => simpa [optionalMember] using h value rfl

theorem readable_count (n : UInt64) : (Json.ofNat n.toNat).Readable := by
  refine .num ⟨?_, ?_⟩
  · exact Int.le_trans (by decide) (Int.natCast_nonneg n.toNat)
  · exact Int.ofNat_lt.mpr n.toNat_lt_size

theorem readable_queryMembers (h : b.Readable) : ∀ member ∈ b.queryMembers, member.2.Readable := by
  have hcount {n : Option UInt64} : ∀ v ∈ n.map fun n => Json.ofNat n.toNat, v.Readable := by
    cases n with
    | none => exact nofun
    | some n => simpa using readable_count n
  unfold queryMembers
  simp only [List.forall_mem_append]
  -- fields, selector, sorts, limit, skip and index, each there only if it is set
  refine ⟨⟨⟨⟨⟨?_, ?_⟩, ?_⟩, ?_⟩, ?_⟩, ?_⟩
  · refine readable_optionalMember ?_
    split
    · exact nofun
    · rintro _ ⟨⟩
      exact .arr (List.forall_mem_map.mpr fun field _ => .str field)
  · simpa using readable_selector h
  · refine readable_optionalMember ?_
    split
    · exact nofun
    · rintro _ ⟨⟩
      exact .arr (List.forall_mem_map.mpr fun entry _ => readable_single (.str _))
  · exact readable_optionalMember hcount
  · exact readable_optionalMember hcount
  · refine readable_optionalMember ?_
    cases b.index with
    | none => exact nofun
    | some index => simpa using Json.Readable.str index

/-! ### Taking the built value apart -/

/-- The members of a built value. -/
def root (b : QueryBuilder) : List (String × Json) := Assoc.insertAll b.queryMembers []

theorem buildValue_eq (b : QueryBuilder) :
    b.buildValue = if b.hasSelector then .ok (.obj b.root) else .error .noSelector := rfl

theorem readable_root (h : b.Readable) : (Json.obj b.root).Readable := by
  refine .obj (Assoc.sorted_insertAll List.Pairwise.nil) ?_
  intro member hmember
  rcases Assoc.mem_insertAll hmember with hmember | hnone
  · exact readable_queryMembers h member hmember
  · cases hnone

theorem get?_optionalMember_eq (name key : String) (value : Option Json) :
    Assoc.get? key (optionalMember name value).reverse = if name = key then value else none := by
  cases value with
  | none => split <;> rfl
  | some value => rfl

/-- The value under a name in a built value, where the names are compared one by one. -/
theorem get?_root (b : QueryBuilder) :
    Assoc.get? "selector" b.root = some (.obj b.selector) ∧
    Assoc.get? "sort" b.root = (if b.sort.isEmpty then none
      else some (.arr (b.sort.map fun entry => .single entry.1 (.str entry.2.name)))) ∧
    Assoc.get? "limit" b.root = b.limit.map (fun n => .ofNat n.toNat) ∧
    Assoc.get? "skip" b.root = b.skip.map fun n => .ofNat n.toNat := by
  simp [root, Assoc.get?_insertAll, queryMembers, Assoc.get?_append, get?_optionalMember_eq,
    Assoc.get?]

theorem sortList_singles (sorts : List (String × SortDirection)) :
    DocumentQuery.sortList (sorts.map fun entry => .single entry.1 (.str entry.2.name)) =
      .ok (sorts.map fun entry => (entry.1, decide (entry.2 = .desc))) := by
  induction sorts with
  | nil => rfl
  | cons entry rest ih =>
    obtain ⟨field, direction⟩ := entry
    rw [List.map_cons, DocumentQuery.sortList, ih]
    cases direction <;> rfl

theorem count?_ofNat (n : UInt64) : (Json.ofNat n.toNat).count? = some n.toNat := by
  have hfits : 0 ≤ (n.toNat : Int) ∧ (n.toNat : Int) < UInt64.size :=
    ⟨Int.natCast_nonneg _, Int.ofNat_lt.mpr n.toNat_lt_size⟩
  rw [Json.ofNat, Json.count?, if_pos hfits, Int.toNat_natCast]

/-- The query that a builder asks for. -/
def query (b : QueryBuilder) : DocumentQuery where
  selector := b.selector
  sort := b.sort.map fun entry => (entry.1, decide (entry.2 = .desc))
  limit := b.limit.map UInt64.toNat
  skip := (b.skip.map UInt64.toNat).getD 0

theorem ofJson_root (b : QueryBuilder) : DocumentQuery.ofJson (.obj b.root) = .ok b.query := by
  obtain ⟨hselector, hsort, hlimit, hskip⟩ := b.get?_root
  have hcount (n : Option UInt64) :
      (n.map fun n => Json.ofNat n.toNat).bind Json.count? = n.map UInt64.toNat := by
    cases n with
    | none => rfl
    | some n => rw [Option.map_some, Option.bind_some, count?_ofNat, Option.map_some]
  unfold DocumentQuery.ofJson query
  simp only [hselector, hsort, hlimit, hskip, hcount]
  cases b.sort with
  | nil => rfl
  | cons entry rest =>
    show (DocumentQuery.sortList ((entry :: rest).map _)).map _ = _
    rw [sortList_singles]
    rfl

/-- Calls whose values can be read back build a value that can be read back. -/
theorem readable_of_made {calls : List BuilderCall} (h : made calls = .ok b)
    (hcalls : ∀ call ∈ calls, call.Readable) : (Json.obj b.root).Readable := by
  have hb : b.Readable := (madeFrom_run h).readable ⟨nofun, nofun, nofun⟩ hcalls
  exact readable_root hb

/-- **Parsing undoes compiling.**  Whatever calls are made on a builder, building fails just
    if none of them sets a constraint.  Otherwise the built text is read as a query with
    the selector of the built value, with the sorts in the order of the calls, and with the
    last limit and number of rows to skip that were set, if the value is nested no deeper
    than the reader goes and what it holds is read back. -/
theorem parsing_undoes_compiling {calls : List BuilderCall} (h : made calls = .ok b) :
    (b.build = .error .noSelector ↔ ∀ call ∈ calls, ¬ call.Constrains) ∧
    (b.sort = calls.flatMap BuilderCall.sorts ∧
      b.limit = (calls.filterMap BuilderCall.limit?).getLast? ∧
      b.skip = (calls.filterMap BuilderCall.skip?).getLast?) ∧
    ((∃ call ∈ calls, call.Constrains) →
      ∃ root, b.buildValue = .ok (.obj root) ∧ b.build = .ok (Json.obj root).render ∧
        ((Json.obj root).Readable → (Json.obj root).depth ≤ 127 →
          ∃ query, DocumentQuery.ofText (Json.obj root).render = .ok query ∧
            Assoc.get? "selector" root = some (.obj query.selector) ∧
            query.sort = b.sort.map (fun entry => (entry.1, decide (entry.2 = .desc))) ∧
            query.limit = b.limit.map UInt64.toNat ∧
            query.skip = (b.skip.map UInt64.toNat).getD 0)) := by
  -- what a run of calls leaves is folded up once; each part of the claim reads one field of it
  have hmade : MadeFrom {} calls b := madeFrom_run h
  have hconstrained : b.hasSelector = true ↔ ∃ call ∈ calls, call.Constrains := by
    rw [hmade.constrained]
    simp [hasSelector]
  refine ⟨?_, ⟨hmade.sort, ?_, ?_⟩, ?_⟩
  · have hnone : b.build = .error .noSelector ↔ ¬ b.hasSelector = true := by
      rw [build, buildValue_eq]
      cases b.hasSelector <;> simp [Except.map]
    rw [hnone, hconstrained]
    simp
  · rw [hmade.limit]
    exact Option.or_none
  · rw [hmade.skip]
    exact Option.or_none
  · intro hcall
    have hbuilt : b.buildValue = .ok (.obj b.root) := by
      rw [buildValue_eq, if_pos (hconstrained.mpr hcall)]
    refine ⟨b.root, hbuilt, by rw [build, hbuilt]; rfl, ?_⟩
    intro hreadable hdepth
    have hread := Json.ofText?_render hreadable hdepth
    refine ⟨b.query, ?_, b.get?_root.1, rfl, rfl, rfl⟩
    rw [DocumentQuery.ofText, hread]
    exact b.ofJson_root

/-- A field that is sorted by twice, a number with a fraction, and the largest limit. -/
theorem parsing_undoes_compiling_car :
    let calls : List BuilderCall :=
      [.addSort "year" .desc, .addFilter "load" (.num (.float ⟨0x3fe0000000000000⟩)),
        .addSorts ["make:asc", "year:ASC"], .setLimit 5, .addField "make",
        .setLimit 0xffffffffffffffff]
    ∃ b text query, made calls = .ok b ∧ b.build = .ok text ∧
      DocumentQuery.ofText text = .ok query ∧
      query.sort = [("year", true), ("make", false), ("year", false)] ∧
      query.limit = some 0xffffffffffffffff ∧ query.skip = 0 := by
  intro calls
  have hmade : made calls = .ok
      { fields := ["make"], filters := [("load", .num (.float ⟨0x3fe0000000000000⟩))],
        sort := [("year", .desc), ("make", .asc), ("year", .asc)],
        limit := some 0xffffffffffffffff } := rfl
  have hload : Number.ReadsBack (.float ⟨0x3fe0000000000000⟩) := by
    show Number.ofBytes? _ = _
    decide +kernel
  have hreadable : ∀ call ∈ calls, call.Readable := by
    simp only [calls, List.forall_mem_cons]
    exact ⟨trivial, .num hload, trivial, trivial, trivial, trivial, List.forall_mem_nil _⟩
  have hcall : ∃ call ∈ calls, call.Constrains := ⟨_, List.mem_cons_of_mem _ List.mem_cons_self, trivial⟩
  obtain ⟨root, hbuilt, hbuild, hparsed⟩ := (parsing_undoes_compiling hmade).2.2 hcall
  have hroot : (Json.obj root).Readable := by
    cases hbuilt
    exact readable_of_made hmade hreadable
  have hdepth : (Json.obj root).depth ≤ 127 := by
    cases hbuilt
    decide
  obtain ⟨query, hquery, -, hsort, hlimit, hskip⟩ := hparsed hroot hdepth
  exact ⟨_, _, query, hmade, hbuild, hquery, hsort, hlimit, hskip⟩

end QueryBuilder

end EntityStore
