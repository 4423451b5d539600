/-
  EntityStore/Proofs/Query/Interleaving.lean
  ==========================================
  **The order of calls that have nothing to do with each other is of no account.**

  Every call on a builder belongs to a slot, and works on one part of the builder only:
  made on that part alone it makes the same part (`QueryBuilder.apply_part`), and it
  leaves all other parts as they are (`QueryBuilder.part_of_other`).  Thus each part of a
  builder comes from the calls of its slot (`QueryBuilder.part_of_run`), and a builder
  with the same parts is compiled to the same text (`QueryBuilder.build_of_parts`),
  whatever names meet in its selector.
-/
import Mathlib.Data.List.Sort
import EntityStore.Proofs.Query.Parsing

namespace EntityStore

/-- Lists in key order with the same value under every key are equal. -/
theorem Assoc.eq_of_get?_eq {α : Type} {entries others : List (String × α)}
    (hentries : Sorted entries) (hothers : Sorted others)
    (h : ∀ key, get? key entries = get? key others) : entries = others := by
  have : Std.Irrefl fun a b : String × α => a.1 < b.1 := ⟨fun a => String.lt_irrefl a.1⟩
  have : Std.Antisymm fun a b : String × α => a.1 < b.1 :=
    ⟨fun a b hab hba => absurd hba (String.lt_asymm hab)⟩
  refine List.Pairwise.eq_of_mem_iff hentries hothers fun entry => ?_
  rw [← get?_eq_some_iff hentries, ← get?_eq_some_iff hothers, h]

/-! ### Slots -/

/-- What a call works on.  Filters and conditions have a slot for each field, and
    combinations have one for each kind. -/
inductive BuilderSlot where
  | fields
  | docType
  | filter (field : String)
  | condition (field : String)
  | combinations (kind : CombinationKind)
  | sorts
  | limit
  | skip
  | index
deriving DecidableEq

namespace BuilderCall

def slot : BuilderCall → BuilderSlot
  | addField _ => .fields
  | setDocType _ => .docType
  | addFilter field _ => .filter field
  | addCondition field _ => .condition field
  | addCombination combination => .combinations combination.kind
  | addSort _ _ | addSorts _ => .sorts
  | setLimit _ => .limit
  | setSkip _ => .skip
  | useIndex _ => .index

/-- The calls of one slot, in their order. -/
def ofSlot (slot : BuilderSlot) (calls : List BuilderCall) : List BuilderCall :=
  calls.filter fun call => call.slot = slot

/-- Two lists of the same calls in which the calls of one slot come in the same order. -/
def SameBySlot (calls others : List BuilderCall) : Prop :=
  ∀ slot, ofSlot slot calls = ofSlot slot others

theorem ofSlot_cons_same {call : BuilderCall} {slot : BuilderSlot} (h : call.slot = slot)
    (calls : List BuilderCall) : ofSlot slot (call :: calls) = call :: ofSlot slot calls :=
  List.filter_cons_of_pos (decide_eq_true h)

theorem ofSlot_cons_other {call : BuilderCall} {slot : BuilderSlot} (h : call.slot ≠ slot)
    (calls : List BuilderCall) : ofSlot slot (call :: calls) = ofSlot slot calls :=
  List.filter_cons_of_neg (by simpa using h)

/-- Calls that come in the same order slot by slot are rearranged. -/
theorem SameBySlot.perm {calls others : List BuilderCall} (h : SameBySlot calls others) :
    calls.Perm others := by
  classical
  refine List.perm_iff_count.mpr fun call => ?_
  have hcount (list : List BuilderCall) : (ofSlot call.slot list).count call = list.count call :=
    List.count_filter (decide_eq_true rfl)
  rw [← hcount calls, ← hcount others, h]

end BuilderCall

namespace QueryBuilder

open BuilderCall (ofSlot SameBySlot ofSlot_cons_same ofSlot_cons_other)

variable {b b' : QueryBuilder} {call : BuilderCall} {slot : BuilderSlot} {error : StoreError}

/-! ### Parts -/

/-- The part of a builder that the calls of one slot work on. -/
def part (b : QueryBuilder) : BuilderSlot → QueryBuilder
  | .fields => { fields := b.fields }
  | .docType => { docType := b.docType }
  | .filter field => { filters := optionalMember field (Assoc.get? field b.filters) }
  | .condition field => { conditions := optionalMember field (Assoc.get? field b.conditions) }
  | .combinations kind => { combinations := ofKind kind b.combinations }
  | .sorts => { sort := b.sort }
  | .limit => { limit := b.limit }
  | .skip => { skip := b.skip }
  | .index => { index := b.index }

theorem part_empty (slot : BuilderSlot) : part {} slot = {} := by
  cases slot <;> rfl

/-- Sort tokens are read alike by all builders. -/
theorem addSorts_eq_map (b c : QueryBuilder) (tokens : List String) :
    c.addSorts tokens = (b.addSorts tokens).map fun _ =>
      { c with sort := c.sort ++ tokens.filterMap sortOfToken? } := by
  induction tokens generalizing b c with
  | nil => simp [addSorts, Except.map]
  | cons token rest ih =>
    rw [addSorts, addSorts]
    cases htoken : sortOfToken? token with
    | none => rfl
    | some sort =>
      show (c.addSort sort.1 sort.2).addSorts rest = ((b.addSort sort.1 sort.2).addSorts rest).map _
      rw [ih (b.addSort sort.1 sort.2), List.filterMap_cons, htoken]
      simp [addSort]

theorem optionalMember_insert (field : String) (value : Json) (members : List (String × Json)) :
    optionalMember field (Assoc.get? field (Assoc.insert field value members)) =
      Assoc.insert field value (optionalMember field (Assoc.get? field members)) := by
  rw [Assoc.get?_insert, if_pos rfl]
  cases Assoc.get? field members with
  | none => rfl
  | some old => simp [optionalMember, Assoc.insert]

/-- **A call makes its part** out of that part alone. -/
theorem apply_part (h : call.apply b = .ok b') :
    call.apply (b.part call.slot) = .ok (b'.part call.slot) := by
  cases call with
  | addFilter field value =>
    cases h
    show Except.ok (addFilter _ field value) = _
    simp only [part, BuilderCall.slot, addFilter, optionalMember_insert]
  | addCondition field condition =>
    cases h
    show Except.ok (addCondition _ field condition) = _
    simp only [part, BuilderCall.slot, addCondition, optionalMember_insert]
  -- Combinations are kept in one list, of which a part holds those of its kind.
  | addCombination combination =>
    cases h
    show Except.ok (addCombination _ combination) = _
    simp [part, BuilderCall.slot, addCombination, ofKind]
  | addSorts tokens =>
    show addSorts _ tokens = _
    rw [addSorts_eq_map b, show b.addSorts tokens = .ok b' from h, eq_of_addSorts h]
    rfl
  | addField _ | setDocType _ | addSort _ _ | setLimit _ | setSkip _ | useIndex _ =>
    cases h
    rfl

/-- **A call leaves the parts of other slots as they are.** -/
theorem part_of_other (h : call.apply b = .ok b') (hslot : call.slot ≠ slot) :
    b'.part slot = b.part slot := by
  -- a field, or the kind of a combination, is a slot of its own; other calls change one member
  cases call with
  | addFilter field value =>
    cases h
    cases slot with
    | filter other =>
      have hfield : field ≠ other := fun hsame => hslot (congrArg BuilderSlot.filter hsame)
      simp only [part, addFilter, Assoc.get?_insert, if_neg hfield]
    | _ => rfl
  | addCondition field condition =>
    cases h
    cases slot with
    | condition other =>
      have hfield : field ≠ other := fun hsame => hslot (congrArg BuilderSlot.condition hsame)
      simp only [part, addCondition, Assoc.get?_insert, if_neg hfield]
    | _ => rfl
  | addCombination combination =>
    cases h
    cases slot with
    | combinations kind =>
      have hkind : combination.kind ≠ kind := fun hsame =>
        hslot (congrArg BuilderSlot.combinations hsame)
      simp [part, addCombination, ofKind, hkind]
    | _ => rfl
  | addSorts tokens =>
    cases eq_of_addSorts h
    cases slot with
    | sorts => exact absurd rfl hslot
    | _ => rfl
  | addField _ | setDocType _ | addSort _ _ | setLimit _ | setSkip _ | useIndex _ =>
    cases h
    cases slot <;> first | rfl | exact absurd rfl hslot

/-- Only sort tokens are refused, and by every builder alike. -/
theorem refused_alike (h : call.apply b = .error error) (c : QueryBuilder) :
    call.slot = .sorts ∧ call.apply c = .error error := by
  cases call with
  | addSorts tokens =>
    refine ⟨rfl, ?_⟩
    show c.addSorts tokens = _
    rw [addSorts_eq_map b, show b.addSorts tokens = .error error from h]
    rfl
  | _ => cases h

/-! ### Runs of calls -/

/-- **The calls of a slot make its part of the builder.** -/
theorem part_of_run {calls : List BuilderCall} (h : calls.foldlM BuilderCall.apply b = .ok b')
    (slot : BuilderSlot) :
    (ofSlot slot calls).foldlM BuilderCall.apply (b.part slot) = .ok (b'.part slot) := by
  induction calls generalizing b with
  | nil =>
    cases h
    rfl
  | cons call rest ih =>
    rw [List.foldlM_cons] at h
    obtain ⟨next, hnext, hrest⟩ := bind_eq_ok_iff.mp h
    by_cases hslot : call.slot = slot
    · subst hslot
      rw [ofSlot_cons_same rfl, List.foldlM_cons, apply_part hnext]
      exact ih hrest
    · rw [ofSlot_cons_other hslot, ← part_of_other hnext hslot]
      exact ih hrest

theorem refused_of_run {calls : List BuilderCall}
    (h : calls.foldlM BuilderCall.apply b = .error error) :
    (ofSlot .sorts calls).foldlM BuilderCall.apply (b.part .sorts) = .error error := by
  induction calls generalizing b with
  | nil => cases h
  | cons call rest ih =>
    rw [List.foldlM_cons] at h
    -- Only sort tokens are refused, so the call that is refused is among those of this slot.
    cases hcall : call.apply b with
    | error refusal =>
      rw [hcall] at h
      cases h
      obtain ⟨hslot, hrefused⟩ := refused_alike hcall (b.part .sorts)
      rw [ofSlot_cons_same hslot, List.foldlM_cons, hrefused]
      rfl
    | ok next =>
      rw [hcall] at h
      by_cases hslot : call.slot = .sorts
      · rw [ofSlot_cons_same hslot, List.foldlM_cons, ← hslot, apply_part hcall, hslot]
        exact ih h
      · rw [ofSlot_cons_other hslot, ← part_of_other hcall hslot]
        exact ih h

theorem made_ofSlot {calls : List BuilderCall} (h : made calls = .ok b) (slot : BuilderSlot) :
    made (ofSlot slot calls) = .ok (b.part slot) := by
  have hpart := part_of_run h slot
  rwa [part_empty] at hpart

theorem made_sorts_of_refused {calls : List BuilderCall} (h : made calls = .error error) :
    made (ofSlot .sorts calls) = .error error := by
  have hrefused := refused_of_run h
  rwa [part_empty] at hrefused

/-- Filters and conditions are held in the order of their fields. -/
structure InFieldOrder (b : QueryBuilder) : Prop where
  filters : Assoc.Sorted b.filters
  conditions : Assoc.Sorted b.conditions

theorem inFieldOrder_step (hb : b.InFieldOrder) (h : call.apply b = .ok b') :
    b'.InFieldOrder := by
  cases call with
  | addFilter field value =>
    cases h
    exact ⟨Assoc.sorted_insert hb.filters, hb.conditions⟩
  | addCondition field condition =>
    cases h
    exact ⟨hb.filters, Assoc.sorted_insert hb.conditions⟩
  | addSorts tokens =>
    cases eq_of_addSorts h
    exact ⟨hb.filters, hb.conditions⟩
  | _ =>
    cases h
    exact ⟨hb.filters, hb.conditions⟩

theorem inFieldOrder_run {calls : List BuilderCall} (hb : b.InFieldOrder)
    (h : calls.foldlM BuilderCall.apply b = .ok b') : b'.InFieldOrder := by
  induction calls generalizing b with
  | nil =>
    cases h
    exact hb
  | cons call rest ih =>
    rw [List.foldlM_cons] at h
    obtain ⟨next, hnext, hrest⟩ := bind_eq_ok_iff.mp h
    exact ih (inFieldOrder_step hb hnext) hrest

theorem inFieldOrder_of_made {calls : List BuilderCall} (h : made calls = .ok b) :
    b.InFieldOrder := by
  have hempty : InFieldOrder {} := ⟨List.Pairwise.nil, List.Pairwise.nil⟩
  exact inFieldOrder_run hempty h

/-! ### The text of the parts -/

theorem eq_nil_iff_ofKind {combinations : List Combination} :
    combinations = [] ↔ ∀ kind, ofKind kind combinations = [] := by
  constructor
  · rintro rfl kind
    rfl
  · intro h
    refine List.eq_nil_iff_forall_not_mem.mpr fun c hc => ?_
    exact List.eq_nil_iff_forall_not_mem.mp (h c.kind) c (mem_ofKind.mpr ⟨hc, rfl⟩)

/-- Combinations that are the same kind by kind are merged into the same selector. -/
theorem merged_of_kinds {selector : List (String × Json)} (hselector : Assoc.Sorted selector)
    {combinations others : List Combination}
    (h : ∀ kind, ofKind kind combinations = ofKind kind others) :
    combinations.foldl mergeCombination selector = others.foldl mergeCombination selector := by
  refine Assoc.eq_of_get?_eq (sorted_merged hselector combinations)
    (sorted_merged hselector others) fun name => ?_
  by_cases hname : ∃ kind : CombinationKind, kind.operator = name
  · obtain ⟨kind, rfl⟩ := hname
    rw [get?_merged_operator, get?_merged_operator, h]
  · have hother (c : Combination) : c.kind.operator ≠ name := fun hc => hname ⟨_, hc⟩
    rw [get?_merged_other fun c _ => hother c, get?_merged_other fun c _ => hother c]

theorem get?_optionalMember_self (field : String) (value : Option Json) :
    Assoc.get? field (optionalMember field value) = value := by
  cases value with
  | none => rfl
  | some value => exact if_pos rfl

/-- **Builders with the same parts are compiled to the same text.** -/
theorem build_of_parts (hb : b.InFieldOrder) (hb' : b'.InFieldOrder)
    (h : ∀ slot, b.part slot = b'.part slot) : b.build = b'.build := by
  have hview {α : Type} (view : QueryBuilder → α) (slot : BuilderSlot) :
      view (b.part slot) = view (b'.part slot) := congrArg view (h slot)
  -- lists by field are equal if each field holds the same in both
  have hfilters : b.filters = b'.filters := by
    refine Assoc.eq_of_get?_eq hb.filters hb'.filters fun field => ?_
    have hfield := hview (fun part => Assoc.get? field part.filters) (.filter field)
    simpa only [part, get?_optionalMember_self] using hfield
  have hconditions : b.conditions = b'.conditions := by
    refine Assoc.eq_of_get?_eq hb.conditions hb'.conditions fun field => ?_
    have hfield := hview (fun part => Assoc.get? field part.conditions) (.condition field)
    simpa only [part, get?_optionalMember_self] using hfield
  have hkinds (kind : CombinationKind) : ofKind kind b.combinations = ofKind kind b'.combinations :=
    hview combinations (.combinations kind)
  have hfields : b.fields = b'.fields := hview fields .fields
  have hdocType : b.docType = b'.docType := hview docType .docType
  have hsort : b.sort = b'.sort := hview sort .sorts
  have hlimit : b.limit = b'.limit := hview limit .limit
  have hskip : b.skip = b'.skip := hview skip .skip
  have hindex : b.index = b'.index := hview index .index
  have hentries : b.entries = b'.entries := by
    rw [entries, entries, hdocType, hfilters, hconditions]
  -- combinations are merged kind by kind, so their order among kinds does not matter
  have hselector : b.selector = b'.selector := by
    rw [selector_eq, selector_eq, base, base, hentries]
    exact merged_of_kinds (Assoc.sorted_insertAll List.Pairwise.nil) hkinds
  have hnone : b.combinations = [] ↔ b'.combinations = [] := by
    rw [eq_nil_iff_ofKind, eq_nil_iff_ofKind]
    simp only [hkinds]
  have hhas : b.hasSelector = b'.hasSelector := by
    rw [Bool.eq_iff_iff]
    simp [hasSelector, hdocType, hfilters, hconditions, hnone]
  have hmembers : b.queryMembers = b'.queryMembers := by
    rw [queryMembers, queryMembers, hfields, hselector, hsort, hlimit, hskip, hindex]
  rw [build, build, buildValue, buildValue, hhas, hmembers]

/-- **The compiled text ignores how calls of different slots are interleaved.**  Calls that
    are rearranged without changing the order of those on the same slot are refused alike
    or make builders that are compiled to the same text, whatever fields, document types and
    operator names they share. -/
theorem text_ignores_interleaving {calls others : List BuilderCall} (h : SameBySlot calls others) :
    (made calls).map build = (made others).map build := by
  -- only sort tokens are refused, and they come in one order in both
  cases hmade : made calls with
  | error error =>
    have hsorts := made_sorts_of_refused hmade
    cases hothers : made others with
    | error refusal =>
      rw [h, made_sorts_of_refused hothers] at hsorts
      cases hsorts
      rfl
    | ok b' =>
      rw [h, made_ofSlot hothers] at hsorts
      cases hsorts
  | ok b =>
    cases hothers : made others with
    | error refusal =>
      have hsorts := made_ofSlot hmade .sorts
      rw [h, made_sorts_of_refused hothers] at hsorts
      cases hsorts
    | ok b' =>
      -- each part is what the calls on its slot make alone
      have hparts (slot : BuilderSlot) : b.part slot = b'.part slot := by
        have hpart := made_ofSlot hmade slot
        rw [h, made_ofSlot hothers] at hpart
        exact (Except.ok.inj hpart).symm
      exact congrArg Except.ok
        (build_of_parts (inFieldOrder_of_made hmade) (inFieldOrder_of_made hothers) hparts)

/-- A document type, two filters and a condition that meet on one name, and a filter that is
    named like the operator of a combination. -/
theorem text_ignores_interleaving_car :
    let combination : Combination := .node .or [⟨"age", .ofNat 7⟩] [] []
    let calls : List BuilderCall :=
      [.setDocType "car", .addFilter "docType" (.str "van"), .addFilter "$or" (.arr [.null]),
        .addCombination combination, .addCondition "docType" (.str "bus"),
        .addFilter "docType" (.str "truck")]
    let others : List BuilderCall :=
      [.addCombination combination, .addCondition "docType" (.str "bus"),
        .addFilter "docType" (.str "van"), .addFilter "docType" (.str "truck"),
        .addFilter "$or" (.arr [.null]), .setDocType "car"]
    ∃ b b', made calls = .ok b ∧ made others = .ok b' ∧ b.build = b'.build ∧
      b.build.toOption = some
        "\x7b\"selector\":\x7b\"$or\":[null,\x7b\"age\":7\x7d],\"docType\":\"bus\"\x7d\x7d" := by
  intro combination calls others
  have hsame : SameBySlot calls others := by
    intro slot
    cases slot with
    | filter field =>
      by_cases hfield : "docType" = field
      · subst hfield
        rfl
      · simp [ofSlot, calls, others, List.filter_cons, BuilderCall.slot, hfield]
    | combinations kind => cases kind <;> rfl
    | _ => rfl
  have hbuilt := text_ignores_interleaving hsame
  exact ⟨_, _, rfl, rfl, Except.ok.inj hbuilt, by decide +kernel⟩

end QueryBuilder

end EntityStore
