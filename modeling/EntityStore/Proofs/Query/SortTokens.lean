/-
  EntityStore/Proofs/Query/SortTokens.lean
  ========================================
  **Sort tokens are read by their grammar.**

  A sort token is a field, a colon, and the name of a direction in letters of any case
  (`IsSortToken`).  The reader cuts a token at its first colon
  (`Text.splitOnce_eq_some_iff`) and compares the rest in small letters
  (`Text.map_toLower_eq_iff`), so it finds exactly these
  (`QueryBuilder.sortOfToken?_eq_some_iff`).  A list of tokens is then read whole or refused
  for its first token that is none.
-/
import Mathlib.Data.List.Forall2
import EntityStore.Proofs.Query.Parsing

namespace EntityStore

/-! ### Letters of any case -/

namespace Text

/-- A character is the capital of a small ASCII letter. -/
def IsCapitalOf (capital small : Char) : Prop :=
  'a' ≤ small ∧ small ≤ 'z' ∧ capital.toNat + 32 = small.toNat

/-- The characters of two words are the same, one by one, up to the case of ASCII letters. -/
def SameUpToCase (word other : List Char) : Prop :=
  List.Forall₂ (fun c d => c = d ∨ IsCapitalOf c d ∨ IsCapitalOf d c) word other

theorem toNat_toLower (c : Char) :
    c.toLower.toNat = if 65 ≤ c.toNat ∧ c.toNat ≤ 90 then c.toNat + 32 else c.toNat := by
  have hcapital : c.val ≥ 'A'.val ∧ c.val ≤ 'Z'.val ↔ 65 ≤ c.toNat ∧ c.toNat ≤ 90 := Iff.rfl
  unfold Char.toLower
  simp only [hcapital]
  split
  · next h =>
    show (c.val + 32).toNat = c.val.toNat + 32
    have hbound : c.val.toNat ≤ 90 := h.2
    rw [UInt32.toNat_add, show (32 : UInt32).toNat = 32 from rfl]
    omega
  · rfl

theorem toLower_eq_iff {c d : Char} :
    c.toLower = d.toLower ↔ c = d ∨ IsCapitalOf c d ∨ IsCapitalOf d c := by
  have hsmall (e : Char) : 'a' ≤ e ∧ e ≤ 'z' ↔ 97 ≤ e.toNat ∧ e.toNat ≤ 122 := Iff.rfl
  simp only [IsCapitalOf, ← and_assoc, hsmall, ← Char.toNat_inj, toNat_toLower]
  split <;> split <;> omega

theorem map_toLower_eq_iff {word other : List Char} :
    word.map Char.toLower = other.map Char.toLower ↔ SameUpToCase word other := by
  rw [← List.forall₂_eq_eq_eq, List.forall₂_map_left_iff, List.forall₂_map_right_iff]
  simp only [toLower_eq_iff]
  rfl

/-! ### Cutting at the first separator -/

theorem splitOnce_append {separator : Char} {before : List Char} (h : separator ∉ before)
    (behind : List Char) :
    splitOnce separator (before ++ separator :: behind) = some (before, behind) := by
  induction before with
  | nil => exact if_pos rfl
  | cons c rest ih =>
    have hc : c ≠ separator := fun hsame => h (hsame ▸ List.mem_cons_self)
    have hrest : separator ∉ rest := fun hmem => h (List.mem_cons_of_mem c hmem)
    rw [List.cons_append, splitOnce, if_neg hc, ih hrest]
    rfl

theorem eq_of_splitOnce {separator : Char} {text before behind : List Char}
    (h : splitOnce separator text = some (before, behind)) :
    text = before ++ separator :: behind ∧ separator ∉ before := by
  induction text generalizing before with
  | nil => cases h
  | cons c rest ih =>
    rw [splitOnce] at h
    split at h
    · next hc =>
      cases h
      exact ⟨congrArg (List.cons · _) hc, List.not_mem_nil⟩
    · next hc =>
      obtain ⟨⟨first, last⟩, hrest, hsame⟩ := Option.map_eq_some_iff.mp h
      cases hsame
      obtain ⟨htext, hnone⟩ := ih hrest
      refine ⟨congrArg (c :: ·) htext, ?_⟩
      exact List.not_mem_cons_of_ne_of_not_mem (Ne.symm hc) hnone

/-- **A text is cut at its first separator.** -/
theorem splitOnce_eq_some_iff {separator : Char} {text before behind : List Char} :
    splitOnce separator text = some (before, behind) ↔
      text = before ++ separator :: behind ∧ separator ∉ before := by
  constructor
  · exact eq_of_splitOnce
  · rintro ⟨rfl, hnone⟩
    exact splitOnce_append hnone behind

end Text

/-! ### Tokens -/

/-- A token in the grammar of sorts: a field, which is not empty and has no colon in it, a
    colon, and the name of a direction in letters of any case. -/
structure IsSortToken (token field : String) (direction : SortDirection) : Prop where
  nonempty : field ≠ ""
  plain : ':' ∉ field.toList
  spelled : ∃ word : String, token = field ++ ":" ++ word ∧
    Text.SameUpToCase word.toList direction.name.toList

theorem SortDirection.ofChars?_eq_some_iff {word : List Char} {direction : SortDirection} :
    ofChars? word = some direction ↔ Text.SameUpToCase word direction.name.toList := by
  rw [← Text.map_toLower_eq_iff]
  show (if word.map Char.toLower = "asc".toList then some asc
    else if word.map Char.toLower = "desc".toList then some desc else none) = some direction ↔ _
  generalize word.map Char.toLower = lower
  cases direction with
  | asc =>
    show _ ↔ lower = "asc".toList
    split
    · next hasc => exact iff_of_true rfl hasc
    · next hasc => exact iff_of_false (by split <;> nofun) hasc
  | desc =>
    show _ ↔ lower = "desc".toList
    split
    · next hasc => exact iff_of_false nofun (hasc ▸ by decide)
    · split
      · next hdesc => exact iff_of_true rfl hdesc
      · next hdesc => exact iff_of_false nofun hdesc

/-- The name of a direction has no colon. -/
theorem colon_notMem_of_sameUpToCase {word : List Char} {direction : SortDirection}
    (h : Text.SameUpToCase word direction.name.toList) : ':' ∉ word := by
  intro hcolon
  have hmem : ':' ∈ word.map Char.toLower := List.mem_map.mpr ⟨':', hcolon, rfl⟩
  rw [Text.map_toLower_eq_iff.mpr h] at hmem
  cases direction with
  | asc => exact absurd hmem (by decide)
  | desc => exact absurd hmem (by decide)

namespace QueryBuilder

variable {b b' : QueryBuilder} {token field : String} {direction : SortDirection}

/-- **A token is read just if it is in the grammar**, as what it is there. -/
theorem sortOfToken?_eq_some_iff :
    sortOfToken? token = some (field, direction) ↔ IsSortToken token field direction := by
  constructor
  · intro h
    unfold sortOfToken? at h
    split at h
    · cases h
    · next before word hcut =>
      split at h
      · cases h
      · next hform =>
        obtain ⟨found, hword, hsame⟩ := Option.map_eq_some_iff.mp h
        obtain ⟨rfl, rfl⟩ := Prod.mk.inj hsame
        obtain ⟨htoken, hplain⟩ := Text.splitOnce_eq_some_iff.mp hcut
        refine ⟨?_, by rwa [String.toList_ofList], String.ofList word, ?_, ?_⟩
        · rintro hempty
          rw [String.ofList_eq_empty_iff] at hempty
          simp [hempty] at hform
        · rw [← String.toList_inj, htoken]
          simp
        · rw [String.toList_ofList]
          exact SortDirection.ofChars?_eq_some_iff.mp hword
  · rintro ⟨hnonempty, hplain, word, rfl, hword⟩
    have hcut : Text.splitOnce ':' (field ++ ":" ++ word).toList =
        some (field.toList, word.toList) := by
      rw [Text.splitOnce_eq_some_iff]
      exact ⟨by simp, hplain⟩
    -- no direction has a colon, so there is no second one to refuse the token for
    have hcolon := colon_notMem_of_sameUpToCase hword
    unfold sortOfToken?
    rw [hcut]
    simp only
    rw [if_neg (by simp [hnonempty, hcolon]), SortDirection.ofChars?_eq_some_iff.mpr hword]
    simp

theorem sortOfToken?_eq_none_iff :
    sortOfToken? token = none ↔ ¬ ∃ field direction, IsSortToken token field direction := by
  simp only [← sortOfToken?_eq_some_iff, Option.eq_none_iff_forall_ne_some, Prod.forall,
    not_exists, ne_eq]

/-! ### Lists of tokens -/

/-- A list of tokens is read whole: one sort for each of them, in their order. -/
theorem addSorts_eq_ok_iff {tokens : List String} :
    b.addSorts tokens = .ok b' ↔ ∃ sorts : List (String × SortDirection),
      List.Forall₂ (fun token sort => IsSortToken token sort.1 sort.2) tokens sorts ∧
        b' = { b with sort := b.sort ++ sorts } := by
  induction tokens generalizing b with
  | nil => simp [addSorts, eq_comm]
  | cons token rest ih =>
    have hread (sort : String × SortDirection) :
        IsSortToken token sort.1 sort.2 ↔ sortOfToken? token = some sort :=
      sortOfToken?_eq_some_iff.symm
    rw [addSorts]
    simp only [List.forall₂_cons_left_iff, hread]
    -- Reading goes on only behind a token that is read.
    cases sortOfToken? token with
    | none => simp
    | some sort =>
      rw [ih]
      constructor
      · rintro ⟨sorts, hrest, rfl⟩
        exact ⟨_, ⟨sort, sorts, rfl, hrest, rfl⟩, by simp [addSort]⟩
      · rintro ⟨_, ⟨first, sorts, hfirst, hrest, rfl⟩, rfl⟩
        cases hfirst
        exact ⟨sorts, hrest, by simp [addSort]⟩

/-- A list of tokens is refused for the first that is none. -/
theorem addSorts_eq_error_iff {tokens : List String} {error : StoreError} :
    b.addSorts tokens = .error error ↔ ∃ before token after,
      tokens = before ++ token :: after ∧
        (∀ earlier ∈ before, ∃ field direction, IsSortToken earlier field direction) ∧
        (¬ ∃ field direction, IsSortToken token field direction) ∧
        error = .invalidSort token := by
  -- induction on the tokens; the first that is not read decides
  induction tokens generalizing b with
  | nil => simp [addSorts]
  | cons token rest ih =>
    rw [addSorts]
    cases hsort : sortOfToken? token with
    | none =>
      have hnone := sortOfToken?_eq_none_iff.mp hsort
      constructor
      · intro h
        exact ⟨[], token, rest, rfl, List.forall_mem_nil _, hnone, (Except.error.inj h).symm⟩
      · rintro ⟨before, refused, after, hsplit, hbefore, -, rfl⟩
        cases before with
        | nil =>
          cases hsplit
          rfl
        | cons first more =>
          cases hsplit
          exact absurd (hbefore token List.mem_cons_self) hnone
    | some sort =>
      -- a token that is read joins those before the one that is refused
      have hsome := sortOfToken?_eq_some_iff.mp hsort
      show (b.addSort sort.1 sort.2).addSorts rest = _ ↔ _
      rw [ih]
      constructor
      · rintro ⟨before, refused, after, rfl, hbefore, hrefused⟩
        refine ⟨token :: before, refused, after, rfl, ?_, hrefused⟩
        exact List.forall_mem_cons.mpr ⟨⟨_, _, hsome⟩, hbefore⟩
      · rintro ⟨before, refused, after, hsplit, hbefore, hrefused⟩
        cases before with
        | nil =>
          cases hsplit
          exact absurd ⟨_, _, hsome⟩ hrefused.1
        | cons first more =>
          cases hsplit
          exact ⟨more, refused, after, rfl, (List.forall_mem_cons.mp hbefore).2, hrefused⟩

theorem exists_addSorts_iff {tokens : List String} :
    (∃ b', b.addSorts tokens = .ok b') ↔
      ∀ token ∈ tokens, ∃ field direction, IsSortToken token field direction := by
  constructor
  · rintro ⟨b', h⟩
    obtain ⟨sorts, hsorts, -⟩ := addSorts_eq_ok_iff.mp h
    have hboth : List.Forall₂ (fun token sort =>
        (∃ field direction, IsSortToken token field direction) ∧
          IsSortToken token sort.1 sort.2) tokens sorts :=
      hsorts.imp fun _ _ hsort => ⟨⟨_, _, hsort⟩, hsort⟩
    exact ((List.forall₂_and_left tokens sorts).mp hboth).1
  · intro hall
    cases h : b.addSorts tokens with
    | ok b' => exact ⟨b', rfl⟩
    | error error =>
      obtain ⟨before, token, after, rfl, -, hnone, -⟩ := addSorts_eq_error_iff.mp h
      exact absurd (hall token (List.mem_append_right before List.mem_cons_self)) hnone

/-- The list of sorts in a built value. -/
theorem sorts_of_buildValue (b : QueryBuilder) (h : b.hasSelector = true) :
    ∃ members, b.buildValue = .ok (.obj members) ∧
      Assoc.get? "sort" members = if b.sort = [] then none
        else some (.arr (b.sort.map fun sort => .obj [(sort.1, .str sort.2.name)])) := by
  refine ⟨b.root, by rw [buildValue_eq, if_pos h], ?_⟩
  rw [b.get?_root.2.1]
  simp only [List.isEmpty_iff]
  rfl

/-- **Sort tokens are read by exactly their grammar.**  Every builder takes a list of tokens
    just if all of them are sort tokens.  Then it appends their sorts, one for each token and
    in the order of the tokens, behind those that it has, and stays the same otherwise; and
    its built value, if it can be built, lists all sorts in order, each as an object of one
    member, and has no such list just if there is no sort.  Any other list is refused for
    the first token in it that is none. -/
theorem sort_tokens_are_read_by_their_grammar (b : QueryBuilder) (tokens : List String) :
    let isSort (token : String) := ∃ field direction, IsSortToken token field direction
    ((∃ b', b.addSorts tokens = .ok b') ↔ ∀ token ∈ tokens, isSort token) ∧
      (∀ b', b.addSorts tokens = .ok b' ↔ ∃ sorts : List (String × SortDirection),
        List.Forall₂ (fun token sort => IsSortToken token sort.1 sort.2) tokens sorts ∧
          b' = { b with sort := b.sort ++ sorts }) ∧
      (∀ error, b.addSorts tokens = .error error ↔ ∃ before token after,
        tokens = before ++ token :: after ∧ (∀ earlier ∈ before, isSort earlier) ∧
          ¬ isSort token ∧ error = .invalidSort token) ∧
      ∀ b', b.addSorts tokens = .ok b' →
        (b.hasSelector = false → b'.buildValue = .error .noSelector) ∧
        (b.hasSelector = true → ∃ members, b'.buildValue = .ok (.obj members) ∧
          Assoc.get? "sort" members = if b'.sort = [] then none
            else some (.arr (b'.sort.map fun sort => .obj [(sort.1, .str sort.2.name)]))) := by
  intro isSort
  refine ⟨exists_addSorts_iff, fun _ => addSorts_eq_ok_iff, fun _ => addSorts_eq_error_iff, ?_⟩
  intro b' h
  obtain ⟨sorts, -, rfl⟩ := addSorts_eq_ok_iff.mp h
  refine ⟨fun hnone => ?_, fun hsome => sorts_of_buildValue _ hsome⟩
  have hnone' : ({ b with sort := b.sort ++ sorts } : QueryBuilder).hasSelector = false := hnone
  rw [buildValue_eq, hnone']
  rfl

/-- Two tokens behind a sort that is there already, and a list whose second token has one
    colon too many and whose third has none. -/
theorem sort_tokens_are_read_by_their_grammar_person :
    let b : QueryBuilder := { docType := some "person", sort := [("id", .desc)] }
    (∃ b' members, b.addSorts ["name:asc", "age:DESC"] = .ok b' ∧
        b'.buildValue = .ok (.obj members) ∧
        Assoc.get? "sort" members = some (.arr [.obj [("id", .str "desc")],
          .obj [("name", .str "asc")], .obj [("age", .str "desc")]])) ∧
      b.addSorts ["name:asc", "a:b:asc", "age"] = .error (.invalidSort "a:b:asc") := by
  intro b
  constructor
  · obtain ⟨-, -, -, hbuilt⟩ :=
      sort_tokens_are_read_by_their_grammar b ["name:asc", "age:DESC"]
    obtain ⟨members, hmembers, hsorts⟩ := (hbuilt _ rfl).2 rfl
    exact ⟨_, members, rfl, hmembers, hsorts⟩
  · obtain ⟨-, -, hrefused, -⟩ :=
      sort_tokens_are_read_by_their_grammar b ["name:asc", "a:b:asc", "age"]
    have hname : IsSortToken "name:asc" "name" .asc := sortOfToken?_eq_some_iff.mp rfl
    have hnone := sortOfToken?_eq_none_iff.mp (show sortOfToken? "a:b:asc" = none from rfl)
    exact (hrefused _).mpr ⟨["name:asc"], "a:b:asc", ["age"], rfl,
      List.forall_mem_singleton.mpr ⟨_, _, hname⟩, hnone, rfl⟩

end QueryBuilder

end EntityStore
