/-
  EntityStore/Proofs/Key/Split.lean
  =================================
  **Splitting undoes closing.**  The separator stands inside no part, so a composite key
  is cut back into the parts that were closed to make it.  The other way round, a text that
  can be split is its parts, closed again (`closeParts_of_splitParts`); so splitting and
  joining are inverse to each other (`split_and_join_are_inverse`).
-/
import EntityStore.Proofs.Key.Spelling

namespace EntityStore

namespace Composite

theorem splitParts_append {text : List Char} (h : separator ∉ text) (piece rest : List Char) :
    splitParts piece (text ++ separator :: rest) =
      (splitParts [] rest).map (String.ofList (piece.reverse ++ text) :: ·) := by
  induction text generalizing piece with
  | nil => simp [splitParts]
  | cons c text ih =>
    have hc : c ≠ separator := fun heq => h (heq ▸ List.mem_cons_self)
    have htext : separator ∉ text := fun hmem => h (List.mem_cons_of_mem c hmem)
    rw [List.cons_append, splitParts, if_neg hc, ih htext, List.reverse_cons, List.append_assoc]
    rfl

theorem splitParts_closeParts {parts : List String} (h : ∀ part ∈ parts, IsPlain part) :
    splitParts [] (closeParts parts) = some parts := by
  induction parts with
  | nil => rfl
  | cons part rest ih =>
    obtain ⟨hpart, hrest⟩ := List.forall_mem_cons.mp h
    rw [closeParts_cons, splitParts_append (separator_notMem hpart), ih hrest]
    simp

theorem split_closed {objectType : String} {attributes : List String}
    (h : ∀ part ∈ objectType :: attributes, IsPlain part) {key : String}
    (hkey : key.toList = separator :: closeParts (objectType :: attributes)) :
    split key = .ok (objectType, attributes) := by
  simp only [split, hkey, splitParts_closeParts h]
  rfl

theorem isComposite_of_split {key : String} {parts : String × List String}
    (h : split key = .ok parts) : isComposite key = true := by
  unfold split at h
  unfold isComposite
  split at h
  · next c rest hkey =>
    split at h
    · next hc => simp [hkey, hc]
    · cases h
  · cases h

/-! ### What can be split -/

/-- A text can be cut if the separator closes its last piece. -/
theorem exists_splitParts_iff {piece text : List Char} :
    (∃ parts, splitParts piece text = some parts) ↔
      (piece = [] ∧ text = []) ∨ text.getLast? = some separator := by
  induction text generalizing piece with
  | nil => cases piece <;> simp [splitParts]
  | cons c rest ih =>
    rw [splitParts]
    by_cases hc : c = separator
    · -- the piece ends here, and the rest is cut from the start
      have hrest := @ih []
      rw [if_pos hc, hc]
      cases rest <;> simp_all
    · have hrest := @ih (c :: piece)
      rw [if_neg hc, hrest]
      cases rest <;> simp [hc]

/-- What a text is cut into are pieces without the separator, and closing them gives the
    text again. -/
theorem closeParts_of_splitParts {piece text : List Char} {parts : List String}
    (hpiece : separator ∉ piece) (h : splitParts piece text = some parts) :
    closeParts parts = piece.reverse ++ text ∧ ∀ part ∈ parts, separator ∉ part.toList := by
  -- induction on the text; `piece` is what is collected of the current part, in reverse
  induction text generalizing piece parts with
  | nil =>
    cases piece with
    | nil =>
      cases h
      exact ⟨rfl, nofun⟩
    | cons => cases h
  | cons c rest ih =>
    rw [splitParts] at h
    by_cases hc : c = separator
    · -- the separator closes the piece
      rw [if_pos hc] at h
      obtain ⟨more, hmore, rfl⟩ := Option.map_eq_some_iff.mp h
      obtain ⟨hclosed, hplain⟩ := ih List.not_mem_nil hmore
      constructor
      · rw [closeParts_cons, hclosed, String.toList_ofList, hc]
        rfl
      · intro part hpart
        rcases List.mem_cons.mp hpart with rfl | hpart
        · simpa using hpiece
        · exact hplain part hpart
    · -- any other character joins it
      rw [if_neg hc] at h
      have hpiece' : separator ∉ c :: piece := by
        intro hmem
        rcases List.mem_cons.mp hmem with heq | hmem
        · exact hc heq.symm
        · exact hpiece hmem
      obtain ⟨hclosed, hplain⟩ := ih hpiece' h
      exact ⟨by simpa using hclosed, hplain⟩

theorem split_eq_ok_iff {key objectType : String} {attributes : List String} :
    split key = .ok (objectType, attributes) ↔
      ∃ rest, key.toList = separator :: rest ∧
        splitParts [] rest = some (objectType :: attributes) := by
  unfold split
  constructor
  · intro h
    split at h
    · next c rest hkey =>
      split at h
      · next hc =>
        split at h
        · next hparts =>
          cases h
          exact ⟨rest, hc ▸ hkey, hparts⟩
        · cases h
      · cases h
    · cases h
  · rintro ⟨rest, hkey, hparts⟩
    simp [hkey, hparts]

theorem encode_eq_ok_iff {objectType key : String} {attributes : List String} :
    encode objectType attributes = .ok key ↔
      (∀ part ∈ objectType :: attributes, IsPlain part) ∧
        key.toList = separator :: closeParts (objectType :: attributes) := by
  rw [← checkParts_eq_ok_iff, encode]
  cases checkParts (objectType :: attributes) with
  | error error => simp
  | ok _ =>
    rw [Except.ok.injEq]
    constructor
    · rintro rfl
      exact ⟨rfl, String.toList_ofList⟩
    · rintro ⟨-, hkey⟩
      rw [← hkey, String.ofList_toList]

/-- **Splitting and joining are inverse to each other.**  Parts can be joined if none of
    them holds a reserved rune, and then they are found again by splitting.  A text can be
    split if the separator opens it and, behind that, closes it; the parts hold no
    separator, and they are joined to the text again unless it holds the last rune. -/
theorem split_and_join_are_inverse :
    (∀ objectType attributes, (∃ key, encode objectType attributes = .ok key) ↔
      ∀ part ∈ objectType :: attributes, IsPlain part) ∧
    (∀ objectType attributes key, encode objectType attributes = .ok key →
      split key = .ok (objectType, attributes)) ∧
    (∀ key, (∃ objectType attributes, split key = .ok (objectType, attributes)) ↔
      ∃ rest, key.toList = separator :: rest ∧ rest.getLast? = some separator) ∧
    (∀ key objectType attributes, split key = .ok (objectType, attributes) →
      (∀ part ∈ objectType :: attributes, separator ∉ part.toList) ∧
        (lastRune ∉ key.toList → encode objectType attributes = .ok key)) := by
  refine ⟨?_, ?_, ?_, ?_⟩
  · intro objectType attributes
    constructor
    · rintro ⟨key, hkey⟩
      exact (encode_eq_ok_iff.mp hkey).1
    · intro hplain
      exact ⟨_, encode_eq_ok_iff.mpr ⟨hplain, String.toList_ofList⟩⟩
  · intro objectType attributes key hkey
    obtain ⟨hplain, hclosed⟩ := encode_eq_ok_iff.mp hkey
    exact split_closed hplain hclosed
  · intro key
    constructor
    · rintro ⟨objectType, attributes, hsplit⟩
      obtain ⟨rest, hkey, hparts⟩ := split_eq_ok_iff.mp hsplit
      rcases exists_splitParts_iff.mp ⟨_, hparts⟩ with ⟨-, rfl⟩ | hlast
      · cases hparts
      · exact ⟨rest, hkey, hlast⟩
    · rintro ⟨rest, hkey, hlast⟩
      obtain ⟨parts, hparts⟩ := exists_splitParts_iff.mpr (.inr hlast)
      rcases parts with _ | ⟨objectType, attributes⟩
      · -- nothing is closed only by the empty text, which does not end with a separator
        have hempty := (closeParts_of_splitParts List.not_mem_nil hparts).1
        simp at hempty
        simp [hempty] at hlast
      · exact ⟨objectType, attributes, split_eq_ok_iff.mpr ⟨rest, hkey, hparts⟩⟩
  · intro key objectType attributes hsplit
    obtain ⟨rest, hkey, hparts⟩ := split_eq_ok_iff.mp hsplit
    obtain ⟨hclosed, hfree⟩ := closeParts_of_splitParts List.not_mem_nil hparts
    refine ⟨hfree, ?_⟩
    intro hlast
    have hwhole : key.toList = separator :: closeParts (objectType :: attributes) := by
      rw [hkey, hclosed]
      rfl
    refine encode_eq_ok_iff.mpr ⟨?_, hwhole⟩
    intro part hpart c hc
    refine ⟨fun heq => hfree part hpart (heq ▸ hc), fun heq => hlast ?_⟩
    -- every character of a part is one of the text
    rw [hwhole, ← heq]
    refine List.mem_cons_of_mem _ (List.mem_flatMap.mpr ⟨part, hpart, ?_⟩)
    exact List.mem_append_left _ hc

/-- Empty parts are found again, also the object type, and a separator alone cannot be split:
    it opens the text, and behind it nothing closes it. -/
theorem split_and_join_are_inverse_empty_parts :
    (∃ key, encode "" ["", "1"] = .ok key ∧ split key = .ok ("", ["", "1"])) ∧
      ¬ ∃ objectType attributes,
        split (String.ofList [separator]) = .ok (objectType, attributes) := by
  obtain ⟨hjoins, hsplits, hsplit, -⟩ := split_and_join_are_inverse
  constructor
  · obtain ⟨key, hkey⟩ := (hjoins "" ["", "1"]).mpr (by decide +kernel)
    exact ⟨key, hkey, hsplits "" ["", "1"] key hkey⟩
  · rw [hsplit]
    rintro ⟨rest, hkey, hlast⟩
    obtain rfl : rest = [] := (List.cons.inj hkey).2.symm
    cases hlast

end Composite

namespace Key

theorem split_spell {key : Key} (h : key.IsStorable) {objectType : String}
    {attributes : List String} (hparts : key.parts = objectType :: attributes)
    (hmany : attributes ≠ []) :
    Composite.split key.spell = .ok (objectType, attributes) := by
  have htwo : 2 ≤ key.parts.length := by
    rw [hparts]
    cases attributes with
    | nil => exact absurd rfl hmany
    | cons => simp
  have hplain := h.plain htwo
  rw [hparts] at hplain
  refine Composite.split_closed hplain ?_
  rw [spell_of_many htwo, hparts]

/-- What the spelling of a key splits into are the parts of the key. -/
theorem parts_of_split_spell {key : Key} (h : key.IsStorable) {objectType : String}
    {attributes : List String} (hsplit : Composite.split key.spell = .ok (objectType, attributes)) :
    2 ≤ key.parts.length ∧ key.parts = objectType :: attributes := by
  have htwo : 2 ≤ key.parts.length :=
    (isComposite_spell h).mp (Composite.isComposite_of_split hsplit)
  have hpos : 0 < key.parts.length := Nat.lt_of_lt_of_le Nat.zero_lt_two htwo
  obtain ⟨first, rest, hparts⟩ := List.exists_cons_of_length_pos hpos
  have hrest : rest ≠ [] := by
    rintro rfl
    simp [hparts] at htwo
  rw [split_spell h hparts hrest] at hsplit
  cases hsplit
  exact ⟨htwo, hparts⟩

end Key

end EntityStore
