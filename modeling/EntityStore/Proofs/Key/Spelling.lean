/-
  EntityStore/Proofs/Key/Spelling.lean
  ====================================
  **Ledger keys are spelled without ambiguity.**

  Encoding a key does two things: it checks the parts, and it writes them down.
  `Key.check` and `Key.spell` are the two halves (`Key.encode_eq`).  A checked key
  can be told from its spelling alone, whatever its number of parts
  (`Key.spell_inj`): the separator closes every part of a composite key and stands
  inside none of them.
-/
import EntityStore.Key.Composite
import EntityStore.Proofs.Except

namespace EntityStore

namespace Composite

/-! ### Plain parts -/

/-- The part holds neither of the runes that the encoding keeps for itself. -/
def IsPlain (part : String) : Prop := ∀ c ∈ part.toList, c ≠ separator ∧ c ≠ lastRune

instance (part : String) : Decidable (IsPlain part) :=
  List.decidableBAll (fun c => c ≠ separator ∧ c ≠ lastRune) part.toList

theorem checkPart_eq_ok_iff {part : String} : checkPart part = .ok () ↔ IsPlain part := by
  unfold checkPart
  split
  · next rune h =>
    have hreserved := List.find?_some h
    have hmem := List.mem_of_find?_eq_some h
    simp only [isReserved, Bool.or_eq_true, beq_iff_eq] at hreserved
    refine ⟨nofun, fun hplain => ?_⟩
    rcases hreserved with h | h
    · exact absurd h (hplain rune hmem).1
    · exact absurd h (hplain rune hmem).2
  · next h =>
    rw [List.find?_eq_none] at h
    refine ⟨fun _ c hc => ?_, fun _ => rfl⟩
    simpa [isReserved] using h c hc

theorem checkParts_eq_ok_iff {parts : List String} :
    checkParts parts = .ok () ↔ ∀ part ∈ parts, IsPlain part := by
  induction parts with
  | nil => simp [checkParts]
  | cons part rest ih =>
    simp only [checkParts, List.forall_mem_cons]
    split
    · next error h =>
      refine ⟨nofun, fun hplain => ?_⟩
      rw [checkPart_eq_ok_iff.mpr hplain.1] at h
      cases h
    · next h => rw [ih, and_iff_right (checkPart_eq_ok_iff.mp h)]

theorem separator_notMem {part : String} (h : IsPlain part) : separator ∉ part.toList :=
  fun hmem => (h separator hmem).1 rfl

/-! ### Closed parts -/

@[simp] theorem closeParts_nil : closeParts [] = [] := rfl

@[simp] theorem closeParts_cons (part : String) (rest : List String) :
    closeParts (part :: rest) = part.toList ++ separator :: closeParts rest := by
  simp [closeParts]

theorem closeParts_append (parts more : List String) :
    closeParts (parts ++ more) = closeParts parts ++ closeParts more := by
  simp [closeParts]

/-- The separator ends the first part of a closed text, so two such texts agree on
    a prefix only if they agree on the whole first part. -/
theorem prefix_closed_iff {c : Char} {x y r s : List Char} (hx : c ∉ x) (hy : c ∉ y) :
    x ++ c :: r <+: y ++ c :: s ↔ x = y ∧ r <+: s := by
  induction x generalizing y with
  | nil =>
    cases y with
    | nil => simp
    | cons d y =>
      have hcd : c ≠ d := fun h => hy (h ▸ List.mem_cons_self)
      simp [List.cons_prefix_cons, hcd]
  | cons d x ih =>
    have hcd : c ≠ d := fun h => hx (h ▸ List.mem_cons_self)
    cases y with
    | nil => simp [List.cons_prefix_cons, Ne.symm hcd]
    | cons e y =>
      have ih := ih (fun h => hx (List.mem_cons_of_mem _ h)) (y := y)
        (fun h => hy (List.mem_cons_of_mem _ h))
      simp [List.cons_prefix_cons, ih, and_assoc]

theorem closeParts_prefix_iff {parts others : List String} (hparts : ∀ p ∈ parts, IsPlain p)
    (hothers : ∀ p ∈ others, IsPlain p) :
    closeParts parts <+: closeParts others ↔ parts <+: others := by
  induction parts generalizing others with
  | nil => simp
  | cons part rest ih =>
    have hpart := separator_notMem (hparts part List.mem_cons_self)
    cases others with
    | nil => simp
    | cons other more =>
      have hother := separator_notMem (hothers other List.mem_cons_self)
      rw [closeParts_cons, closeParts_cons, prefix_closed_iff hpart hother, String.toList_inj,
        ih (fun p hp => hparts p (List.mem_cons_of_mem _ hp))
          (fun p hp => hothers p (List.mem_cons_of_mem _ hp)), List.cons_prefix_cons]

theorem closeParts_inj {parts others : List String} (hparts : ∀ p ∈ parts, IsPlain p)
    (hothers : ∀ p ∈ others, IsPlain p) :
    closeParts parts = closeParts others ↔ parts = others := by
  refine ⟨fun h => ?_, fun h => h ▸ rfl⟩
  have hle := (closeParts_prefix_iff hparts hothers).mp (h ▸ List.prefix_refl _)
  have hge := (closeParts_prefix_iff hothers hparts).mp (h ▸ List.prefix_refl _)
  exact hle.eq_of_length_le hge.length_le

end Composite

/-! ### Checking a key and spelling it -/

namespace Key

/-- Accepts a key that the ledger can hold: one part that does not look like a
    composite key, or several plain parts. -/
def check (key : Key) : Except StoreError Unit :=
  match key.parts with
  | [] => .error .emptyKey
  | [part] =>
    if Composite.isComposite part then
      .error (.invalidKeyPart part "simple key may not start with U+0000")
    else .ok ()
  | parts => (Composite.checkParts parts).mapError CompositeError.toStoreError

/-- The ledger key of a checked key: a single part as it is, several parts closed
    one by one. -/
def spell (key : Key) : String :=
  match key.parts with
  | [part] => part
  | parts => String.ofList (separator :: Composite.closeParts parts)

/-- The key is one that the ledger can hold. -/
def IsStorable (key : Key) : Prop := key.check = .ok ()

/-- Encoding a key is checking it and spelling it. -/
theorem encode_eq (key : Key) : key.encode = key.check.map fun _ => key.spell := by
  rcases key with ⟨_ | ⟨part, _ | ⟨second, rest⟩⟩⟩
  · rfl
  · simp only [encode, encodeWith, check, spell]
    split <;> rfl
  · simp only [encode, encodeWith, check, spell, Composite.encode]
    cases Composite.checkParts (part :: second :: rest) <;> rfl

theorem isStorable_iff {key : Key} :
    key.IsStorable ↔
      (∃ part, key.parts = [part] ∧ Composite.isComposite part = false) ∨
      2 ≤ key.parts.length ∧ ∀ part ∈ key.parts, Composite.IsPlain part := by
  rcases key with ⟨_ | ⟨part, _ | ⟨second, rest⟩⟩⟩
  · simp [IsStorable, check]
  · simp [IsStorable, check]
  · simp only [IsStorable, check]
    rw [← Composite.checkParts_eq_ok_iff, mapError_eq_ok_iff]
    simp

theorem IsStorable.plain {key : Key} (h : key.IsStorable) (hmany : 2 ≤ key.parts.length) :
    ∀ part ∈ key.parts, Composite.IsPlain part := by
  rcases isStorable_iff.mp h with ⟨part, hpart, -⟩ | ⟨-, hplain⟩
  · simp [hpart] at hmany
  · exact hplain

theorem spell_of_many {key : Key} (h : 2 ≤ key.parts.length) :
    key.spell.toList = separator :: Composite.closeParts key.parts := by
  rcases key with ⟨_ | ⟨part, _ | ⟨second, rest⟩⟩⟩
  · simp at h
  · simp at h
  · simp [spell]

theorem isComposite_spell {key : Key} (h : key.IsStorable) :
    Composite.isComposite key.spell = true ↔ 2 ≤ key.parts.length := by
  rcases isStorable_iff.mp h with ⟨part, hpart, hsimple⟩ | ⟨hmany, -⟩
  · simp [spell, hpart, hsimple]
  · simp [Composite.isComposite, spell_of_many hmany, hmany]

/-- **Different keys have different spellings**, also where they differ in the number
    of their parts. -/
theorem spell_inj {a b : Key} (ha : a.IsStorable) (hb : b.IsStorable) :
    a.spell = b.spell ↔ a = b := by
  refine ⟨fun h => ?_, fun h => h ▸ rfl⟩
  rcases isStorable_iff.mp ha with ⟨part, hpart, hsimple⟩ | ⟨hmany, hplain⟩
  · rcases isStorable_iff.mp hb with ⟨other, hother, -⟩ | ⟨hmany, -⟩
    · rcases a with ⟨parts⟩
      rcases b with ⟨others⟩
      simp_all [spell]
    · -- A key of one part is not spelled with the composite mark in front, and one of several is.
      have hcomposite := (isComposite_spell hb).mpr hmany
      rw [← h] at hcomposite
      simp [spell, hpart, hsimple] at hcomposite
  · have hmany' : 2 ≤ b.parts.length := by
      rw [← isComposite_spell hb, ← h]
      exact (isComposite_spell ha).mpr hmany
    have hclosed := congrArg String.toList h
    rw [spell_of_many hmany, spell_of_many hmany', List.cons_inj_right,
      Composite.closeParts_inj hplain (hb.plain hmany')] at hclosed
    rcases a with ⟨parts⟩
    rcases b with ⟨others⟩
    exact congrArg Key.mk hclosed

/-- Only the simple key of the empty part has the empty spelling. -/
theorem spell_eq_empty_iff {key : Key} (h : key.IsStorable) :
    key.spell = "" ↔ key.parts = [""] := by
  calc
    key.spell = "" ↔ key.spell = (⟨[""]⟩ : Key).spell := Iff.rfl
    _ ↔ key = ⟨[""]⟩ := spell_inj h rfl
    _ ↔ key.parts = [""] := by rcases key with ⟨parts⟩; simp

end Key

end EntityStore
