/-
  EntityStore/Proofs/Key/Range.lean
  =================================
  **The order of ledger keys, and the range of a prefix.**

  The separator is the least of all characters, so comparing composite keys
  character by character is comparing their parts one by one (`Key.spell_lt_iff`).
  The last code point is the greatest, so the half-open range of a partial key holds
  the texts that begin with it and do not go on with that code point
  (`Composite.mem_range_iff`); among spelled keys these are the keys whose parts
  begin with the parts of the prefix (`Key.spell_mem_range_iff`).
-/
import EntityStore.Proofs.Key.Spelling

namespace EntityStore

namespace Composite

/-! ### The two reserved runes in the order of characters -/

theorem separator_lt {c : Char} (h : c ≠ separator) : separator < c := by
  have hne : c.val.toNat ≠ 0 := fun h0 => h (Char.ext (UInt32.toNat_inj.mp h0))
  exact Nat.pos_of_ne_zero hne

theorem not_lt_separator (c : Char) : ¬ c < separator := Nat.not_lt_zero c.val.toNat

theorem lt_lastRune {c : Char} (h : c ≠ lastRune) : c < lastRune := by
  have hvalid : c.toNat < 0x110000 := by
    rcases c.valid with hv | hv
    · exact Nat.lt_trans hv (by decide)
    · exact hv.2
  have hne : c.toNat ≠ 0x10ffff := fun h0 => h (Char.ext (UInt32.toNat_inj.mp h0))
  show c.toNat < 0x10ffff
  omega

/-! ### Closed parts in order -/

/-- A closed text comes first if its first part does, or if the first parts are the
    same and the rest does. -/
theorem closed_lt_iff {x y r s : List Char} (hx : separator ∉ x) (hy : separator ∉ y) :
    x ++ separator :: r < y ++ separator :: s ↔ x < y ∨ x = y ∧ r < s := by
  -- character by character; the separator stands before any other character
  induction x generalizing y with
  | nil =>
    cases y with
    | nil => simp
    | cons d y =>
      have hd : d ≠ separator := fun h => hy (h ▸ List.mem_cons_self)
      simp [List.cons_lt_cons_iff, separator_lt hd]
  | cons d x ih =>
    have hd : d ≠ separator := fun h => hx (h ▸ List.mem_cons_self)
    cases y with
    | nil => simp [List.cons_lt_cons_iff, not_lt_separator, hd]
    | cons e y =>
      have ih := ih (fun h => hx (List.mem_cons_of_mem _ h)) (y := y)
        (fun h => hy (List.mem_cons_of_mem _ h))
      simp only [List.cons_append, List.cons_lt_cons_iff, ih, List.cons.injEq]
      constructor
      · rintro (h | ⟨rfl, h | ⟨rfl, h⟩⟩)
        · exact .inl (.inl h)
        · exact .inl (.inr ⟨rfl, h⟩)
        · exact .inr ⟨⟨rfl, rfl⟩, h⟩
      · rintro ((h | ⟨rfl, h⟩) | ⟨⟨rfl, rfl⟩, h⟩)
        · exact .inl h
        · exact .inr ⟨rfl, .inl h⟩
        · exact .inr ⟨rfl, .inr ⟨rfl, h⟩⟩

theorem closeParts_lt_iff {parts others : List String} (hparts : ∀ p ∈ parts, IsPlain p)
    (hothers : ∀ p ∈ others, IsPlain p) :
    closeParts parts < closeParts others ↔ parts < others := by
  induction parts generalizing others with
  | nil =>
    cases others with
    | nil => simp
    | cons other more => cases h : other.toList <;> simp [h]
  | cons part rest ih =>
    cases others with
    | nil => simp
    | cons other more =>
      have hpart := separator_notMem (hparts part List.mem_cons_self)
      have hother := separator_notMem (hothers other List.mem_cons_self)
      rw [closeParts_cons, closeParts_cons, closed_lt_iff hpart hother,
        ih (fun p hp => hparts p (List.mem_cons_of_mem _ hp))
          (fun p hp => hothers p (List.mem_cons_of_mem _ hp)), List.cons_lt_cons_iff,
        String.lt_iff, String.toList_inj]

/-! ### The range of a partial key -/

/-- Between a text and the same text closed by the last code point stand its
    extensions that do not go on with that code point. -/
theorem between_iff {start key : List Char} :
    ¬ key < start ∧ key < start ++ [lastRune] ↔
      ∃ rest, key = start ++ rest ∧ rest.head? ≠ some lastRune := by
  -- character by character along the text; behind it only the first character counts
  induction start generalizing key with
  | nil =>
    cases key with
    | nil => simp
    | cons c key =>
      by_cases hc : c = lastRune
      · subst hc
        simp
      · simp [List.cons_lt_cons_iff, lt_lastRune hc, hc]
  | cons d start ih =>
    cases key with
    | nil => simp
    | cons c key =>
      have ih := @ih key
      simp only [List.cons_append, List.cons_lt_cons_iff, List.cons.injEq]
      constructor
      · rintro ⟨hlow, hlt | ⟨rfl, hlt⟩⟩
        · exact absurd (.inl hlt) hlow
        · obtain ⟨rest, rfl, hrest⟩ := ih.mp ⟨fun h => hlow (.inr ⟨rfl, h⟩), hlt⟩
          exact ⟨rest, ⟨rfl, rfl⟩, hrest⟩
      · rintro ⟨rest, ⟨rfl, hkey⟩, hrest⟩
        obtain ⟨hlow, hhigh⟩ := ih.mpr ⟨rest, hkey, hrest⟩
        refine ⟨?_, .inr ⟨rfl, hhigh⟩⟩
        rintro (h | ⟨-, h⟩)
        · exact Char.lt_irrefl _ h
        · exact hlow h

/-- The start of the range of plain parts. -/
def rangeStart (objectType : String) (attributes : List String) : String :=
  String.ofList (separator :: closeParts (objectType :: attributes))

/-- The stop of the range of plain parts. -/
def rangeStop (objectType : String) (attributes : List String) : String :=
  (rangeStart objectType attributes).push lastRune

theorem range_eq {objectType : String} {attributes : List String}
    (h : ∀ part ∈ objectType :: attributes, IsPlain part) :
    range objectType attributes =
      .ok (rangeStart objectType attributes, rangeStop objectType attributes) := by
  simp [range, encode, checkParts_eq_ok_iff.mpr h, rangeStart, rangeStop, Except.map]

/-- **The range of a partial key** holds the texts that begin with it and do not go
    on with the last code point. -/
theorem mem_range_iff {start key : String} :
    start ≤ key ∧ key < start.push lastRune ↔
      ∃ rest, key.toList = start.toList ++ rest ∧ rest.head? ≠ some lastRune := by
  rw [← String.not_lt, String.lt_iff, String.lt_iff, String.toList_push, between_iff]

theorem isComposite_of_mem_range {objectType key : String} {attributes : List String}
    (hle : rangeStart objectType attributes ≤ key)
    (hlt : key < rangeStop objectType attributes) : isComposite key = true := by
  obtain ⟨rest, hkey, -⟩ := mem_range_iff.mp ⟨hle, hlt⟩
  simp [isComposite, hkey, rangeStart]

end Composite

namespace Key

/-- **Spelling keeps the order** of keys of several parts. -/
theorem spell_lt_iff {a b : Key} (ha : a.IsStorable) (hb : b.IsStorable)
    (hma : 2 ≤ a.parts.length) (hmb : 2 ≤ b.parts.length) : a.spell < b.spell ↔ a < b := by
  rw [String.lt_iff, spell_of_many hma, spell_of_many hmb, List.cons_lt_cons_self,
    Composite.closeParts_lt_iff (ha.plain hma) (hb.plain hmb)]
  rfl

theorem head?_closeParts_ne {parts : List String} (h : ∀ p ∈ parts, Composite.IsPlain p) :
    (Composite.closeParts parts).head? ≠ some lastRune := by
  cases parts with
  | nil => simp
  | cons part rest =>
    cases hpart : part.toList with
    | nil => simpa [hpart] using (by decide : separator ≠ lastRune)
    | cons c _ => simpa [hpart] using (h part List.mem_cons_self c (by simp [hpart])).2

/-- **The keys under a prefix**: the spelling of a key is in the range of a partial key
    exactly if the key has several parts and they begin with those of the prefix. -/
theorem spell_mem_range_iff {objectType : String} {attributes : List String} {key : Key}
    (hroot : ∀ part ∈ objectType :: attributes, Composite.IsPlain part) (h : key.IsStorable) :
    (Composite.rangeStart objectType attributes ≤ key.spell ∧
        key.spell < Composite.rangeStop objectType attributes) ↔
      2 ≤ key.parts.length ∧ objectType :: attributes <+: key.parts := by
  constructor
  · rintro ⟨hle, hlt⟩
    have hmany := (isComposite_spell h).mp (Composite.isComposite_of_mem_range hle hlt)
    obtain ⟨rest, hspell, -⟩ := Composite.mem_range_iff.mp ⟨hle, hlt⟩
    rw [spell_of_many hmany, Composite.rangeStart, String.toList_ofList, List.cons_append,
      List.cons_inj_right] at hspell
    have hclosed : Composite.closeParts (objectType :: attributes)
        <+: Composite.closeParts key.parts := ⟨rest, hspell.symm⟩
    exact ⟨hmany, (Composite.closeParts_prefix_iff hroot (h.plain hmany)).mp hclosed⟩
  · rintro ⟨hmany, more, hparts⟩
    refine Composite.mem_range_iff.mpr ⟨Composite.closeParts more, ?_, ?_⟩
    · rw [spell_of_many hmany, ← hparts, Composite.closeParts_append, Composite.rangeStart,
        String.toList_ofList, List.cons_append]
    · have hplain := h.plain hmany
      rw [← hparts] at hplain
      exact head?_closeParts_ne fun p hp => hplain p (List.mem_append_right _ hp)

end Key

end EntityStore
