/-
  EntityStore/Proofs/Key/Order.lean
  =================================
  **Ledger keys in the order of their bytes.**

  A ledger stands its keys in the order of their bytes, which is the order of their
  characters (`Utf8.encode_lt_encode_iff`).  So encoding keeps the order of keys, and the
  composite keys stand before all simple ones (`encode_keeps_keys_apart_and_in_order`).
  A partial key and its closing bound cut out of this order exactly the keys under it;
  the ranges of two partial keys are nested if one of them extends the other, and apart
  if neither does (`range_holds_the_keys_under_it`).
-/
import EntityStore.Proofs.Key.Range
import EntityStore.Proofs.Text.Order

namespace EntityStore

namespace Key

/-! ### Encoded keys -/

theorem encode_eq_ok_iff {key : Key} {text : String} :
    key.encode = .ok text ↔ key.IsStorable ∧ key.spell = text := by
  rw [encode_eq, map_eq_ok_iff]
  constructor
  · rintro ⟨⟨⟩, hcheck, hspell⟩
    exact ⟨hcheck, hspell⟩
  · rintro ⟨hcheck, hspell⟩
    exact ⟨(), hcheck, hspell⟩

/-- Keys are compared part by part, and the parts byte by byte. -/
theorem lt_iff_bytes_lt {a b : Key} :
    a < b ↔ a.parts.map Utf8.encode < b.parts.map Utf8.encode := by
  show a.parts < b.parts ↔ _
  generalize a.parts = xs, b.parts = ys
  induction xs generalizing ys with
  | nil => cases ys <;> simp
  | cons x xs ih =>
    cases ys with
    | nil => simp
    | cons y ys =>
      have hbytes : Utf8.encode x = Utf8.encode y ↔ x = y := Utf8.encode_inj
      simp only [List.map_cons, List.cons_lt_cons_iff, ih, Utf8.encode_lt_encode_iff, hbytes]

theorem parts_of_one {key : Key} (h : key.parts.length = 1) : ∃ part, key = single part := by
  obtain ⟨parts⟩ := key
  obtain ⟨part, rfl⟩ := List.length_eq_one_iff.mp h
  exact ⟨part, rfl⟩

theorem single_lt_single_iff {x y : String} : single x < single y ↔ x < y := by
  show [x] < [y] ↔ x < y
  simp [List.cons_lt_cons_iff]

/-- A composite key begins with the least character, and a simple key with another one. -/
theorem spell_lt_of_composite {a b : Key} (hb : b.IsStorable) (hmany : 2 ≤ a.parts.length)
    (hone : b.parts.length = 1) (hnonempty : b.spell ≠ "") : a.spell < b.spell := by
  obtain ⟨part, rfl⟩ := parts_of_one hone
  have hsimple : Composite.isComposite part = false := by
    have hspelled := mt (isComposite_spell hb).mp (by simp [single])
    exact Bool.eq_false_iff.mpr hspelled
  rw [String.lt_iff, spell_of_many hmany]
  show _ < part.toList
  cases hchars : part.toList with
  | nil => exact absurd (String.toList_eq_nil_iff.mp hchars) hnonempty
  | cons c rest =>
    have hc : c ≠ separator := by
      rintro rfl
      simp [Composite.isComposite, hchars] at hsimple
    exact List.Lex.rel (Composite.separator_lt hc)

/-- **Encoding keeps keys apart and in order.**  Keys that the ledger accepts are the same if
    they are encoded alike, whatever the number of their parts.  The order of keys compares
    the bytes of their parts; among the keys of several parts, and among those of one part,
    it is the order of the encoded bytes.  Every key of several parts stands before every
    key of one part that is not empty, so the two kinds never interleave. -/
theorem encode_keeps_keys_apart_and_in_order {a b : Key} {x y : String}
    (ha : a.encode = .ok x) (hb : b.encode = .ok y) :
    (x = y → a.parts = b.parts) ∧
    (a < b ↔ a.parts.map Utf8.encode < b.parts.map Utf8.encode) ∧
    (2 ≤ a.parts.length ∧ 2 ≤ b.parts.length ∨ a.parts.length = 1 ∧ b.parts.length = 1 →
      (a < b ↔ Utf8.encode x < Utf8.encode y)) ∧
    (2 ≤ a.parts.length → b.parts.length = 1 → y ≠ "" → Utf8.encode x < Utf8.encode y) := by
  obtain ⟨hastore, rfl⟩ := encode_eq_ok_iff.mp ha
  obtain ⟨hbstore, rfl⟩ := encode_eq_ok_iff.mp hb
  rw [Utf8.encode_lt_encode_iff]
  refine ⟨fun hsame => congrArg parts ((spell_inj hastore hbstore).mp hsame), lt_iff_bytes_lt, ?_,
    spell_lt_of_composite hbstore⟩
  rintro (⟨hma, hmb⟩ | ⟨hoa, hob⟩)
  · exact (spell_lt_iff hastore hbstore hma hmb).symm
  · obtain ⟨part, rfl⟩ := parts_of_one hoa
    obtain ⟨other, rfl⟩ := parts_of_one hob
    exact single_lt_single_iff

/-- A key with an empty part stands before the keys that extend it, a part before the parts
    that it begins, and a character of one byte before a character of two; the simple key
    of the same text comes behind all of them. -/
theorem encode_keeps_keys_apart_and_in_order_extended :
    ∃ book empty tenth accented simple : String,
      Key.encode ⟨["BOOK", "1"]⟩ = .ok book ∧ Key.encode ⟨["BOOK", "1", ""]⟩ = .ok empty ∧
      Key.encode ⟨["BOOK", "10"]⟩ = .ok tenth ∧ Key.encode ⟨["BOOK", "é"]⟩ = .ok accented ∧
      Key.encode ⟨["BOOK"]⟩ = .ok simple ∧
      book ≠ empty ∧ Utf8.encode book < Utf8.encode empty ∧
      Utf8.encode empty < Utf8.encode tenth ∧ Utf8.encode tenth < Utf8.encode accented ∧
      Utf8.encode accented < Utf8.encode simple := by
  have hencode (key : Key) (h : key.IsStorable) : key.encode = .ok key.spell :=
    encode_eq_ok_iff.mpr ⟨h, rfl⟩
  have hbook := hencode ⟨["BOOK", "1"]⟩ rfl
  have hempty := hencode ⟨["BOOK", "1", ""]⟩ rfl
  have htenth := hencode ⟨["BOOK", "10"]⟩ rfl
  have haccented := hencode ⟨["BOOK", "é"]⟩ rfl
  have hsimple := hencode ⟨["BOOK"]⟩ rfl
  obtain ⟨hapart, -, hinorder, -⟩ := encode_keeps_keys_apart_and_in_order hbook hempty
  refine ⟨_, _, _, _, _, hbook, hempty, htenth, haccented, hsimple, ?_, ?_, ?_, ?_, ?_⟩
  · intro hsame
    exact absurd (hapart hsame) (by decide)
  · exact (hinorder (.inl (by decide))).mp (by decide)
  · exact ((encode_keeps_keys_apart_and_in_order hempty htenth).2.2.1 (.inl (by decide))).mp
      (by decide)
  · exact ((encode_keeps_keys_apart_and_in_order htenth haccented).2.2.1 (.inl (by decide))).mp
      (by decide)
  · exact (encode_keeps_keys_apart_and_in_order haccented hsimple).2.2.2 (by decide) rfl
      (by decide)

end Key

/-! ### Ranges -/

namespace Composite

/-- The bytes stand in a range, in the order of bytes. -/
def InRange (range : String × String) (bytes : Bytes) : Prop :=
  Utf8.encode range.1 ≤ bytes ∧ bytes < Utf8.encode range.2

theorem range_eq_ok_iff {objectType : String} {attributes : List String}
    {found : String × String} :
    range objectType attributes = .ok found ↔
      (∀ part ∈ objectType :: attributes, IsPlain part) ∧
        found = (rangeStart objectType attributes, rangeStop objectType attributes) := by
  constructor
  · intro h
    have hplain : ∀ part ∈ objectType :: attributes, IsPlain part := by
      rw [← checkParts_eq_ok_iff]
      cases hchecked : checkParts (objectType :: attributes) with
      | ok _ => rfl
      | error error =>
        simp only [range, encode, hchecked] at h
        cases h
    rw [range_eq hplain] at h
    exact ⟨hplain, (Except.ok.inj h).symm⟩
  · rintro ⟨hplain, rfl⟩
    exact range_eq hplain

section

variable {objectType otherType : String} {attributes others : List String}

theorem toList_rangeStart (objectType : String) (attributes : List String) :
    (rangeStart objectType attributes).toList =
      separator :: closeParts (objectType :: attributes) :=
  String.toList_ofList

/-- The start of one range stands in another just if the other's parts come first in its own. -/
theorem rangeStart_mem_iff (h : ∀ part ∈ objectType :: attributes, IsPlain part)
    (hother : ∀ part ∈ otherType :: others, IsPlain part) :
    (rangeStart objectType attributes ≤ rangeStart otherType others ∧
        rangeStart otherType others < rangeStop objectType attributes) ↔
      objectType :: attributes <+: otherType :: others := by
  rw [rangeStop, mem_range_iff, toList_rangeStart, toList_rangeStart]
  constructor
  · rintro ⟨rest, hrest, -⟩
    rw [List.cons_append, List.cons_inj_right] at hrest
    exact (closeParts_prefix_iff h hother).mp ⟨rest, hrest.symm⟩
  · rintro ⟨more, hmore⟩
    rw [← hmore, closeParts_append]
    refine ⟨closeParts more, rfl, Key.head?_closeParts_ne fun part hpart => hother part ?_⟩
    rw [← hmore]
    exact List.mem_append_right _ hpart

/-- A range ends no later than one whose parts come first in its own. -/
theorem rangeStop_le (hother : ∀ part ∈ otherType :: others, IsPlain part)
    (hextends : objectType :: attributes <+: otherType :: others) :
    rangeStop otherType others ≤ rangeStop objectType attributes := by
  obtain ⟨more, hmore⟩ := hextends
  have hstart : (rangeStart otherType others).toList =
      (rangeStart objectType attributes).toList ++ closeParts more := by
    rw [toList_rangeStart, toList_rangeStart, ← hmore, closeParts_append]
    rfl
  cases more with
  | nil =>
    have hsame : rangeStart otherType others = rangeStart objectType attributes := by
      rw [← String.toList_inj, hstart, closeParts_nil, List.append_nil]
    rw [rangeStop, hsame]
    exact Std.le_refl _
  | cons part rest =>
    -- the stop goes on with a character of the next part, which is not the last rune
    have hmorePlain : ∀ next ∈ part :: rest, IsPlain next := by
      intro next hnext
      apply hother
      rw [← hmore]
      exact List.mem_append_right _ hnext
    have hhead := Key.head?_closeParts_ne hmorePlain
    refine Std.le_of_lt (mem_range_iff.mpr ⟨closeParts (part :: rest) ++ [lastRune], ?_, ?_⟩).2
    · rw [rangeStop, String.toList_push, hstart, List.append_assoc]
    · rw [List.head?_append_of_ne_nil _ (by simp)]
      exact hhead

/-- Two ranges, neither of which starts inside the other, have nothing in common. -/
theorem not_inRange_both {first second : String × String}
    (h : ¬ (first.1 ≤ second.1 ∧ second.1 < first.2))
    (hother : ¬ (second.1 ≤ first.1 ∧ first.1 < second.2)) (bytes : Bytes) :
    ¬ (InRange first bytes ∧ InRange second bytes) := by
  rintro ⟨⟨hle, hlt⟩, hle', hlt'⟩
  rcases Std.le_total (a := first.1) (b := second.1) with hstart | hstart
  · have hstop : first.2 ≤ second.1 := String.not_lt.mp fun hinside => h ⟨hstart, hinside⟩
    have hbefore := Std.lt_of_lt_of_le hlt (Utf8.encode_le_encode_iff.mpr hstop)
    exact absurd hbefore (List.not_lt.mpr hle')
  · have hstop : second.2 ≤ first.1 := String.not_lt.mp fun hinside => hother ⟨hstart, hinside⟩
    have hbefore := Std.lt_of_lt_of_le hlt' (Utf8.encode_le_encode_iff.mpr hstop)
    exact absurd hbefore (List.not_lt.mpr hle)

end

/-- **The range of a partial key holds exactly the keys under it**, in the order of bytes: of
    the keys that the ledger accepts those of several parts, the first of which is the
    object type, while the others begin with the attributes, or are no more than these.  A
    second range is part of the first if its parts extend the first parts, and has nothing
    in common with the first if the parts of neither extend those of the other. -/
theorem range_holds_the_keys_under_it {objectType : String} {attributes : List String}
    {found : String × String} (hrange : range objectType attributes = .ok found) :
    (∀ (key : Key) (text : String), key.encode = .ok text →
      (InRange found (Utf8.encode text) ↔
        2 ≤ key.parts.length ∧ key.parts.head? = some objectType ∧
          attributes <+: key.parts.tail)) ∧
    ∀ (otherType : String) (others : List String) (other : String × String),
      range otherType others = .ok other →
        (objectType :: attributes <+: otherType :: others →
          ∀ bytes, InRange other bytes → InRange found bytes) ∧
        (¬ objectType :: attributes <+: otherType :: others →
          ¬ otherType :: others <+: objectType :: attributes →
            ∀ bytes, ¬ (InRange found bytes ∧ InRange other bytes)) := by
  obtain ⟨hplain, rfl⟩ := range_eq_ok_iff.mp hrange
  constructor
  · intro key text htext
    obtain ⟨hstorable, rfl⟩ := Key.encode_eq_ok_iff.mp htext
    rw [InRange, Utf8.encode_le_encode_iff, Utf8.encode_lt_encode_iff,
      Key.spell_mem_range_iff hplain hstorable]
    refine and_congr_right fun _ => ?_
    -- That the parts of the prefix begin those of the key is said of the first part and of the
    -- others.
    rcases key with ⟨_ | ⟨first, rest⟩⟩
    · simp
    · simp [List.cons_prefix_cons, eq_comm]
  · intro otherType others other hother
    obtain ⟨hotherPlain, rfl⟩ := range_eq_ok_iff.mp hother
    constructor
    · rintro hextends bytes ⟨hle, hlt⟩
      have hstart := ((rangeStart_mem_iff hplain hotherPlain).mpr hextends).1
      have hstop := rangeStop_le hotherPlain hextends
      exact ⟨Std.le_trans (Utf8.encode_le_encode_iff.mpr hstart) hle,
        Std.lt_of_lt_of_le hlt (Utf8.encode_le_encode_iff.mpr hstop)⟩
    · intro hextends hextends'
      exact not_inRange_both (mt (rangeStart_mem_iff hplain hotherPlain).mp hextends)
        (mt (rangeStart_mem_iff hotherPlain hplain).mp hextends')

/-- The range of part `1` holds the key that ends there and the key below it, and neither
    part `10` nor what stands below that. -/
theorem range_holds_the_keys_under_it_part_one :
    ∃ one below ten : String × String, ∃ exact under longer : String,
      range "BOOK" ["1"] = .ok one ∧ range "BOOK" ["1", ""] = .ok below ∧
      range "BOOK" ["10"] = .ok ten ∧
      Key.encode ⟨["BOOK", "1"]⟩ = .ok exact ∧ Key.encode ⟨["BOOK", "1", "é"]⟩ = .ok under ∧
      Key.encode ⟨["BOOK", "10"]⟩ = .ok longer ∧
      InRange one (Utf8.encode exact) ∧ InRange one (Utf8.encode under) ∧
      ¬ InRange one (Utf8.encode longer) ∧
      (∀ bytes, InRange below bytes → InRange one bytes) ∧
      ∀ bytes, ¬ (InRange one bytes ∧ InRange ten bytes) := by
  have hencode (key : Key) (h : key.IsStorable) : key.encode = .ok key.spell :=
    Key.encode_eq_ok_iff.mpr ⟨h, rfl⟩
  have hexact := hencode ⟨["BOOK", "1"]⟩ rfl
  have hunder := hencode ⟨["BOOK", "1", "é"]⟩ rfl
  have hlonger := hencode ⟨["BOOK", "10"]⟩ rfl
  have hranged (attributes : List String) (h : ∀ part ∈ "BOOK" :: attributes, IsPlain part) :
      range "BOOK" attributes =
        .ok (rangeStart "BOOK" attributes, rangeStop "BOOK" attributes) := range_eq h
  have hone := hranged ["1"] (by decide +kernel)
  have hbelow := hranged ["1", ""] (by decide +kernel)
  have hten := hranged ["10"] (by decide +kernel)
  obtain ⟨hkeys, hranges⟩ := range_holds_the_keys_under_it hone
  refine ⟨_, _, _, _, _, _, hone, hbelow, hten, hexact, hunder, hlonger,
    (hkeys _ _ hexact).mpr (by decide), (hkeys _ _ hunder).mpr (by decide), ?_,
    (hranges _ _ _ hbelow).1 (by decide), (hranges _ _ _ hten).2 (by decide) (by decide)⟩
  rw [hkeys _ _ hlonger]
  decide

end Composite

end EntityStore
