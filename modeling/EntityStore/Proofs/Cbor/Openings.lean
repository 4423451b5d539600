/-
  EntityStore/Proofs/Cbor/Openings.lean
  =====================================
  **No item opens like a JSON object.**  The first byte of an item is the head of its
  major type.  Only the head of a text of `2 ^ 32` bytes or more is the byte of a brace;
  the bytes of the JSON blanks are heads of small integers, and such an integer ends with
  its head.
-/
import EntityStore.Cbor.Json
import EntityStore.Proofs.Json.Openings

namespace EntityStore.Cbor

open EntityStore.Json

/-- The first byte of a head: the major type and five more bits.  Below 24 they are the
    number itself, and nothing follows; 27 announces eight bytes. -/
theorem head_eq_cons (major n : Nat) :
    ∃ info tail, head major n = UInt8.ofNat (major * 32 + info) :: tail ∧ info < 28 ∧
      (info < 24 → tail = []) ∧ (info = 27 → UInt32.size ≤ n) := by
  unfold head
  split
  · next hsmall => exact ⟨n, [], rfl, by omega, fun _ => rfl, by omega⟩
  · split
    · exact ⟨24, _, rfl, by decide, by omega, by omega⟩
    · split
      · exact ⟨25, _, rfl, by decide, by omega, by omega⟩
      · split
        · exact ⟨26, _, rfl, by decide, by omega, by omega⟩
        · next hlarge => exact ⟨27, _, rfl, by decide, by omega, fun _ => Nat.le_of_not_lt hlarge⟩

/-- Something that begins with a head opens no object, if the number of a text is small and
    nothing follows an integer. -/
theorem not_opensObject_head {major n : Nat} {content : Bytes} (hmajor : major < 8)
    (htext : major = 3 → n < UInt32.size) (hinteger : major < 2 → content = []) :
    ¬ OpensObject (head major n ++ content) := by
  obtain ⟨info, tail, hhead, hinfo, hshort, hlong⟩ := head_eq_cons major n
  have hbyte : (UInt8.ofNat (major * 32 + info)).toNat = major * 32 + info :=
    Utf8.toNat_byte (by omega)
  intro hopens
  rw [hhead] at hopens
  rcases hopens.head with hbrace | ⟨hblank, hmore⟩
  · -- The brace is the head of a text whose length takes eight bytes.
    have hvalue : major * 32 + info = 0x7b := by rw [← hbyte, hbrace]; rfl
    have hlarge := hlong (by omega)
    have hsmall := htext (by omega)
    omega
  · -- The blanks are heads of integers, behind which nothing follows here.
    have hvalue : major * 32 + info ∈ [0x20, 0x0a, 0x0d, 0x09] := by
      rw [← hbyte]
      simp only [isBlankByte, Bool.or_eq_true, beq_iff_eq] at hblank
      rcases hblank with ((h | h) | h) | h <;> rw [h] <;> decide
    simp only [List.mem_cons, List.not_mem_nil, or_false] at hvalue
    refine hmore ?_
    rw [hshort (by omega), hinteger (by omega)]
    rfl

/-- No head of a simple value or of a floating-point number is a blank or a brace. -/
theorem not_opensObject_simple {b : UInt8} (hb : 0xf4 ≤ b) (tail : Bytes) :
    ¬ OpensObject (b :: tail) := by
  intro hopens
  rcases hopens.head with rfl | ⟨hblank, -⟩
  · exact absurd hb (by decide)
  · simp only [isBlankByte, Bool.or_eq_true, beq_iff_eq] at hblank
    rcases hblank with ((rfl | rfl) | rfl) | rfl <;> exact absurd hb (by decide)

/-- **The written form of an item opens no object**, unless the item is a text of `2 ^ 32`
    bytes or more. -/
theorem Item.not_opensObject_toBytes {item : Item}
    (h : ∀ text, item = .text text → (Utf8.encode text).length < UInt32.size) :
    ¬ OpensObject item.toBytes := by
  cases item with
  | unsigned n =>
    rw [Item.toBytes, ← List.append_nil (head 0 n)]
    exact not_opensObject_head (by decide) nofun fun _ => rfl
  | negative n =>
    rw [Item.toBytes, ← List.append_nil (head 1 n)]
    exact not_opensObject_head (by decide) nofun fun _ => rfl
  | text content =>
    rw [Item.toBytes]
    exact not_opensObject_head (by decide) (fun _ => h content rfl) (by omega)
  | bytes content | array items | map entries | tagged tag content =>
    rw [Item.toBytes]
    exact not_opensObject_head (by decide) nofun (by omega)
  | bool b => cases b <;> exact not_opensObject_simple (by decide) _
  | null | undefined => exact not_opensObject_simple (by decide) _
  | float x =>
    rw [Item.toBytes, floatBytes]
    repeat' split
    all_goals exact not_opensObject_simple (by decide) _

/-- Only texts are written as texts. -/
theorem eq_str_of_ofJson {value : Json} {text : String} (h : ofJson value = .text text) :
    value = .str text := by
  cases value with
  | str s =>
    cases h
    rfl
  | num n =>
    cases n with
    | int n =>
      rw [ofJson, Item.ofInt] at h
      split at h <;> cases h
    | float x => cases h
  | null | bool b | arr items | obj members => cases h

end EntityStore.Cbor
