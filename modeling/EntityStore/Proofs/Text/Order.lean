/-
  EntityStore/Proofs/Text/Order.lean
  ==================================
  **The order of texts is the order of their bytes.**  Keys are compared as texts, one
  code point after the other; comparing their UTF-8 bytes gives the same answer
  (`encode_lt_encode_iff`).
-/
import EntityStore.Proofs.Text.Utf8

namespace EntityStore.Utf8

/-! ### Characters -/

/-- Of two numbers the one with the less digit at the first place where they differ is
    less, the digits being those that four bytes carry. -/
theorem digits_lt {v w : Nat} (h : v < w) (hw : w < 0x200000) :
    v / 262144 % 8 < w / 262144 % 8 ∨ v / 262144 % 8 = w / 262144 % 8 ∧
      (v / 4096 % 64 < w / 4096 % 64 ∨ v / 4096 % 64 = w / 4096 % 64 ∧
        (v / 64 % 64 < w / 64 % 64 ∨ v / 64 % 64 = w / 64 % 64 ∧ v % 64 < w % 64)) := by
  have hdigits {n : Nat} (hn : n < 0x200000) :
      n = ((n / 262144 % 8 * 64 + n / 4096 % 64) * 64 + n / 64 % 64) * 64 + n % 64 := by
    omega
  have hv := hdigits (Nat.lt_trans h hw)
  have hw := hdigits hw
  have hbound (n : Nat) : n % 64 < 64 := Nat.mod_lt n (by decide)
  have hw2 := hbound (w / 4096)
  have hw1 := hbound (w / 64)
  have hw0 := hbound w
  generalize v / 262144 % 8 = v3, v / 4096 % 64 = v2, v / 64 % 64 = v1, v % 64 = v0 at *
  generalize w / 262144 % 8 = w3, w / 4096 % 64 = w2, w / 64 % 64 = w1, w % 64 = w0 at *
  omega

/-- The bytes of characters are ordered like the characters, whatever follows. -/
theorem encodeChar_append_lt {c d : Char} (h : c < d) (rest rest' : Bytes) :
    String.utf8EncodeChar c ++ rest < String.utf8EncodeChar d ++ rest' := by
  have hlt : c.toNat < d.toNat := h
  have hcases := utf8EncodeChar_cases c
  have hcases' := utf8EncodeChar_cases d
  have hdigits := digits_lt hlt (by omega)
  -- more bytes begin with a larger byte, and as many differ first where the digits do
  rcases hcases with ⟨hc, hbytes⟩ | ⟨hc, hbytes⟩ | ⟨hc, hbytes⟩ | ⟨hc, hbytes⟩ <;>
    rcases hcases' with ⟨hd, hbytes'⟩ | ⟨hd, hbytes'⟩ | ⟨hd, hbytes'⟩ | ⟨hd, hbytes'⟩ <;>
    rw [hbytes, hbytes'] <;>
    simp (disch := omega) only [List.cons_append, List.nil_append, List.cons_lt_cons_iff,
      UInt8.lt_iff_toNat_lt, ← UInt8.toNat_inj, toNat_byte] <;>
    omega

/-! ### Texts -/

theorem encodeChars_lt {cs ds : List Char} (h : cs < ds) :
    cs.flatMap String.utf8EncodeChar < ds.flatMap String.utf8EncodeChar := by
  induction h with
  | @nil d ds =>
    obtain ⟨first, others, hbytes⟩ :=
      List.exists_cons_of_ne_nil (String.utf8EncodeChar_ne_nil (c := d))
    rw [List.flatMap_cons, hbytes]
    exact List.Lex.nil
  | rel hlt => exact encodeChar_append_lt hlt _ _
  | cons _ ih => exact List.append_left_lt ih

/-- **Texts are ordered like their bytes.** -/
theorem encode_lt_encode_iff {s t : String} : encode s < encode t ↔ s < t := by
  have hmono {s t : String} (h : s < t) : encode s < encode t := encodeChars_lt h
  constructor
  · intro h
    apply String.not_le.mp
    intro hle
    rcases Std.le_iff_lt_or_eq.mp hle with hlt | rfl
    · exact List.lt_asymm h (hmono hlt)
    · exact List.lt_irrefl _ h
  · exact hmono

theorem encode_le_encode_iff {s t : String} : encode s ≤ encode t ↔ s ≤ t := by
  rw [← List.not_lt, encode_lt_encode_iff, String.not_lt]

end EntityStore.Utf8
