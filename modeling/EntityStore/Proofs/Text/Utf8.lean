/-
  EntityStore/Proofs/Text/Utf8.lean
  =================================
  **UTF-8 loses nothing**: decoding the bytes of a text gives the text back.

  The reader is followed one byte at a time.  A first byte leads to a place that
  carries its value bits and the range of the next byte (`ofFirst_two`,
  `ofFirst_three`, `ofFirst_four`); each further byte adds six bits.
-/
import EntityStore.Text.Utf8

namespace EntityStore.Utf8

/-! ### Single bytes -/

theorem toNat_byte {n : Nat} (h : n < 256) : (UInt8.ofNat n).toNat = n := by
  rw [UInt8.toNat_ofNat']
  exact Nat.mod_eq_of_lt h

theorem decodeFrom_ascii {b : UInt8} (h : b.toNat < 0x80) (index : Nat) (done : List Char)
    (rest : Bytes) :
    decodeFrom .between index done (b :: rest) =
      decodeFrom .between (index + 1) (Char.ofNat b.toNat :: done) rest := by
  have hb : b < 0x80 := UInt8.lt_iff_toNat_lt.mpr h
  rw [decodeFrom, if_pos hb]

theorem decodeFrom_first {b : UInt8} {place : Place} (h : Place.ofFirst b = some place)
    (hb : 0x80 ≤ b.toNat) (index : Nat) (done : List Char) (rest : Bytes) :
    decodeFrom .between index done (b :: rest) = decodeFrom place (index + 1) done rest := by
  have hge : ¬ b < 0x80 := fun hlt => absurd (UInt8.lt_iff_toNat_lt.mp hlt) (Nat.not_lt.mpr hb)
  rw [decodeFrom, if_neg hge, h]

theorem decodeFrom_last {b low high : UInt8} (h : low.toNat ≤ b.toNat ∧ b.toNat ≤ high.toNat)
    (seen value index : Nat) (done : List Char) (rest : Bytes) :
    decodeFrom (.inside seen value 0 low high) index done (b :: rest) =
      decodeFrom .between (index + 1) (Char.ofNat (value * 64 + (b.toNat - 0x80)) :: done) rest := by
  have hb : low ≤ b ∧ b ≤ high := ⟨UInt8.le_iff_toNat_le.mpr h.1, UInt8.le_iff_toNat_le.mpr h.2⟩
  rw [decodeFrom, if_pos hb]

theorem decodeFrom_next {b low high : UInt8} (h : low.toNat ≤ b.toNat ∧ b.toNat ≤ high.toNat)
    (seen value missing index : Nat) (done : List Char) (rest : Bytes) :
    decodeFrom (.inside seen value (missing + 1) low high) index done (b :: rest) =
      decodeFrom (.inside (seen + 1) (value * 64 + (b.toNat - 0x80)) missing 0x80 0xBF)
        (index + 1) done rest := by
  have hb : low ≤ b ∧ b ≤ high := ⟨UInt8.le_iff_toNat_le.mpr h.1, UInt8.le_iff_toNat_le.mpr h.2⟩
  rw [decodeFrom, if_pos hb]

/-! ### First bytes -/

theorem ofFirst_two {b : UInt8} (hlow : 0xC2 ≤ b.toNat) (hhigh : b.toNat < 0xE0) :
    Place.ofFirst b = some (.inside 1 (b.toNat - 0xC0) 0 0x80 0xBF) := by
  have h1 : ¬ b < 0xC2 := fun h => absurd (UInt8.lt_iff_toNat_lt.mp h) (Nat.not_lt.mpr hlow)
  have h2 : b < 0xE0 := UInt8.lt_iff_toNat_lt.mpr hhigh
  rw [Place.ofFirst, if_neg h1, if_pos h2]

theorem ofFirst_three {b : UInt8} (hlow : 0xE0 ≤ b.toNat) (hhigh : b.toNat < 0xF0) :
    Place.ofFirst b =
      some (.inside 1 (b.toNat - 0xE0) 1 (if b = 0xE0 then 0xA0 else 0x80)
        (if b = 0xED then 0x9F else 0xBF)) := by
  have h1 : ¬ b < 0xC2 := fun h => by
    have := UInt8.lt_iff_toNat_lt.mp h
    simp at this
    omega
  have h2 : ¬ b < 0xE0 := fun h => absurd (UInt8.lt_iff_toNat_lt.mp h) (Nat.not_lt.mpr hlow)
  have h3 : b < 0xF0 := UInt8.lt_iff_toNat_lt.mpr hhigh
  rw [Place.ofFirst, if_neg h1, if_neg h2, if_pos h3]

theorem ofFirst_four {b : UInt8} (hlow : 0xF0 ≤ b.toNat) (hhigh : b.toNat < 0xF5) :
    Place.ofFirst b =
      some (.inside 1 (b.toNat - 0xF0) 2 (if b = 0xF0 then 0x90 else 0x80)
        (if b = 0xF4 then 0x8F else 0xBF)) := by
  have h1 : ¬ b < 0xC2 := fun h => by
    have := UInt8.lt_iff_toNat_lt.mp h
    simp at this
    omega
  have h2 : ¬ b < 0xE0 := fun h => by
    have := UInt8.lt_iff_toNat_lt.mp h
    simp at this
    omega
  have h3 : ¬ b < 0xF0 := fun h => absurd (UInt8.lt_iff_toNat_lt.mp h) (Nat.not_lt.mpr hlow)
  have h4 : b < 0xF5 := UInt8.lt_iff_toNat_lt.mpr hhigh
  rw [Place.ofFirst, if_neg h1, if_neg h2, if_neg h3, if_pos h4]

/-! ### Bytes behind the first -/

theorem tail_bounds {n : Nat} (h : n < 0x40) :
    UInt8.toNat 0x80 ≤ (UInt8.ofNat (n + 0x80)).toNat ∧
      (UInt8.ofNat (n + 0x80)).toNat ≤ UInt8.toNat 0xBF := by
  rw [toNat_byte (by omega)]
  simp only [UInt8.reduceToNat]
  omega

/-- The second byte of a character whose first is `first` or `last` has a narrower range. -/
theorem second_bounds (b first last low high : UInt8) {n : Nat} (h : n < 0x40)
    (hlow : b.toNat = first.toNat → low.toNat ≤ n + 0x80)
    (hhigh : b.toNat = last.toNat → n + 0x80 ≤ high.toNat) :
    (if b = first then low else 0x80).toNat ≤ (UInt8.ofNat (n + 0x80)).toNat ∧
      (UInt8.ofNat (n + 0x80)).toNat ≤ (if b = last then high else 0xBF).toNat := by
  have htail := tail_bounds h
  rw [toNat_byte (by omega)] at htail ⊢
  constructor
  · by_cases hb : b = first
    · rw [if_pos hb]
      exact hlow (congrArg UInt8.toNat hb)
    · rw [if_neg hb]
      exact htail.1
  · by_cases hb : b = last
    · rw [if_pos hb]
      exact hhigh (congrArg UInt8.toNat hb)
    · rw [if_neg hb]
      exact htail.2

/-! ### Characters, by the number of their bytes -/

theorem decodeFrom_two {v : Nat} (hlow : 0x80 ≤ v) (hhigh : v < 0x800) (index : Nat)
    (done : List Char) (rest : Bytes) :
    decodeFrom .between index done
        (UInt8.ofNat (v / 64 % 0x20 + 0xc0) :: UInt8.ofNat (v % 0x40 + 0x80) :: rest) =
      decodeFrom .between (index + 2) (Char.ofNat v :: done) rest := by
  have hb1 := toNat_byte (n := v / 64 % 0x20 + 0xc0) (by omega)
  have hb2 := toNat_byte (n := v % 0x40 + 0x80) (by omega)
  have hvalue : (v / 64 % 0x20 + 0xc0 - 0xC0) * 64 + (v % 0x40 + 0x80 - 0x80) = v := by omega
  rw [decodeFrom_first (ofFirst_two (by omega) (by omega)) (by omega),
    decodeFrom_last (tail_bounds (by omega)), hb1, hb2, hvalue]

theorem decodeFrom_three {v : Nat} (hlow : 0x800 ≤ v) (hhigh : v < 0x10000)
    (hvalid : v < 0xD800 ∨ 0xDFFF < v) (index : Nat) (done : List Char) (rest : Bytes) :
    decodeFrom .between index done
        (UInt8.ofNat (v / 4096 % 0x10 + 0xe0) :: UInt8.ofNat (v / 64 % 0x40 + 0x80) ::
          UInt8.ofNat (v % 0x40 + 0x80) :: rest) =
      decodeFrom .between (index + 3) (Char.ofNat v :: done) rest := by
  have hb1 := toNat_byte (n := v / 4096 % 0x10 + 0xe0) (by omega)
  have hb2 := toNat_byte (n := v / 64 % 0x40 + 0x80) (by omega)
  have hb3 := toNat_byte (n := v % 0x40 + 0x80) (by omega)
  -- no overlong form, and no surrogate
  have hsecond : UInt8.toNat _ ≤ _ ∧ _ ≤ UInt8.toNat _ :=
    second_bounds (UInt8.ofNat (v / 4096 % 0x10 + 0xe0)) 0xE0 0xED 0xA0 0x9F
      (n := v / 64 % 0x40) (by omega)
      (by rw [hb1]; simp only [UInt8.reduceToNat]; omega)
      (by rw [hb1]; simp only [UInt8.reduceToNat]; omega)
  have hvalue : ((v / 4096 % 0x10 + 0xe0 - 0xE0) * 64 + (v / 64 % 0x40 + 0x80 - 0x80)) * 64
      + (v % 0x40 + 0x80 - 0x80) = v := by omega
  rw [decodeFrom_first (ofFirst_three (by omega) (by omega)) (by omega),
    decodeFrom_next hsecond, decodeFrom_last (tail_bounds (by omega)), hb1, hb2, hb3, hvalue]

theorem decodeFrom_four {v : Nat} (hlow : 0x10000 ≤ v) (hhigh : v < 0x110000) (index : Nat)
    (done : List Char) (rest : Bytes) :
    decodeFrom .between index done
        (UInt8.ofNat (v / 262144 % 0x08 + 0xf0) :: UInt8.ofNat (v / 4096 % 0x40 + 0x80) ::
          UInt8.ofNat (v / 64 % 0x40 + 0x80) :: UInt8.ofNat (v % 0x40 + 0x80) :: rest) =
      decodeFrom .between (index + 4) (Char.ofNat v :: done) rest := by
  have hb1 := toNat_byte (n := v / 262144 % 0x08 + 0xf0) (by omega)
  have hb2 := toNat_byte (n := v / 4096 % 0x40 + 0x80) (by omega)
  have hb3 := toNat_byte (n := v / 64 % 0x40 + 0x80) (by omega)
  have hb4 := toNat_byte (n := v % 0x40 + 0x80) (by omega)
  -- no overlong form, and nothing above the last code point
  have hsecond : UInt8.toNat _ ≤ _ ∧ _ ≤ UInt8.toNat _ :=
    second_bounds (UInt8.ofNat (v / 262144 % 0x08 + 0xf0)) 0xF0 0xF4 0x90 0x8F
      (n := v / 4096 % 0x40) (by omega)
      (by rw [hb1]; simp only [UInt8.reduceToNat]; omega)
      (by rw [hb1]; simp only [UInt8.reduceToNat]; omega)
  have hvalue : (((v / 262144 % 0x08 + 0xf0 - 0xF0) * 64 + (v / 4096 % 0x40 + 0x80 - 0x80)) * 64
      + (v / 64 % 0x40 + 0x80 - 0x80)) * 64 + (v % 0x40 + 0x80 - 0x80) = v := by omega
  rw [decodeFrom_first (ofFirst_four (by omega) (by omega)) (by omega),
    decodeFrom_next hsecond, decodeFrom_next (tail_bounds (by omega)),
    decodeFrom_last (tail_bounds (by omega)), hb1, hb2, hb3, hb4, hvalue]

/-- The bytes of a character, by how many they are. -/
theorem utf8EncodeChar_cases (c : Char) :
    (c.toNat < 0x80 ∧ String.utf8EncodeChar c = [UInt8.ofNat c.toNat]) ∨
    ((0x80 ≤ c.toNat ∧ c.toNat < 0x800) ∧
      String.utf8EncodeChar c =
        [UInt8.ofNat (c.toNat / 64 % 0x20 + 0xc0), UInt8.ofNat (c.toNat % 0x40 + 0x80)]) ∨
    ((0x800 ≤ c.toNat ∧ c.toNat < 0x10000) ∧
      String.utf8EncodeChar c =
        [UInt8.ofNat (c.toNat / 4096 % 0x10 + 0xe0), UInt8.ofNat (c.toNat / 64 % 0x40 + 0x80),
          UInt8.ofNat (c.toNat % 0x40 + 0x80)]) ∨
    ((0x10000 ≤ c.toNat ∧ c.toNat < 0x110000) ∧
      String.utf8EncodeChar c =
        [UInt8.ofNat (c.toNat / 262144 % 0x08 + 0xf0), UInt8.ofNat (c.toNat / 4096 % 0x40 + 0x80),
          UInt8.ofNat (c.toNat / 64 % 0x40 + 0x80), UInt8.ofNat (c.toNat % 0x40 + 0x80)]) := by
  have hvalid : c.toNat < 0xD800 ∨ (0xDFFF < c.toNat ∧ c.toNat < 0x110000) := c.valid
  have hvalue : c.val.toNat = c.toNat := rfl
  unfold String.utf8EncodeChar
  simp only [hvalue]
  generalize c.toNat = v at hvalid ⊢
  split
  · exact .inl ⟨by omega, rfl⟩
  · split
    · exact .inr (.inl ⟨by omega, rfl⟩)
    · split
      · exact .inr (.inr (.inl ⟨by omega, rfl⟩))
      · exact .inr (.inr (.inr ⟨by omega, rfl⟩))

theorem decodeFrom_char (c : Char) (index : Nat) (done : List Char) (rest : Bytes) :
    decodeFrom .between index done (String.utf8EncodeChar c ++ rest) =
      decodeFrom .between (index + (String.utf8EncodeChar c).length) (c :: done) rest := by
  have hvalid : c.toNat < 0xD800 ∨ (0xDFFF < c.toNat ∧ c.toNat < 0x110000) := c.valid
  have hchar : Char.ofNat c.toNat = c := Char.ofNat_toNat c
  rcases utf8EncodeChar_cases c with ⟨hone, hbytes⟩ | ⟨⟨hlow, hhigh⟩, hbytes⟩ |
    ⟨⟨hlow, hhigh⟩, hbytes⟩ | ⟨⟨hlow, hhigh⟩, hbytes⟩
  · have hb := toNat_byte (Nat.lt_trans hone (by decide : 0x80 < 256))
    rw [hbytes, List.cons_append, decodeFrom_ascii (by omega), hb, hchar]
    rfl
  · have htwo := decodeFrom_two hlow hhigh index done rest
    rw [hchar] at htwo
    rw [hbytes]
    exact htwo
  · have hthree := decodeFrom_three hlow hhigh (by omega) index done rest
    rw [hchar] at hthree
    rw [hbytes]
    exact hthree
  · have hfour := decodeFrom_four hlow hhigh index done rest
    rw [hchar] at hfour
    rw [hbytes]
    exact hfour

theorem utf8EncodeChar_ascii {c : Char} (h : c.toNat < 0x80) :
    String.utf8EncodeChar c = [UInt8.ofNat c.toNat] := by
  rcases utf8EncodeChar_cases c with ⟨-, hbytes⟩ | ⟨hmore, -⟩ | ⟨hmore, -⟩ | ⟨hmore, -⟩
  · exact hbytes
  all_goals omega

theorem le_of_mem_utf8EncodeChar {c : Char} (h : 0x80 ≤ c.toNat) {b : UInt8}
    (hb : b ∈ String.utf8EncodeChar c) : 0x80 ≤ b.toNat := by
  have hhigh {n m : Nat} (hm : 0x80 ≤ m) (hn : n + m < 0x100) :
      0x80 ≤ (UInt8.ofNat (n + m)).toNat := by
    rw [toNat_byte hn]
    omega
  -- Leading and following bytes are a mark of at least `0x80` with bits of the character added.
  rcases utf8EncodeChar_cases c with ⟨hone, -⟩ | ⟨-, hbytes⟩ | ⟨-, hbytes⟩ | ⟨-, hbytes⟩
  · omega
  all_goals simp only [hbytes, List.mem_cons, List.not_mem_nil, or_false] at hb
  · rcases hb with rfl | rfl
    · exact hhigh (by omega) (by omega)
    · exact hhigh (by omega) (by omega)
  · rcases hb with rfl | rfl | rfl
    · exact hhigh (by omega) (by omega)
    · exact hhigh (by omega) (by omega)
    · exact hhigh (by omega) (by omega)
  · rcases hb with rfl | rfl | rfl | rfl
    · exact hhigh (by omega) (by omega)
    · exact hhigh (by omega) (by omega)
    · exact hhigh (by omega) (by omega)
    · exact hhigh (by omega) (by omega)

/-! ### Texts -/

theorem decodeFrom_chars (chars : List Char) (index : Nat) (done : List Char) (rest : Bytes) :
    ∃ next, decodeFrom .between index done (chars.flatMap String.utf8EncodeChar ++ rest) =
      decodeFrom .between next (chars.reverse ++ done) rest := by
  induction chars generalizing index done with
  | nil => exact ⟨index, rfl⟩
  | cons c chars ih =>
    obtain ⟨next, hnext⟩ := ih (index + (String.utf8EncodeChar c).length) (c :: done)
    refine ⟨next, ?_⟩
    rw [List.flatMap_cons, List.append_assoc, decodeFrom_char, hnext, List.reverse_cons,
      List.append_assoc, List.singleton_append]

/-- **Decoding undoes encoding.** -/
theorem decode_encode (text : String) : decode (encode text) = .ok text := by
  obtain ⟨next, hnext⟩ := decodeFrom_chars text.toList 0 [] []
  rw [List.append_nil, List.append_nil] at hnext
  rw [decode, encode, hnext, decodeFrom, List.reverse_reverse]
  show Except.ok (String.ofList text.toList) = _
  rw [String.ofList_toList]

theorem decode?_encode (text : String) : decode? (encode text) = some text := by
  rw [decode?, decode_encode]
  rfl

theorem encode_inj {s t : String} : encode s = encode t ↔ s = t := by
  constructor
  · intro h
    have hread := decode_encode s
    rw [h, decode_encode t] at hread
    exact (Except.ok.inj hread).symm
  · exact congrArg encode

end EntityStore.Utf8
