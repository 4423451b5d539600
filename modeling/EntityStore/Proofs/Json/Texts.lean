/-
  EntityStore/Proofs/Json/Texts.lean
  ==================================
  **Arrays of texts survive being written and read**, so a key is read back from the
  document that was written for it.

  A character is written in one of three forms (`Escaped`).  The two readers of a
  string, for its grammar and for its meaning, are both followed one form at a time.
-/
import EntityStore.Codec.Document
import EntityStore.Proofs.Text.Utf8

namespace EntityStore.Json

/-! ### The forms of a character -/

/-- A byte that stands for itself inside a string. -/
def IsBare (b : UInt8) : Prop := 0x20 ≤ b.toNat ∧ b ≠ 0x22 ∧ b ≠ 0x5c

/-- The bytes that a character is written as inside a string: a backslash and a letter, a
    numbered control character, or the bytes of the character itself. -/
inductive Escaped (c : Char) : Bytes → Prop where
  | short {e : UInt8} (letter : isShortEscape e = true)
    (value : String.utf8EncodeChar c = [shortEscape e]) : Escaped c [0x5c, e]
  | numbered {d1 d2 d3 d4 : UInt8} (value : hexQuad? d1 d2 d3 d4 = some c.toNat)
    (control : c.toNat < 0x20) : Escaped c [0x5c, 0x75, d1, d2, d3, d4]
  | bare (bytes : ∀ b ∈ String.utf8EncodeChar c, IsBare b) : Escaped c (String.utf8EncodeChar c)

/-- The bytes of a character inside a string. -/
def escapedBytes (c : Char) : Bytes := (escapedChar c).flatMap String.utf8EncodeChar

theorem hexQuad_control {n : Nat} (h : n < 0x20) :
    ∃ d3 d4 : UInt8, (['\\', 'u', '0', '0', Bytes.hexDigit (n / 16), Bytes.hexDigit (n % 16)].flatMap
      String.utf8EncodeChar = [0x5c, 0x75, 0x30, 0x30, d3, d4]) ∧
      hexQuad? 0x30 0x30 d3 d4 = some n := by
  refine ⟨UInt8.ofNat (Bytes.hexDigit (n / 16)).toNat, UInt8.ofNat (Bytes.hexDigit (n % 16)).toNat,
    ?_⟩
  revert n
  decide

theorem isBare_of_mem {c : Char} (hcontrol : ¬ c.toNat < 0x20) (hquote : c ≠ '"')
    (hbackslash : c ≠ '\\') {b : UInt8} (hb : b ∈ String.utf8EncodeChar c) : IsBare b := by
  by_cases hascii : c.toNat < 0x80
  · rw [Utf8.utf8EncodeChar_ascii hascii, List.mem_singleton] at hb
    have hvalue : b.toNat = c.toNat := by rw [hb, Utf8.toNat_byte (by omega)]
    refine ⟨by omega, ?_, ?_⟩
    · rintro rfl
      exact hquote (Char.toNat_inj.mp hvalue.symm)
    · rintro rfl
      exact hbackslash (Char.toNat_inj.mp hvalue.symm)
  · have hhigh := Utf8.le_of_mem_utf8EncodeChar (by omega) hb
    refine ⟨by omega, ?_, ?_⟩
    · rintro rfl
      exact absurd hhigh (by decide)
    · rintro rfl
      exact absurd hhigh (by decide)

theorem escaped_escapedBytes (c : Char) : Escaped c (escapedBytes c) := by
  -- seven short escapes, then the numbered ones, and all other characters as they are
  unfold escapedBytes escapedChar
  split
  · next h => subst h; exact .short (e := 0x22) (by decide) (by decide)
  split
  · next h => subst h; exact .short (e := 0x5c) (by decide) (by decide)
  split
  · next h => subst h; exact .short (e := 0x62) (by decide) (by decide)
  split
  · next h => subst h; exact .short (e := 0x66) (by decide) (by decide)
  split
  · next h => subst h; exact .short (e := 0x6e) (by decide) (by decide)
  split
  · next h => subst h; exact .short (e := 0x72) (by decide) (by decide)
  split
  · next h => subst h; exact .short (e := 0x74) (by decide) (by decide)
  split
  · next hcontrol =>
    obtain ⟨d3, d4, hbytes, hvalue⟩ := hexQuad_control hcontrol
    rw [hbytes]
    exact .numbered hvalue hcontrol
  · next hquote hbackslash _ _ _ _ _ hcontrol =>
    rw [List.flatMap_singleton]
    exact .bare fun b hb => isBare_of_mem hcontrol hquote hbackslash hb

/-! ### Reading a string -/

theorem readText_bare {b : UInt8} (h : IsBare b) (tail : Bytes) :
    readText (b :: tail) = (readText tail).map fun (raw, rest) => (b :: raw, rest) := by
  obtain ⟨hcontrol, hquote, hbackslash⟩ := h
  have hlow : ¬ b < 0x20 := fun hlt =>
    absurd (UInt8.lt_iff_toNat_lt.mp hlt) (Nat.not_lt.mpr hcontrol)
  rw [readText.eq_def]
  split
  · contradiction
  · next heq => exact absurd (List.cons.inj heq).1 hquote
  · next heq => exact absurd (List.cons.inj heq).1 hbackslash
  · next heq => exact absurd (List.cons.inj heq).1 hbackslash
  · next heq =>
    obtain ⟨rfl, rfl⟩ := List.cons.inj heq
    rw [if_neg hlow]

theorem readText_bares {bytes : Bytes} (h : ∀ b ∈ bytes, IsBare b) (tail : Bytes) :
    readText (bytes ++ tail) =
      (readText tail).map fun (raw, rest) => (bytes ++ raw, rest) := by
  induction bytes with
  | nil => simp
  | cons b bytes ih =>
    rw [List.cons_append, readText_bare (h b List.mem_cons_self),
      ih fun other hother => h other (List.mem_cons_of_mem b hother), Option.map_map]
    rfl

theorem readText_escaped {c : Char} {bytes : Bytes} (h : Escaped c bytes) (tail : Bytes) :
    readText (bytes ++ tail) =
      (readText tail).map fun (raw, rest) => (bytes ++ raw, rest) := by
  cases h with
  | @short e letter _ =>
    have hu : e ≠ 0x75 := by
      rintro rfl
      exact absurd letter (by decide)
    simp only [List.cons_append, List.nil_append]
    rw [readText.eq_def]
    simp [hu, letter]
  | numbered value _ =>
    simp only [List.cons_append, List.nil_append]
    rw [readText, if_pos (by rw [value]; rfl)]
  | bare bare => exact readText_bares bare tail

/-- The bytes between the quotes of a text. -/
def rawText (text : String) : Bytes := text.toList.flatMap escapedBytes

theorem readText_chars (chars : List Char) (rest : Bytes) :
    readText (chars.flatMap escapedBytes ++ 0x22 :: rest) =
      some (chars.flatMap escapedBytes, rest) := by
  induction chars with
  | nil => rw [List.flatMap_nil, List.nil_append, readText]
  | cons c chars ih =>
    rw [List.flatMap_cons, List.append_assoc, readText_escaped (escaped_escapedBytes c), ih]
    rfl

/-! ### The meaning of a string -/

theorem join_byte (b : UInt8) (found : Option (List Piece)) :
    (found.map (Piece.byte b :: ·)).bind joinPieces? =
      (found.bind joinPieces?).map (b :: ·) := by
  cases found <;> rfl

theorem meaning_bares {bytes : Bytes} (h : ∀ b ∈ bytes, IsBare b) (tail : Bytes) :
    (pieces? (bytes ++ tail)).bind joinPieces? =
      ((pieces? tail).bind joinPieces?).map (bytes ++ ·) := by
  induction bytes with
  | nil => simp
  | cons b bytes ih =>
    have hbackslash : b ≠ 0x5c := (h b List.mem_cons_self).2.2
    have hpieces : pieces? (b :: (bytes ++ tail)) =
        (pieces? (bytes ++ tail)).map (Piece.byte b :: ·) := by
      rw [pieces?.eq_def]
      simp [hbackslash]
    rw [List.cons_append, hpieces, join_byte,
      ih fun other hother => h other (List.mem_cons_of_mem b hother), Option.map_map]
    rfl

theorem meaning_escaped {c : Char} {bytes : Bytes} (h : Escaped c bytes) (tail : Bytes) :
    (pieces? (bytes ++ tail)).bind joinPieces? =
      ((pieces? tail).bind joinPieces?).map (String.utf8EncodeChar c ++ ·) := by
  cases h with
  | @short e letter value =>
    -- a letter behind a backslash is one byte; only `u` begins a number
    have hu : e ≠ 0x75 := by
      rintro rfl
      exact absurd letter (by decide)
    have hpieces : pieces? (0x5c :: e :: tail) =
        (pieces? tail).map (Piece.byte (shortEscape e) :: ·) := by
      rw [pieces?.eq_def]
      simp [hu]
    simp only [List.cons_append, List.nil_append]
    rw [hpieces, join_byte, value]
    rfl
  | numbered value control =>
    -- a control character is no half of a pair, so it stands for itself
    have hhigh : isHighSurrogate c.toNat = false := by
      rw [isHighSurrogate, Bool.and_eq_false_iff]
      exact .inl (decide_eq_false (by omega))
    have hlow : isLowSurrogate c.toNat = false := by
      rw [isLowSurrogate, Bool.and_eq_false_iff]
      exact .inl (decide_eq_false (by omega))
    simp only [List.cons_append, List.nil_append]
    rw [pieces?, value]
    cases pieces? tail with
    | none => rfl
    | some pieces =>
      show joinPieces? (.unit c.toNat :: pieces) = (joinPieces? pieces).map _
      rw [joinPieces?.eq_def]
      simp [hhigh, hlow, Char.ofNat_toNat]
  | bare bare => exact meaning_bares bare tail

theorem meaning_chars (chars : List Char) :
    (pieces? (chars.flatMap escapedBytes)).bind joinPieces? =
      some (chars.flatMap String.utf8EncodeChar) := by
  induction chars with
  | nil => rfl
  | cons c chars ih =>
    rw [List.flatMap_cons, meaning_escaped (escaped_escapedBytes c), ih]
    rfl

theorem textOfRaw?_rawText (text : String) : textOfRaw? (rawText text) = some text := by
  rw [textOfRaw?, rawText, meaning_chars]
  exact Utf8.decode?_encode text

/-! ### Arrays of texts -/

/-- The bytes of a text with its quotes. -/
def quotedBytes (text : String) : Bytes := 0x22 :: (rawText text ++ [0x22])

/-- A text as it is read before anything is made of it. -/
def writtenOf (text : String) : Written := .text (rawText text)

theorem readValue_quotedBytes (fuel depth : Nat) (text : String) (rest : Bytes) :
    readValue (fuel + 1) depth (quotedBytes text ++ rest) = some (writtenOf text, rest) := by
  have hskip : skipBlanks (0x22 :: (rawText text ++ 0x22 :: rest)) =
      0x22 :: (rawText text ++ 0x22 :: rest) := rfl
  rw [quotedBytes, List.cons_append, List.append_assoc, List.singleton_append, readValue, hskip]
  simp only
  rw [rawText, readText_chars]
  rfl

theorem readItems_texts (depth : Nat) (text : String) (texts : List String) (rest : Bytes)
    {fuel : Nat} (hfuel : texts.length + 2 ≤ fuel) :
    readItems fuel depth
        (quotedBytes text ++ (texts.flatMap (fun t => 0x2c :: quotedBytes t) ++ 0x5d :: rest)) =
      some ((text :: texts).map writtenOf, rest) := by
  induction texts generalizing text fuel with
  | nil =>
    obtain ⟨fuel, rfl⟩ : ∃ n, fuel = n + 2 := ⟨fuel - 2, by omega⟩
    rw [readItems, readValue_quotedBytes]
    rfl
  | cons next texts ih =>
    obtain ⟨fuel, rfl⟩ : ∃ n, fuel = n + 2 := ⟨fuel - 2, by omega⟩
    have hfuel' : texts.length + 2 ≤ fuel + 1 := by
      rw [List.length_cons] at hfuel
      omega
    have hrest := ih next hfuel'
    rw [readItems, readValue_quotedBytes, List.flatMap_cons, List.append_assoc, List.cons_append]
    show (readItems (fuel + 1) depth _).map _ = _
    rw [hrest]
    rfl

/-- The payload of a list of texts: brackets around the quoted texts, commas between. -/
def textsBytes : List String → Bytes
  | [] => [0x5b, 0x5d]
  | text :: texts =>
    0x5b :: (quotedBytes text ++ (texts.flatMap (fun t => 0x2c :: quotedBytes t) ++ [0x5d]))

theorem stringChars_bytes (text : String) :
    (stringChars text).flatMap String.utf8EncodeChar = quotedBytes text := by
  rw [stringChars, List.flatMap_append, List.flatMap_cons, List.flatMap_assoc, quotedBytes, rawText]
  rfl

theorem itemChars_texts (texts : List String) :
    itemChars (texts.map .str) = texts.map stringChars := by
  induction texts with
  | nil => rfl
  | cons text texts ih => rw [List.map_cons, itemChars, ih, chars, List.map_cons]

theorem toBytes_ofTexts (texts : List String) : (ofTexts texts).toBytes = textsBytes texts := by
  rw [toBytes, render, Utf8.encode, String.toList_ofList, ofTexts, chars, itemChars_texts]
  cases texts with
  | nil => rfl
  | cons text texts =>
    have hrest : (texts.flatMap fun t => (',' :: stringChars t)).flatMap String.utf8EncodeChar =
        texts.flatMap fun t => 0x2c :: quotedBytes t := by
      rw [List.flatMap_assoc]
      congr 1
      funext t
      rw [List.flatMap_cons, stringChars_bytes]
      rfl
    rw [List.map_cons, listChars, List.flatMap_map, List.flatMap_append, List.flatMap_append,
      List.flatMap_cons, stringChars_bytes, hrest, textsBytes, List.append_assoc, List.append_assoc]
    rfl

/-- Each text takes up bytes of its own, so the fuel of the reader outlasts the texts. -/
theorem length_le_textsBytes (texts : List String) : texts.length + 2 ≤ (textsBytes texts).length := by
  have hitems (texts : List String) :
      texts.length ≤ (texts.flatMap fun t => 0x2c :: quotedBytes t).length := by
    induction texts with
    | nil => exact Nat.le_refl 0
    | cons text texts ih =>
      rw [List.flatMap_cons, List.length_append, List.length_cons, List.length_cons]
      omega
  cases texts with
  | nil => exact Nat.le_refl 2
  | cons text texts =>
    have hrest := hitems texts
    simp only [textsBytes, quotedBytes, List.length_cons, List.length_append, List.length_nil] at hrest ⊢
    omega

theorem ofBytes?_textsBytes (texts : List String) :
    Written.ofBytes? (textsBytes texts).length (textsBytes texts) =
      some (.array (texts.map writtenOf)) := by
  have hfuel := length_le_textsBytes texts
  generalize hlength : (textsBytes texts).length = length at hfuel
  cases texts with
  | nil =>
    subst hlength
    rfl
  | cons text texts =>
    obtain ⟨depth, rfl⟩ : ∃ n, length = n + 1 := ⟨length - 1, by omega⟩
    have hfuel' : texts.length + 2 ≤ 2 * (depth + 1) + 1 := by
      rw [List.length_cons] at hfuel
      omega
    have hitems := readItems_texts depth text texts [] hfuel'
    have hvalue : readValue (2 * (depth + 1) + 2) (depth + 1) (textsBytes (text :: texts)) =
        some (.array ((text :: texts).map writtenOf), []) := by
      rw [textsBytes, readValue]
      exact congrArg (Option.map fun found => (Written.array found.1, found.2)) hitems
    rw [Written.ofBytes?, hlength, hvalue]
    rfl

end EntityStore.Json

namespace EntityStore.Codec

open EntityStore.Json

theorem textsOfWritten?_writtenOf (texts : List String) :
    textsOfWritten? (.array (texts.map writtenOf)) = some texts := by
  show (texts.map writtenOf).mapM FieldValue.writtenText? = some texts
  induction texts with
  | nil => rfl
  | cons text texts ih =>
    rw [List.map_cons, List.mapM_cons, ih]
    show (textOfRaw? (rawText text)).bind _ = _
    rw [textOfRaw?_rawText]
    rfl

/-- **A key is read back from the payload that was written for it.** -/
theorem key_decode_encode (k : Key) : key.encode k >>= key.decode = .ok k := by
  show key.decode (ofTexts k.parts).toBytes = .ok k
  rw [toBytes_ofTexts]
  show found malformedJson (((written? (textsBytes k.parts)).bind textsOfWritten?).map Key.mk) = _
  rw [written?, ofBytes?_textsBytes, Option.bind_some, textsOfWritten?_writtenOf]
  rfl

end EntityStore.Codec
