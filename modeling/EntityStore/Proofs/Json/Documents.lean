/-
  EntityStore/Proofs/Json/Documents.lean
  ======================================
  **Values survive being written and read.**  The text of a value is read as the value,
  inside a document as well as alone (`Json.ReadsAtHead`), as long as its numbers read
  back, its objects list their members in key order, and it is nested no deeper than the
  reader goes.
-/
import EntityStore.Proofs.Json.Numbers
import EntityStore.Proofs.Json.Texts
import EntityStore.Proofs.OrderedMap

namespace EntityStore.Json

/-! ### Values that can be read -/

mutual

/-- How many arrays and objects stand inside one another. -/
def depth : Json → Nat
  | arr items => itemsDepth items + 1
  | obj members => membersDepth members + 1
  | null | bool _ | num _ | str _ => 0

def itemsDepth : List Json → Nat
  | [] => 0
  | item :: rest => max (depth item) (itemsDepth rest)

def membersDepth : List (String × Json) → Nat
  | [] => 0
  | (_, value) :: rest => max (depth value) (membersDepth rest)

end

theorem depth_le_itemsDepth {items : List Json} {item : Json} (h : item ∈ items) :
    item.depth ≤ itemsDepth items := by
  induction items with
  | nil => cases h
  | cons first rest ih =>
    rw [itemsDepth]
    rcases List.mem_cons.mp h with rfl | hrest
    · exact Nat.le_max_left _ _
    · exact Nat.le_trans (ih hrest) (Nat.le_max_right _ _)

theorem depth_le_membersDepth {members : List (String × Json)} {member : String × Json}
    (h : member ∈ members) : member.2.depth ≤ membersDepth members := by
  induction members with
  | nil => cases h
  | cons first rest ih =>
    rw [membersDepth]
    rcases List.mem_cons.mp h with rfl | hrest
    · exact Nat.le_max_left _ _
    · exact Nat.le_trans (ih hrest) (Nat.le_max_right _ _)

/-- Numbers are read back from their texts, and members are in key order. -/
inductive Readable : Json → Prop where
  | null : Readable null
  | bool (b : Bool) : Readable (bool b)
  | num {n : Number} (reads : n.ReadsBack) : Readable (num n)
  | str (s : String) : Readable (str s)
  | arr {items : List Json} (items_readable : ∀ item ∈ items, Readable item) :
    Readable (arr items)
  | obj {members : List (String × Json)} (sorted : Assoc.Sorted members)
    (members_readable : ∀ member ∈ members, Readable member.2) : Readable (obj members)

/-! ### The bytes of a value -/

/-- The bytes of a list of texts between an opening and a closing byte. -/
def listBytes (opening closing : UInt8) : List Bytes → Bytes
  | [] => [opening, closing]
  | first :: rest => opening :: (first ++ (rest.flatMap (0x2c :: ·) ++ [closing]))

/-- The bytes of a member: its key, a colon, and its value. -/
def memberBytes (member : String × Json) : Bytes := quotedBytes member.1 ++ 0x3a :: member.2.toBytes

theorem toBytes_eq (value : Json) : value.toBytes = value.chars.flatMap String.utf8EncodeChar := by
  rw [toBytes, render, Utf8.encode, String.toList_ofList]

theorem toBytes_num (n : Number) : (num n).toBytes = n.bytes := by
  rw [toBytes_eq, chars]
  rfl

theorem toBytes_str (s : String) : (str s).toBytes = quotedBytes s := by
  rw [toBytes_eq, chars, stringChars_bytes]

theorem bytes_listChars {opening closing : Char} {first last : UInt8}
    (hopening : String.utf8EncodeChar opening = [first])
    (hclosing : String.utf8EncodeChar closing = [last]) (texts : List (List Char)) :
    (listChars opening closing texts).flatMap String.utf8EncodeChar =
      listBytes first last (texts.map (List.flatMap String.utf8EncodeChar)) := by
  have hcomma : String.utf8EncodeChar ',' = [0x2c] := rfl
  cases texts with
  | nil => simp [listChars, listBytes, hopening, hclosing]
  | cons text texts =>
    simp [listChars, listBytes, hopening, hclosing, hcomma, List.flatMap_assoc, List.flatMap_map]

theorem toBytes_arr (items : List Json) :
    (arr items).toBytes = listBytes 0x5b 0x5d (items.map toBytes) := by
  have hitems : (itemChars items).map (List.flatMap String.utf8EncodeChar) = items.map toBytes := by
    induction items with
    | nil => rfl
    | cons item rest ih => rw [itemChars, List.map_cons, List.map_cons, ih, toBytes_eq]
  have hopening : String.utf8EncodeChar '[' = [0x5b] := rfl
  have hclosing : String.utf8EncodeChar ']' = [0x5d] := rfl
  rw [toBytes_eq, chars, bytes_listChars hopening hclosing, hitems]

theorem toBytes_obj (members : List (String × Json)) :
    (obj members).toBytes = listBytes 0x7b 0x7d (members.map memberBytes) := by
  have hmembers : (memberChars members).map (List.flatMap String.utf8EncodeChar) =
      members.map memberBytes := by
    induction members with
    | nil => rfl
    | cons member rest ih =>
      obtain ⟨key, value⟩ := member
      rw [memberChars, List.map_cons, List.map_cons, ih, memberBytes, List.flatMap_append, keyChars,
        List.flatMap_append, stringChars_bytes, toBytes_eq, List.append_assoc]
      rfl
  have hopening : String.utf8EncodeChar '\x7b' = [0x7b] := rfl
  have hclosing : String.utf8EncodeChar '\x7d' = [0x7d] := rfl
  rw [toBytes_eq, chars, bytes_listChars hopening hclosing, hmembers]

/-! ### Reading -/

variable {fuel depth : Nat} {input rest tail : Bytes} {written : Written}

theorem skipBlanks_cons {b : UInt8} (h : isBlankByte b = false) (tail : Bytes) :
    skipBlanks (b :: tail) = b :: tail := by
  rw [skipBlanks, List.dropWhile_cons, h, if_neg Bool.false_ne_true]

theorem boundary_cons {b : UInt8} (h : b = 0x2c ∨ b = 0x5d ∨ b = 0x7d) (tail : Bytes) :
    Boundary (b :: tail) := by
  rintro _ ⟨⟩
  rcases h with rfl | rfl | rfl <;> decide

/-- A value begins with no blank and with no bracket that closes. -/
theorem toBytes_head {value : Json} (h : value.Readable) :
    ∃ b tail, value.toBytes = b :: tail ∧ isBlankByte b = false ∧ b ≠ 0x5d := by
  cases h with
  | null => exact ⟨_, _, rfl, rfl, by decide⟩
  | bool b => cases b <;> exact ⟨_, _, rfl, rfl, by decide⟩
  | num reads =>
    obtain ⟨numeral, hnumeral, -⟩ := reads.exists_numeral
    obtain ⟨b, tail, hbytes, hb⟩ := readNumeral_head hnumeral
    refine ⟨b, tail, toBytes_num _ ▸ hbytes, ?_⟩
    unfold isBlankByte
    grind
  | str s => exact ⟨_, _, toBytes_str s, rfl, by decide⟩
  | @arr items _ =>
    rw [toBytes_arr]
    cases items with
    | nil => exact ⟨_, _, rfl, rfl, by decide⟩
    | cons item rest => exact ⟨_, _, rfl, rfl, by decide⟩
  | @obj members _ _ =>
    rw [toBytes_obj]
    cases members with
    | nil => exact ⟨_, _, rfl, rfl, by decide⟩
    | cons member rest => exact ⟨_, _, rfl, rfl, by decide⟩

/-- In front of anything that continues no number, the bytes of a value are read as the
    value. -/
def ReadsAtHead (value : Json) : Prop :=
  ∀ fuel depth rest, value.depth ≤ depth → 2 * value.toBytes.length ≤ fuel → Boundary rest →
    ∃ written, readValue fuel depth (value.toBytes ++ rest) = some (written, rest) ∧
      ofWritten? written = some value

theorem readValue_numeral {numeral : Numeral} (h : readNumeral input = some (numeral, tail)) :
    readValue (fuel + 1) depth input = some (.number numeral, tail) := by
  obtain ⟨b, behind, rfl, hb⟩ := readNumeral_head h
  have hblank : isBlankByte b = false := by
    unfold isBlankByte
    grind
  unfold readValue
  rw [skipBlanks_cons hblank]
  split <;> grind

/-! ### Items and members -/

theorem readItems_last (h : readValue fuel depth input = some (written, 0x5d :: tail)) :
    readItems (fuel + 1) depth input = some ([written], tail) := by
  rw [readItems, h]
  rfl

theorem readItems_more {more : List Written}
    (h : readValue fuel depth input = some (written, 0x2c :: rest))
    (hrest : readItems fuel depth rest = some (more, tail)) :
    readItems (fuel + 1) depth input = some (written :: more, tail) := by
  rw [readItems, h]
  show (readItems fuel depth rest).map _ = _
  rw [hrest]
  rfl

theorem readText_key (key : String) (input : Bytes) :
    ∃ opened, skipBlanks (quotedBytes key ++ 0x3a :: input) = 0x22 :: opened ∧
      readText opened = some (rawText key, 0x3a :: input) := by
  refine ⟨rawText key ++ 0x22 :: 0x3a :: input, ?_, readText_chars key.toList _⟩
  rw [quotedBytes, List.cons_append, List.append_assoc, skipBlanks_cons rfl]
  rfl

theorem readMembers_last (key : String)
    (h : readValue fuel depth input = some (written, 0x7d :: tail)) :
    readMembers (fuel + 1) depth (quotedBytes key ++ 0x3a :: input) =
      some ([(rawText key, written)], tail) := by
  obtain ⟨opened, hskip, htext⟩ := readText_key key input
  have hcolon : skipBlanks (0x3a :: input) = 0x3a :: input := skipBlanks_cons rfl input
  have hclosing : skipBlanks (0x7d :: tail) = 0x7d :: tail := skipBlanks_cons rfl tail
  rw [readMembers, hskip]
  simp only [htext, hcolon, h, hclosing]

theorem readMembers_more (key : String) {more : List (Bytes × Written)}
    (h : readValue fuel depth input = some (written, 0x2c :: rest))
    (hrest : readMembers fuel depth rest = some (more, tail)) :
    readMembers (fuel + 1) depth (quotedBytes key ++ 0x3a :: input) =
      some ((rawText key, written) :: more, tail) := by
  obtain ⟨opened, hskip, htext⟩ := readText_key key input
  have hcolon : skipBlanks (0x3a :: input) = 0x3a :: input := skipBlanks_cons rfl input
  have hcomma : skipBlanks (0x2c :: rest) = 0x2c :: rest := skipBlanks_cons rfl rest
  rw [readMembers, hskip]
  simp only [htext, hcolon, h, hcomma, hrest]
  rfl

/-- The items of an array are read one after the other.  Each takes up bytes of its own, so
    twice their number bounds the work. -/
theorem readItems_values {first : Json} {items : List Json}
    (h : ∀ item ∈ first :: items, ReadsAtHead item) {fuel depth : Nat}
    (hdepth : ∀ item ∈ first :: items, item.depth ≤ depth)
    (hfuel : 2 * (first.toBytes ++ items.flatMap fun item => 0x2c :: item.toBytes).length < fuel)
    (tail : Bytes) :
    ∃ written, readItems fuel depth (first.toBytes ++
        (items.flatMap (fun item => 0x2c :: item.toBytes) ++ 0x5d :: tail)) = some (written, tail) ∧
      ofItems? written = some (first :: items) := by
  obtain ⟨fuel, rfl⟩ : ∃ n, fuel = n + 1 := ⟨fuel - 1, by omega⟩
  -- induction on the items behind the first, with as much fuel as the bytes left need
  induction items generalizing first fuel with
  | nil =>
    have hfuel : 2 * first.toBytes.length ≤ fuel := by
      simp at hfuel
      omega
    -- the bracket behind the last item ends it
    obtain ⟨written, hread, hvalue⟩ := h first List.mem_cons_self fuel depth (0x5d :: tail)
      (hdepth first List.mem_cons_self) hfuel (boundary_cons (.inr (.inl rfl)) tail)
    refine ⟨[written], readItems_last hread, ?_⟩
    rw [ofItems?, hvalue]
    rfl
  | cons next items ih =>
    obtain ⟨hfirst, hitems⟩ := List.forall_mem_cons.mp h
    obtain ⟨hdepth, hdepths⟩ := List.forall_mem_cons.mp hdepth
    rw [List.flatMap_cons, List.length_append, List.cons_append, List.length_cons] at hfuel
    obtain ⟨fuel, rfl⟩ : ∃ n, fuel = n + 1 := ⟨fuel - 1, by omega⟩
    -- the comma ends the first item, and takes up a byte of the fuel
    obtain ⟨more, hmore, hvalues⟩ := ih hitems hdepths fuel (by omega)
    rw [List.flatMap_cons, List.cons_append, List.cons_append, List.append_assoc]
    obtain ⟨written, hread, hvalue⟩ := hfirst (fuel + 1) depth _ hdepth (by omega)
      (boundary_cons (.inl rfl) _)
    refine ⟨written :: more, readItems_more hread hmore, ?_⟩
    rw [ofItems?, hvalue, hvalues]

theorem readMembers_values {first : String × Json} {members : List (String × Json)}
    (h : ∀ member ∈ first :: members, ReadsAtHead member.2) {fuel depth : Nat}
    (hdepth : ∀ member ∈ first :: members, member.2.depth ≤ depth)
    (hfuel : 2 * (memberBytes first ++
      members.flatMap fun member => 0x2c :: memberBytes member).length < fuel) (tail : Bytes) :
    ∃ written, readMembers fuel depth (memberBytes first ++
        (members.flatMap (fun member => 0x2c :: memberBytes member) ++ 0x7d :: tail)) =
        some (written, tail) ∧
      ofMembers? written = some (first :: members) := by
  obtain ⟨fuel, rfl⟩ : ∃ n, fuel = n + 1 := ⟨fuel - 1, by omega⟩
  -- as for items, with a name before each value
  induction members generalizing first fuel with
  | nil =>
    have hfuel : 2 * first.2.toBytes.length ≤ fuel := by
      simp [memberBytes] at hfuel
      omega
    -- the brace behind the last member ends its value
    obtain ⟨written, hread, hvalue⟩ := h first List.mem_cons_self fuel depth (0x7d :: tail)
      (hdepth first List.mem_cons_self) hfuel (boundary_cons (.inr (.inr rfl)) tail)
    refine ⟨[(rawText first.1, written)], ?_, ?_⟩
    · rw [memberBytes, List.append_assoc]
      exact readMembers_last first.1 hread
    · rw [ofMembers?, textOfRaw?_rawText, hvalue]
      rfl
  | cons next members ih =>
    obtain ⟨hfirst, hmembers⟩ := List.forall_mem_cons.mp h
    obtain ⟨hdepth, hdepths⟩ := List.forall_mem_cons.mp hdepth
    have hlength : first.2.toBytes.length ≤ (memberBytes first).length := by
      simp [memberBytes]
      omega
    rw [List.flatMap_cons, List.length_append, List.cons_append, List.length_cons] at hfuel
    obtain ⟨fuel, rfl⟩ : ∃ n, fuel = n + 1 := ⟨fuel - 1, by omega⟩
    obtain ⟨more, hmore, hvalues⟩ := ih hmembers hdepths fuel (by omega)
    rw [List.flatMap_cons, List.cons_append, List.cons_append, List.append_assoc]
    obtain ⟨written, hread, hvalue⟩ := hfirst (fuel + 1) depth _ hdepth (by omega)
      (boundary_cons (.inl rfl) _)
    refine ⟨(rawText first.1, written) :: more, ?_, ?_⟩
    · rw [memberBytes, List.append_assoc]
      exact readMembers_more first.1 hread hmore
    · rw [ofMembers?, textOfRaw?_rawText, hvalue, hvalues]

/-! ### Documents -/

theorem readValue_array {b : UInt8} {items : List Written} (hblank : isBlankByte b = false)
    (hclosing : b ≠ 0x5d) (h : readItems fuel depth (b :: input) = some (items, tail)) :
    readValue (fuel + 1) (depth + 1) (0x5b :: b :: input) = some (.array items, tail) := by
  have hopening : skipBlanks (0x5b :: b :: input) = 0x5b :: b :: input := skipBlanks_cons rfl _
  rw [readValue, hopening]
  simp only [skipBlanks_cons hblank]
  split
  · next heq => exact absurd (List.cons.inj heq).1 hclosing
  · rw [h]
    rfl

theorem readValue_object {members : List (Bytes × Written)}
    (h : readMembers fuel depth (0x22 :: input) = some (members, tail)) :
    readValue (fuel + 1) (depth + 1) (0x7b :: 0x22 :: input) = some (.object members, tail) := by
  have hopening : skipBlanks (0x7b :: 0x22 :: input) = 0x7b :: 0x22 :: input := skipBlanks_cons rfl _
  have hquote : skipBlanks (0x22 :: input) = 0x22 :: input := skipBlanks_cons rfl _
  rw [readValue, hopening]
  simp only [hquote]
  show (readMembers fuel depth (0x22 :: input)).map _ = _
  rw [h]
  rfl

theorem readsAtHead_arr {items : List Json} (hitems : ∀ item ∈ items, item.Readable)
    (h : ∀ item ∈ items, ReadsAtHead item) : ReadsAtHead (arr items) := by
  intro fuel depth rest hdepth hfuel hrest
  rw [Json.depth] at hdepth
  obtain ⟨depth, rfl⟩ : ∃ n, depth = n + 1 := ⟨depth - 1, by omega⟩
  rw [toBytes_arr] at hfuel ⊢
  cases items with
  | nil =>
    obtain ⟨fuel, rfl⟩ : ∃ n, fuel = n + 1 := ⟨fuel - 1, by simp [listBytes] at hfuel; omega⟩
    exact ⟨.array [], rfl, rfl⟩
  | cons first items =>
    have hdepths : ∀ item ∈ first :: items, item.depth ≤ depth := fun item hitem =>
      Nat.le_trans (depth_le_itemsDepth hitem) (Nat.le_of_succ_le_succ hdepth)
    rw [List.map_cons, listBytes, List.flatMap_map] at hfuel ⊢
    obtain ⟨fuel, rfl⟩ : ∃ n, fuel = n + 1 := ⟨fuel - 1, by simp at hfuel; omega⟩
    have hwork : 2 * (first.toBytes ++ items.flatMap fun item => 0x2c :: item.toBytes).length
        < fuel := by
      simp at hfuel ⊢
      omega
    obtain ⟨written, hread, hvalues⟩ := readItems_values h hdepths hwork rest
    obtain ⟨b, behind, hbytes, hblank, hclosing⟩ := toBytes_head (hitems first List.mem_cons_self)
    refine ⟨.array written, ?_, ?_⟩
    · -- the first item begins with a byte that neither is blank nor closes the array
      rw [hbytes] at hread ⊢
      simp only [List.cons_append, List.append_assoc, List.nil_append] at hread ⊢
      exact readValue_array hblank hclosing hread
    · rw [ofWritten?, hvalues]
      rfl

theorem readsAtHead_obj {members : List (String × Json)} (hsorted : Assoc.Sorted members)
    (h : ∀ member ∈ members, ReadsAtHead member.2) : ReadsAtHead (obj members) := by
  intro fuel depth rest hdepth hfuel hrest
  rw [Json.depth] at hdepth
  obtain ⟨depth, rfl⟩ : ∃ n, depth = n + 1 := ⟨depth - 1, by omega⟩
  rw [toBytes_obj] at hfuel ⊢
  cases members with
  | nil =>
    obtain ⟨fuel, rfl⟩ : ∃ n, fuel = n + 1 := ⟨fuel - 1, by simp [listBytes] at hfuel; omega⟩
    exact ⟨.object [], rfl, rfl⟩
  | cons first members =>
    have hdepths : ∀ member ∈ first :: members, member.2.depth ≤ depth := fun member hmember =>
      Nat.le_trans (depth_le_membersDepth hmember) (Nat.le_of_succ_le_succ hdepth)
    rw [List.map_cons, listBytes, List.flatMap_map] at hfuel ⊢
    obtain ⟨fuel, rfl⟩ : ∃ n, fuel = n + 1 := ⟨fuel - 1, by simp at hfuel; omega⟩
    have hwork : 2 * (memberBytes first ++
        members.flatMap fun member => 0x2c :: memberBytes member).length < fuel := by
      simp at hfuel ⊢
      omega
    obtain ⟨written, hread, hvalues⟩ := readMembers_values h hdepths hwork rest
    refine ⟨.object written, ?_, ?_⟩
    · rw [memberBytes, quotedBytes] at hread ⊢
      simp only [List.cons_append, List.append_assoc, List.nil_append] at hread ⊢
      exact readValue_object hread
    · -- members in key order make an object as they are
      rw [ofWritten?, hvalues]
      exact congrArg (fun found => some (obj found)) (Assoc.insertAll_of_sorted hsorted)

theorem Readable.readsAtHead {value : Json} (h : value.Readable) : ReadsAtHead value := by
  -- induction on the value; each word or value asks for some steps of fuel at least
  induction h with
  | null =>
    intro fuel depth rest _ hfuel _
    obtain ⟨fuel, rfl⟩ : ∃ n, fuel = n + 8 := ⟨fuel - 8, (Nat.sub_add_cancel hfuel).symm⟩
    exact ⟨.null, rfl, rfl⟩
  | bool b =>
    intro fuel depth rest _ hfuel _
    cases b with
    | true =>
      obtain ⟨fuel, rfl⟩ : ∃ n, fuel = n + 8 := ⟨fuel - 8, (Nat.sub_add_cancel hfuel).symm⟩
      exact ⟨.bool true, rfl, rfl⟩
    | false =>
      obtain ⟨fuel, rfl⟩ : ∃ n, fuel = n + 10 := ⟨fuel - 10, (Nat.sub_add_cancel hfuel).symm⟩
      exact ⟨.bool false, rfl, rfl⟩
  | @num n reads =>
    intro fuel depth rest _ hfuel hrest
    obtain ⟨numeral, hnumeral, hvalue⟩ := reads.exists_numeral
    rw [toBytes_num] at hfuel ⊢
    -- how a number is read depends on its first byte, which no other value begins with
    obtain ⟨b, behind, hbytes, -⟩ := readNumeral_head hnumeral
    obtain ⟨fuel, rfl⟩ : ∃ n, fuel = n + 1 := ⟨fuel - 1, by simp [hbytes] at hfuel; omega⟩
    refine ⟨.number numeral, readValue_numeral (readNumeral_append hrest hnumeral), ?_⟩
    rw [ofWritten?, hvalue]
    rfl
  | str s =>
    intro fuel depth rest _ hfuel _
    rw [toBytes_str] at hfuel ⊢
    obtain ⟨fuel, rfl⟩ : ∃ n, fuel = n + 1 := ⟨fuel - 1, by simp [quotedBytes] at hfuel; omega⟩
    refine ⟨.text (rawText s), readValue_quotedBytes fuel depth s rest, ?_⟩
    rw [ofWritten?, textOfRaw?_rawText]
    rfl
  | arr items_readable ih => exact readsAtHead_arr items_readable ih
  | obj sorted members_readable ih => exact readsAtHead_obj sorted ih

/-- **A value is read from its own text**, if it is nested no deeper than the reader goes. -/
theorem ofText?_render {value : Json} (h : value.Readable) (hdepth : value.depth ≤ depthLimit) :
    ofText? value.render = some value := by
  show (Written.ofBytes? depthLimit value.toBytes).bind ofWritten? = some value
  have hnothing : Boundary [] := nofun
  obtain ⟨written, hread, hvalue⟩ :=
    h.readsAtHead (2 * value.toBytes.length + 2) depthLimit [] hdepth (by omega) hnothing
  rw [List.append_nil] at hread
  rw [Written.ofBytes?, hread]
  exact hvalue

end EntityStore.Json
