/-
  EntityStore/Proofs/Json/Openings.lean
  =====================================
  **What a payload opens with tells whether it can hold an object.**  A document is read
  from its first byte behind blanks, and only a brace makes it an object
  (`Json.opensObject_of_ofBytes?`).  Arrays open with a bracket, so they hold none.
-/
import EntityStore.Proofs.Json.Documents

namespace EntityStore.Json

/-- An input opens with a brace, behind blanks. -/
def OpensObject (input : Bytes) : Prop := ∃ rest, skipBlanks input = 0x7b :: rest

/-- Every other first byte makes a value of another kind, or none. -/
theorem opensObject_of_readValue {fuel depth : Nat} {input rest : Bytes}
    {members : List (Bytes × Written)}
    (h : readValue fuel depth input = some (.object members, rest)) : OpensObject input := by
  cases fuel with
  | zero => cases h
  | succ fuel =>
    rw [readValue] at h
    split at h
    · cases h
    · simp at h
    · cases depth with
      | zero => cases h
      | succ depth =>
        simp only at h
        split at h
        · cases h
        · simp at h
    · next rest hbrace => exact ⟨rest, hbrace⟩
    all_goals simp at h

theorem exists_object_of_ofWritten? {written : Written} {members : List (String × Json)}
    (h : ofWritten? written = some (.obj members)) : ∃ read, written = .object read := by
  cases written with
  | object read => exact ⟨read, rfl⟩
  | null | bool b => cases h
  | number n | text raw | array items => simp [ofWritten?] at h

/-- **A payload that holds an object opens with a brace.** -/
theorem opensObject_of_ofBytes? {input : Bytes} {members : List (String × Json)}
    (h : ofBytes? input = some (.obj members)) : OpensObject input := by
  obtain ⟨written, hwritten, hvalue⟩ := Option.bind_eq_some_iff.mp h
  obtain ⟨read, rfl⟩ := exists_object_of_ofWritten? hvalue
  unfold Written.ofBytes? at hwritten
  split at hwritten
  · next document rest hread =>
    split at hwritten
    · cases hwritten
      exact opensObject_of_readValue hread
    · cases hwritten
  · cases hwritten

/-- The first byte is the brace, or a blank with more behind it. -/
theorem OpensObject.head {b : UInt8} {tail : Bytes} (h : OpensObject (b :: tail)) :
    b = 0x7b ∨ isBlankByte b = true ∧ tail ≠ [] := by
  obtain ⟨rest, hrest⟩ := h
  cases hblank : isBlankByte b with
  | false =>
    rw [skipBlanks_cons hblank] at hrest
    exact .inl (List.cons.inj hrest).1
  | true =>
    refine .inr ⟨rfl, ?_⟩
    rintro rfl
    simp [skipBlanks, hblank] at hrest

theorem not_opensObject_arr (items : List Json) : ¬ OpensObject (arr items).toBytes := by
  obtain ⟨tail, hbytes⟩ : ∃ tail, (arr items).toBytes = 0x5b :: tail := by
    rw [toBytes_arr]
    cases items <;> exact ⟨_, rfl⟩
  intro h
  rw [hbytes] at h
  rcases h.head with hbrace | ⟨hblank, -⟩
  · exact absurd hbrace (by decide)
  · cases hblank

end EntityStore.Json
