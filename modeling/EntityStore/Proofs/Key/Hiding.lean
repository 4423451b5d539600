/-
  EntityStore/Proofs/Key/Hiding.lean
  ==================================
  **Keys behind digests.**  Hiding a key replaces the parts behind its namespace by their
  digests (`Key.hide`).  Digests are plain, so a hidden key can be stored; and where the
  digests tell the used parts apart, hiding keeps keys apart, and keeps prefixes and no
  others (`Key.hide_prefix_iff`).
-/
import EntityStore.Proofs.Key.Spelling
import EntityStore.Proofs.Key.Transform

namespace EntityStore

open KeyTransformer

/-! ### Digests are plain -/

theorem Bytes.isPlain_hexDigit :
    ∀ n < 16, Bytes.hexDigit n ≠ separator ∧ Bytes.hexDigit n ≠ lastRune := by
  decide +kernel

theorem Bytes.isPlain_toHex (bytes : Bytes) : Composite.IsPlain bytes.toHex := by
  intro c hc
  rw [Bytes.toHex, String.toList_ofList, Bytes.toHexDigits, List.mem_flatMap] at hc
  obtain ⟨b, -, hc⟩ := hc
  have hb : b.toNat < 256 := b.toNat_lt
  simp only [List.mem_cons, List.not_mem_nil, or_false] at hc
  rcases hc with rfl | rfl
  · exact isPlain_hexDigit _ (by omega)
  · exact isPlain_hexDigit _ (by omega)

theorem KeyTransformer.isPlain_digestPart (part : String) :
    Composite.IsPlain (digestPart part) := Bytes.isPlain_toHex _

namespace Key

/-! ### Hidden keys -/

/-- The parts behind the namespace replaced by their digests. -/
def hide (key : Key) : Key :=
  match key.parts with
  | [] => key
  | name :: rest => ⟨name :: rest.map digestPart⟩

@[simp] theorem hide_cons (name : String) (rest : List String) :
    hide ⟨name :: rest⟩ = ⟨name :: rest.map digestPart⟩ := rfl

theorem hashed_eq_hide {key : Key} (h : key.parts ≠ []) : hashed key = .ok key.hide := by
  rcases key with ⟨_ | ⟨name, rest⟩⟩
  · exact absurd rfl h
  · rfl

theorem hide_parts_eq_nil_iff {key : Key} : key.hide.parts = [] ↔ key.parts = [] := by
  rcases key with ⟨_ | ⟨name, rest⟩⟩
  · rfl
  · simp

theorem length_hide (key : Key) : key.hide.parts.length = key.parts.length := by
  rcases key with ⟨_ | ⟨name, rest⟩⟩
  · rfl
  · simp

theorem hide_eq_root_iff {key : Key} : key.hide.parts = [""] ↔ key.parts = [""] := by
  rcases key with ⟨_ | ⟨name, rest⟩⟩
  · rfl
  · simp

/-- The parts of a key are plain, and behind the namespace they are used ones. -/
structure Uses (key : Key) (used : Set String) : Prop where
  plain : ∀ part ∈ key.parts, Composite.IsPlain part
  tail : ∀ part ∈ key.parts.tail, part ∈ used

variable {used : Set String} {a b root key : Key}

/-! ### Storable keys -/

theorem isStorable_of_plain (hplain : ∀ part ∈ key.parts, Composite.IsPlain part)
    (h : key.parts ≠ []) : key.IsStorable := by
  rw [isStorable_iff]
  rcases key with ⟨_ | ⟨part, _ | ⟨second, rest⟩⟩⟩
  · exact absurd rfl h
  · refine .inl ⟨part, rfl, ?_⟩
    -- a composite key begins with the separator, which no plain part has
    rw [Composite.isComposite, beq_eq_false_iff_ne]
    intro hhead
    have hmem : separator ∈ part.toList := List.mem_of_head? hhead
    exact (hplain part (by simp) separator hmem).1 rfl
  · exact .inr ⟨by simp, hplain⟩

theorem Uses.isStorable (h : key.Uses used) (hparts : key.parts ≠ []) : key.IsStorable :=
  isStorable_of_plain h.plain hparts

theorem Uses.plain_hide (h : key.Uses used) : ∀ part ∈ key.hide.parts, Composite.IsPlain part := by
  rcases key with ⟨_ | ⟨name, rest⟩⟩
  · exact nofun
  · refine List.forall_mem_cons.mpr ⟨h.plain name List.mem_cons_self, ?_⟩
    rintro _ hpart
    obtain ⟨part, -, rfl⟩ := List.mem_map.mp hpart
    exact isPlain_digestPart part

theorem Uses.isStorable_hide (h : key.Uses used) (hparts : key.parts ≠ []) :
    key.hide.IsStorable :=
  isStorable_of_plain h.plain_hide fun hempty => hparts (hide_parts_eq_nil_iff.mp hempty)

/-! ### Hiding keeps keys and prefixes apart -/

theorem hide_inj (hdigests : Set.InjOn digestPart used) (ha : a.Uses used) (hb : b.Uses used) :
    a.hide = b.hide ↔ a = b := by
  refine ⟨fun h => ?_, fun h => h ▸ rfl⟩
  rcases a with ⟨_ | ⟨name, rest⟩⟩
  · have hempty : b.parts = [] := hide_parts_eq_nil_iff.mp (congrArg parts h).symm
    exact congrArg Key.mk hempty.symm
  · rcases b with ⟨_ | ⟨other, others⟩⟩
    · cases h
    · obtain ⟨hname, hrest⟩ := List.cons.inj (congrArg parts h)
      have hsame : rest = others := map_digestPart_inj hdigests ha.tail hb.tail hrest
      rw [hname, hsame]

theorem map_digestPart_prefix_iff (hdigests : Set.InjOn digestPart used) {xs ys : List String}
    (hxs : ∀ part ∈ xs, part ∈ used) (hys : ∀ part ∈ ys, part ∈ used) :
    xs.map digestPart <+: ys.map digestPart ↔ xs <+: ys := by
  constructor
  · intro h
    rw [List.prefix_iff_eq_take, List.length_map, ← List.map_take] at h
    have htake : ∀ part ∈ ys.take xs.length, part ∈ used :=
      fun part hpart => hys part (List.mem_of_mem_take hpart)
    exact List.prefix_iff_eq_take.mpr (map_digestPart_inj hdigests hxs htake h)
  · rintro ⟨more, rfl⟩
    exact ⟨more.map digestPart, (List.map_append).symm⟩

/-- **Hiding keeps prefixes, and no others.** -/
theorem hide_prefix_iff (hdigests : Set.InjOn digestPart used) (hroot : root.Uses used)
    (hkey : key.Uses used) : root.hide.parts <+: key.hide.parts ↔ root.parts <+: key.parts := by
  rcases root with ⟨_ | ⟨name, rest⟩⟩
  · simp [hide]
  · rcases key with ⟨_ | ⟨other, others⟩⟩
    · simp [hide]
    · have hrest : rest.map digestPart <+: others.map digestPart ↔ rest <+: others :=
        map_digestPart_prefix_iff hdigests hroot.tail hkey.tail
      simp only [hide_cons, List.cons_prefix_cons, hrest]

end Key

end EntityStore
