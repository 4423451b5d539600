/-
  EntityStore/Proofs/OrderedMap.lean
  ==================================
  **Ordered maps as functions.**  The entries of a map are the pairs of its look-up
  function, and a range of them is cut out by the keys alone.  Of entries that are
  inserted one after the other the last one stays under each key.
-/
import EntityStore.OrderedMap

namespace EntityStore

namespace Assoc

variable {α : Type}

theorem get?_eq_some_iff {entries : List (String × α)} (h : Sorted entries) {key : String}
    {value : α} : get? key entries = some value ↔ (key, value) ∈ entries := by
  induction entries with
  | nil => simp [get?]
  | cons e rest ih =>
    obtain ⟨k, v⟩ := e
    obtain ⟨hfirst, hrest⟩ := List.pairwise_cons.mp h
    simp only [get?, List.mem_cons, Prod.mk.injEq]
    split
    · next hk =>
      subst hk
      -- a second entry under `k` would stand behind the first and yet have the same key
      have hbehind : (k, value) ∉ rest := fun hmem => String.lt_irrefl k (hfirst _ hmem)
      simp [hbehind, eq_comm]
    · next hk => simp [ih hrest, Ne.symm hk]

/-! ### Many insertions -/

theorem sorted_insertAll {entries into : List (String × α)} (h : Sorted into) :
    Sorted (insertAll entries into) := by
  induction entries generalizing into with
  | nil => exact h
  | cons e rest ih => exact ih (sorted_insert h)

theorem mem_insertAll {entries into : List (String × α)} {e : String × α}
    (h : e ∈ insertAll entries into) : e ∈ entries ∨ e ∈ into := by
  induction entries generalizing into with
  | nil => exact .inr h
  | cons first rest ih =>
    rcases ih h with hrest | hinto
    · exact .inl (List.mem_cons_of_mem _ hrest)
    · rcases mem_insert hinto with rfl | hinto
      · exact .inl List.mem_cons_self
      · exact .inr hinto

theorem get?_append (entries more : List (String × α)) (key : String) :
    get? key (entries ++ more) = (get? key entries).or (get? key more) := by
  induction entries with
  | nil => simp [get?]
  | cons e rest ih =>
    obtain ⟨k, v⟩ := e
    by_cases hk : k = key <;> simp [get?, hk, ih]

/-- Of several entries under one key the last one stays. -/
theorem get?_insertAll (entries into : List (String × α)) (key : String) :
    get? key (insertAll entries into) = (get? key entries.reverse).or (get? key into) := by
  induction entries generalizing into with
  | nil => simp [insertAll, get?]
  | cons e rest ih =>
    obtain ⟨k, v⟩ := e
    have hstep : insertAll ((k, v) :: rest) into = insertAll rest (insert k v into) := rfl
    rw [hstep, ih, List.reverse_cons, get?_append, get?_insert, Option.or_assoc]
    by_cases hk : k = key <;> simp [get?, hk]

theorem mem_of_get?_eq_some {entries : List (String × α)} {key : String} {value : α}
    (h : get? key entries = some value) : (key, value) ∈ entries := by
  induction entries with
  | nil => cases h
  | cons e rest ih =>
    obtain ⟨k, v⟩ := e
    simp only [get?] at h
    split at h
    · next hk =>
      cases h
      exact hk ▸ List.mem_cons_self
    · exact List.mem_cons_of_mem _ (ih h)

theorem exists_get?_of_mem {entries : List (String × α)} {key : String} {value : α}
    (h : (key, value) ∈ entries) : ∃ found, get? key entries = some found := by
  induction entries with
  | nil => cases h
  | cons e rest ih =>
    obtain ⟨k, v⟩ := e
    by_cases hk : k = key
    · exact ⟨v, if_pos hk⟩
    · rcases List.mem_cons.mp h with hhead | htail
      · exact absurd (congrArg Prod.fst hhead).symm hk
      · simpa [get?, hk] using ih htail

/-- If no two entries differ under one key, none of them is lost. -/
theorem get?_insertAll_eq_some_iff {entries : List (String × α)}
    (h : ∀ p ∈ entries, ∀ q ∈ entries, p.1 = q.1 → p.2 = q.2) {key : String} {value : α} :
    get? key (insertAll entries []) = some value ↔ (key, value) ∈ entries := by
  rw [get?_insertAll, show get? key ([] : List (String × α)) = none from rfl, Option.or_none]
  constructor
  · intro hfound
    exact List.mem_reverse.mp (mem_of_get?_eq_some hfound)
  · intro hmem
    obtain ⟨found, hfound⟩ := exists_get?_of_mem (List.mem_reverse.mpr hmem)
    have hentry := List.mem_reverse.mp (mem_of_get?_eq_some hfound)
    have hsame : found = value := h _ hentry _ hmem rfl
    rw [hfound, hsame]

/-- A key behind all others is inserted behind them. -/
theorem insert_last {entries : List (String × α)} {key : String} {value : α}
    (h : ∀ e ∈ entries, e.1 < key) : insert key value entries = entries ++ [(key, value)] := by
  induction entries with
  | nil => rfl
  | cons e rest ih =>
    obtain ⟨k, v⟩ := e
    obtain ⟨hfirst, hrest⟩ := List.forall_mem_cons.mp h
    have hlt : ¬ key < k := String.lt_asymm hfirst
    have hne : key ≠ k := fun heq => String.lt_irrefl k (heq ▸ hfirst)
    rw [insert, if_neg hlt, if_neg hne, ih hrest]
    rfl

/-- Entries in key order stay as they are. -/
theorem insertAll_of_sorted {entries into : List (String × α)} (h : Sorted (into ++ entries)) :
    insertAll entries into = into ++ entries := by
  induction entries generalizing into with
  | nil => exact (List.append_nil into).symm
  | cons e rest ih =>
    obtain ⟨k, v⟩ := e
    have hlast : insert k v into = into ++ [(k, v)] :=
      insert_last fun other hother => (List.pairwise_append.mp h).2.2 other hother _ List.mem_cons_self
    have hstep : insertAll ((k, v) :: rest) into = insertAll rest (insert k v into) := rfl
    rw [List.append_cons] at h
    rw [hstep, hlast, ih h, ← List.append_cons]

end Assoc

namespace OrderedMap

variable {α : Type}

theorem get?_eq_some_iff {m : OrderedMap α} {key : String} {value : α} :
    m.get? key = some value ↔ (key, value) ∈ m.entries :=
  Assoc.get?_eq_some_iff m.sorted

theorem mem_between_iff {m : OrderedMap α} {start stop key : String} {value : α} :
    (key, value) ∈ m.between start stop ↔
      m.get? key = some value ∧ start ≤ key ∧ key < stop := by
  rw [mem_between, get?_eq_some_iff]

end OrderedMap

end EntityStore
