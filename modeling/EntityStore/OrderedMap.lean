/-
  EntityStore/OrderedMap.lean
  ===========================
  **Maps in key order** — association lists whose keys increase strictly.

  The list functions of `Assoc` work on any association list; `OrderedMap` packs
  a list with the proof that its keys increase.  Reading the entries in order is
  then reading the list.
-/

namespace EntityStore

namespace Assoc

variable {α : Type}

/-- Keys increase strictly, so each occurs once. -/
def Sorted (entries : List (String × α)) : Prop := entries.Pairwise fun a b => a.1 < b.1

/-- The value under a key. -/
def get? (key : String) : List (String × α) → Option α
  | [] => none
  | (k, v) :: rest => if k = key then some v else get? key rest

/-- Sets the value under a key, at its place in key order. -/
def insert (key : String) (value : α) : List (String × α) → List (String × α)
  | [] => [(key, value)]
  | (k, v) :: rest =>
    if key < k then (key, value) :: (k, v) :: rest
    else if key = k then (key, value) :: rest
    else (k, v) :: insert key value rest

/-- Removes a key. -/
def erase (key : String) (entries : List (String × α)) : List (String × α) :=
  entries.filter fun entry => entry.1 ≠ key

/-- Inserts entries one after the other, so the last of several with one key
    stays. -/
def insertAll (entries : List (String × α)) (into : List (String × α)) : List (String × α) :=
  entries.foldl (fun acc entry => insert entry.1 entry.2 acc) into

/-! ### What is under a key -/

/-- Insertion sets the value under its key and leaves every other key alone. -/
theorem get?_insert (entries : List (String × α)) (key other : String) (value : α) :
    get? other (insert key value entries)
      = if key = other then some value else get? other entries := by
  induction entries with
  | nil => simp [insert, get?]
  | cons e rest ih =>
    obtain ⟨k, v⟩ := e
    simp only [insert]
    split
    · simp [get?]
    · split
      · next heq => subst heq; by_cases h : key = other <;> simp [get?, h]
      · next hne =>
        by_cases hk : k = other
        · subst hk; simp [get?, hne]
        · simp [get?, hk, ih]

/-- Erasure leaves nothing under its key and leaves every other key alone. -/
theorem get?_erase (entries : List (String × α)) (key other : String) :
    get? other (erase key entries) = if key = other then none else get? other entries := by
  induction entries with
  | nil => simp [erase, get?]
  | cons e rest ih =>
    obtain ⟨k, v⟩ := e
    simp only [erase, List.filter_cons] at ih ⊢
    by_cases hk : k = key
    · subst hk
      by_cases h : k = other <;> simp_all [get?]
    · by_cases h : k = other
      · subst h; simp [get?, hk, Ne.symm hk]
      · simp_all [get?]

/-! ### Order -/

theorem mem_insert {key : String} {value : α} {entries : List (String × α)} {p : String × α}
    (h : p ∈ insert key value entries) : p = (key, value) ∨ p ∈ entries := by
  induction entries with
  | nil => simpa [insert] using h
  | cons e rest ih =>
    obtain ⟨k, v⟩ := e
    simp only [insert] at h
    split at h
    · simpa using h
    · split at h
      · simp only [List.mem_cons] at h ⊢
        exact h.imp_right .inr
      · simp only [List.mem_cons] at h ⊢
        rcases h with h | h
        · exact .inr (.inl h)
        · exact (ih h).imp_right .inr

theorem sorted_insert {key : String} {value : α} {entries : List (String × α)}
    (h : Sorted entries) : Sorted (insert key value entries) := by
  induction entries with
  | nil => simp [insert, Sorted]
  | cons e rest ih =>
    obtain ⟨k, v⟩ := e
    have hrest := List.pairwise_cons.1 h
    simp only [insert]
    split
    · next hlt =>
      refine List.pairwise_cons.2 ⟨fun p hp => ?_, h⟩
      rcases List.mem_cons.1 hp with rfl | hp
      · exact hlt
      · exact String.lt_trans hlt (hrest.1 p hp)
    · next hlt =>
      split
      · next heq => subst heq; exact List.pairwise_cons.2 ⟨hrest.1, hrest.2⟩
      · next hne =>
        refine List.pairwise_cons.2 ⟨fun p hp => ?_, ih hrest.2⟩
        rcases mem_insert hp with rfl | hp
        · exact Std.lt_of_le_of_ne (String.not_lt.1 hlt) (Ne.symm hne)
        · exact hrest.1 p hp

theorem sorted_erase {key : String} {entries : List (String × α)} (h : Sorted entries) :
    Sorted (erase key entries) := h.filter _

end Assoc

/-- A map from texts, in the order of its keys. -/
structure OrderedMap (α : Type) where
  entries : List (String × α)
  sorted : Assoc.Sorted entries

namespace OrderedMap

variable {α : Type}

def empty : OrderedMap α := ⟨[], List.Pairwise.nil⟩

instance : EmptyCollection (OrderedMap α) := ⟨empty⟩

/-- The number of entries. -/
def size (m : OrderedMap α) : Nat := m.entries.length

def get? (m : OrderedMap α) (key : String) : Option α := Assoc.get? key m.entries

def insert (m : OrderedMap α) (key : String) (value : α) : OrderedMap α :=
  ⟨Assoc.insert key value m.entries, Assoc.sorted_insert m.sorted⟩

def erase (m : OrderedMap α) (key : String) : OrderedMap α :=
  ⟨Assoc.erase key m.entries, Assoc.sorted_erase m.sorted⟩

/-- The entries with `start ≤ key < stop`, in key order. -/
def between (m : OrderedMap α) (start stop : String) : List (String × α) :=
  m.entries.filter fun entry => start ≤ entry.1 ∧ entry.1 < stop

/-! ### One law for each operation -/

@[simp] theorem get?_empty (key : String) : (∅ : OrderedMap α).get? key = none := rfl

@[simp] theorem get?_insert (m : OrderedMap α) (key other : String) (value : α) :
    (m.insert key value).get? other = if key = other then some value else m.get? other :=
  Assoc.get?_insert m.entries key other value

@[simp] theorem get?_erase (m : OrderedMap α) (key other : String) :
    (m.erase key).get? other = if key = other then none else m.get? other :=
  Assoc.get?_erase m.entries key other

@[simp] theorem mem_between {m : OrderedMap α} {start stop : String} {entry : String × α} :
    entry ∈ m.between start stop ↔ entry ∈ m.entries ∧ start ≤ entry.1 ∧ entry.1 < stop := by
  simp [between]

/-- A range of keys is in key order. -/
theorem sorted_between (m : OrderedMap α) (start stop : String) :
    Assoc.Sorted (m.between start stop) := m.sorted.filter _

end OrderedMap

end EntityStore
