/-
  EntityStore/Proofs/Except.lean
  ==============================
  **Taking a successful computation apart**, and reading a list with a step that may
  fail.
-/
import EntityStore.Error
import Mathlib.Data.List.Forall2

namespace EntityStore

universe u

variable {ε α β : Type}

theorem bind_eq_ok_iff {first : Except ε α} {second : α → Except ε β} {result : β} :
    first >>= second = .ok result ↔ ∃ value, first = .ok value ∧ second value = .ok result := by
  cases first with
  | error error => exact ⟨nofun, fun ⟨_, h, _⟩ => nomatch h⟩
  | ok value => exact ⟨fun h => ⟨value, rfl, h⟩, fun ⟨_, rfl, h⟩ => h⟩

theorem map_eq_ok_iff {γ : Type u} {first : Except ε α} {f : α → γ} {result : γ} :
    first.map f = .ok result ↔ ∃ value, first = .ok value ∧ f value = result := by
  cases first with
  | error error => exact ⟨nofun, fun ⟨_, h, _⟩ => nomatch h⟩
  | ok value => simp [Except.map]

theorem map_eq_error_iff {γ : Type u} {first : Except ε α} {f : α → γ} {error : ε} :
    first.map f = .error error ↔ first = .error error := by
  cases first with
  | error fault => exact ⟨fun h => congrArg _ (Except.error.inj h),
      fun h => congrArg _ (Except.error.inj h)⟩
  | ok value => exact ⟨nofun, nofun⟩

theorem mapError_eq_ok_iff {δ : Type} {first : Except ε α} {f : ε → δ} {result : α} :
    first.mapError f = .ok result ↔ first = .ok result := by
  cases first with
  | error error => exact ⟨nofun, nofun⟩
  | ok value => exact ⟨fun h => congrArg _ (Except.ok.inj h), fun h => congrArg _ (Except.ok.inj h)⟩

/-! ### Steps over a list -/

theorem mapM_eq_ok_of_imp {f g : α → Except ε β} (h : ∀ x y, f x = .ok y → g x = .ok y)
    {xs : List α} {ys : List β} (hxs : xs.mapM f = .ok ys) : xs.mapM g = .ok ys := by
  induction xs generalizing ys with
  | nil => exact hxs
  | cons x xs ih =>
    rw [List.mapM_cons] at hxs ⊢
    obtain ⟨y, hy, hxs⟩ := bind_eq_ok_iff.mp hxs
    obtain ⟨rest, hrest, hxs⟩ := bind_eq_ok_iff.mp hxs
    rw [h x y hy, ih hrest]
    exact hxs

theorem mapM_eq_ok_map {f : α → Except ε β} {g : α → β} {xs : List α}
    (h : ∀ x ∈ xs, f x = .ok (g x)) : xs.mapM f = .ok (xs.map g) := by
  induction xs with
  | nil => rfl
  | cons x xs ih =>
    rw [List.mapM_cons, h x (by simp), ih fun other hother => h other (by simp [hother])]
    rfl

theorem exists_mapM_eq_ok {f : α → Except ε β} {R : α → β → Prop} {xs : List α}
    (h : ∀ x ∈ xs, ∃ y, f x = .ok y ∧ R x y) :
    ∃ ys, xs.mapM f = .ok ys ∧ List.Forall₂ R xs ys := by
  induction xs with
  | nil => exact ⟨[], rfl, .nil⟩
  | cons x xs ih =>
    obtain ⟨⟨y, hy, hxy⟩, hrest⟩ := List.forall_mem_cons.mp h
    obtain ⟨ys, hys, hxys⟩ := ih hrest
    refine ⟨y :: ys, ?_, .cons hxy hxys⟩
    rw [List.mapM_cons, hy, hys]
    rfl

theorem exists_ok_of_mapM {f : α → Except ε β} {xs : List α} {ys : List β}
    (h : xs.mapM f = .ok ys) : ∀ x ∈ xs, ∃ y, f x = .ok y := by
  induction xs generalizing ys with
  | nil => exact nofun
  | cons x xs ih =>
    rw [List.mapM_cons] at h
    obtain ⟨y, hy, h⟩ := bind_eq_ok_iff.mp h
    obtain ⟨rest, hrest, -⟩ := bind_eq_ok_iff.mp h
    exact List.forall_mem_cons.mpr ⟨⟨y, hy⟩, ih hrest⟩

/-- If a step succeeds at items of a kind and with one value each, steps over a list
    succeed just if all items are of this kind, and with these values. -/
theorem mapM_eq_ok_map_iff {f : α → Except ε β} {g : α → β} {P : α → Prop} {xs : List α}
    {ys : List β} (h : ∀ x ∈ xs, ∀ y, f x = .ok y ↔ P x ∧ y = g x) :
    xs.mapM f = .ok ys ↔ (∀ x ∈ xs, P x) ∧ ys = xs.map g := by
  constructor
  · intro hxs
    have hP : ∀ x ∈ xs, P x := by
      intro x hx
      obtain ⟨y, hy⟩ := exists_ok_of_mapM hxs x hx
      exact ((h x hx y).mp hy).1
    have hmap := mapM_eq_ok_map fun x hx => (h x hx (g x)).mpr ⟨hP x hx, rfl⟩
    exact ⟨hP, Except.ok.inj (hxs.symm.trans hmap)⟩
  · rintro ⟨hP, rfl⟩
    exact mapM_eq_ok_map fun x hx => (h x hx (g x)).mpr ⟨hP x hx, rfl⟩

/-- Two steps over a list one after the other are both steps at each of its items. -/
theorem mapM_bind_eq_ok {δ : Type} {f : α → Except ε β} {g : β → Except ε δ} {xs : List α}
    {ys : List β} {zs : List δ} (hf : xs.mapM f = .ok ys) (hg : ys.mapM g = .ok zs) :
    xs.mapM (fun x => f x >>= g) = .ok zs := by
  induction xs generalizing ys zs with
  | nil =>
    cases hf
    exact hg
  | cons x xs ih =>
    rw [List.mapM_cons] at hf ⊢
    obtain ⟨y, hy, hf⟩ := bind_eq_ok_iff.mp hf
    obtain ⟨rest, hrest, hf⟩ := bind_eq_ok_iff.mp hf
    cases hf
    rw [List.mapM_cons] at hg
    obtain ⟨z, hz, hg⟩ := bind_eq_ok_iff.mp hg
    obtain ⟨later, hlater, hg⟩ := bind_eq_ok_iff.mp hg
    rw [hy, ih hrest hlater]
    exact bind_eq_ok_iff.mpr ⟨z, hz, hg⟩

theorem mapM_congr {f g : α → Except ε β} {xs : List α} (h : ∀ x ∈ xs, f x = g x) :
    xs.mapM f = xs.mapM g := by
  induction xs with
  | nil => rfl
  | cons x xs ih =>
    rw [List.mapM_cons, List.mapM_cons, h x List.mem_cons_self,
      ih fun other hother => h other (List.mem_cons_of_mem _ hother)]

/-- Steps over a list succeed just if each step does, each with its value. -/
theorem mapM_eq_ok_iff {f : α → Except ε β} {xs : List α} {ys : List β} :
    xs.mapM f = .ok ys ↔ List.Forall₂ (fun x y => f x = .ok y) xs ys := by
  constructor
  · intro h
    induction xs generalizing ys with
    | nil =>
      cases h
      exact .nil
    | cons x xs ih =>
      rw [List.mapM_cons] at h
      obtain ⟨y, hy, h⟩ := bind_eq_ok_iff.mp h
      obtain ⟨rest, hrest, h⟩ := bind_eq_ok_iff.mp h
      cases h
      exact .cons hy (ih hrest)
  · intro h
    induction h with
    | nil => rfl
    | cons hy _ ih =>
      rw [List.mapM_cons, hy, ih]
      rfl

theorem mapM_append_error {f : α → Except ε β} {before after : List α} {x : α} {ys : List β}
    {error : ε} (hbefore : before.mapM f = .ok ys) (hx : f x = .error error) :
    (before ++ x :: after).mapM f = .error error := by
  rw [List.mapM_append, hbefore, List.mapM_cons, hx]
  rfl

end EntityStore
