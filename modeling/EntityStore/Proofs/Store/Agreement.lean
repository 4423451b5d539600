/-
  EntityStore/Proofs/Store/Agreement.lean
  =======================================
  **Outcomes that agree.**  Two computations agree if both succeed, with related values,
  or both fail, with one kind of failure.  Steps one after the other agree if each of
  them does, and so do steps over a list (`agree_mapM`); where all failures are of one
  kind, the order of the list does not matter (`agree_mapM_perm`).
-/
import EntityStore.Error
import Mathlib.Data.List.Perm.Basic

namespace EntityStore

/-! ### Agreement -/

/-- Both outcomes are successes with related values, or failures of one kind. -/
inductive Agree {α β : Type} (R : α → β → Prop) : Except StoreError α → Except StoreError β → Prop
  | ok {a : α} {b : β} (h : R a b) : Agree R (.ok a) (.ok b)
  | error {e f : StoreError} (h : e.kind = f.kind) : Agree R (.error e) (.error f)

namespace Agree

variable {α β γ δ : Type} {R : α → β → Prop} {Q : γ → δ → Prop}

theorem of_eq {a b : Except StoreError α} (h : a = b) : Agree Eq a b := by
  subst h
  cases a with
  | ok value => exact .ok rfl
  | error error => exact .error rfl

theorem bind {a : Except StoreError α} {b : Except StoreError β}
    {f : α → Except StoreError γ} {g : β → Except StoreError δ} (h : Agree R a b)
    (hnext : ∀ x y, R x y → Agree Q (f x) (g y)) : Agree Q (a >>= f) (b >>= g) := by
  cases h with
  | ok hvalues => exact hnext _ _ hvalues
  | error hkind => exact .error hkind

theorem map {a : Except StoreError α} {b : Except StoreError β} {f : α → γ} {g : β → δ}
    (h : Agree R a b) (hnext : ∀ x y, R x y → Q (f x) (g y)) : Agree Q (a.map f) (b.map g) := by
  cases h with
  | ok hvalues => exact .ok (hnext _ _ hvalues)
  | error hkind => exact .error hkind

theorem trans {S : β → γ → Prop} {T : α → γ → Prop} {a : Except StoreError α}
    {b : Except StoreError β} {c : Except StoreError γ} (hab : Agree R a b) (hbc : Agree S b c)
    (hT : ∀ x y z, R x y → S y z → T x z) : Agree T a c := by
  cases hab with
  | ok hxy =>
    cases hbc with
    | ok hyz => exact .ok (hT _ _ _ hxy hyz)
  | error hef =>
    cases hbc with
    | error hfg => exact .error (hef.trans hfg)

theorem and_left {P : α → Prop} {a : Except StoreError α}
    {b : Except StoreError β} (h : Agree R a b) (hP : ∀ x, a = .ok x → P x) :
    Agree (fun x y => R x y ∧ P x) a b := by
  cases h with
  | ok hvalues => exact .ok ⟨hvalues, hP _ rfl⟩
  | error hkind => exact .error hkind

end Agree

section Lists

variable {ρ τ α : Type}

/-- Steps that agree item by item agree over a list. -/
theorem agree_mapM {f : ρ → Except StoreError α} {g : τ → Except StoreError α} {t : ρ → τ}
    {xs : List ρ} (h : ∀ x ∈ xs, Agree Eq (f x) (g (t x))) :
    Agree Eq (xs.mapM f) ((xs.map t).mapM g) := by
  induction xs with
  | nil => exact .ok rfl
  | cons x xs ih =>
    obtain ⟨hx, hxs⟩ := List.forall_mem_cons.mp h
    rw [List.map_cons, List.mapM_cons, List.mapM_cons]
    refine hx.bind fun y _ hy => (ih hxs).bind fun ys _ hys => ?_
    subst hy hys
    exact .ok rfl

/-- A step whose failures are all of one kind may run over a list in any order. -/
theorem agree_mapM_perm {f : ρ → Except StoreError α} {kind : ErrorKind}
    (hkind : ∀ x error, f x = .error error → error.kind = kind) {xs ys : List ρ}
    (h : xs.Perm ys) : Agree List.Perm (xs.mapM f) (ys.mapM f) := by
  -- two neighbours that are exchanged may both fail, but then with failures of one kind
  induction h with
  | nil => exact .ok (List.Perm.refl _)
  | cons x _ ih =>
    rw [List.mapM_cons, List.mapM_cons]
    refine (Agree.of_eq rfl).bind fun y _ hy => ih.bind fun as bs hab => ?_
    subst hy
    exact .ok (hab.cons y)
  | swap x y rest =>
    simp only [List.mapM_cons]
    cases hx : f x with
    | error e =>
      cases hy : f y with
      | error e' => exact .error ((hkind y e' hy).trans (hkind x e hx).symm)
      | ok b => exact .error rfl
    | ok a =>
      cases hy : f y with
      | error e' => exact .error rfl
      | ok b =>
        cases rest.mapM f with
        | error e => exact .error rfl
        | ok values => exact .ok (List.Perm.swap a b values)
  | trans _ _ ih ih' => exact ih.trans ih' fun _ _ _ hxy hyz => hxy.trans hyz

end Lists

end EntityStore
