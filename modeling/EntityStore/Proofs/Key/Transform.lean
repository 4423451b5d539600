/-
  EntityStore/Proofs/Key/Transform.lean
  =====================================
  **Key transformers that keep keys apart.**  Both transformers keep the namespace of a
  key; behind it, digests tell keys apart as long as they tell the parts apart.
-/
import Mathlib.Data.Set.Function
import EntityStore.Key.Transform

namespace EntityStore.KeyTransformer

/-- A key transformer that keeps the namespace and, in one namespace, keeps keys of the
    used parts apart. -/
structure Separates (T : KeyTransformer) (used : Set String) : Prop where
  namespace_eq {origin key : Key} : T origin = .ok key → key.namespace? = origin.namespace?
  tail_inj {name : String} {xs ys : List String} {key : Key} :
    (∀ part ∈ xs, part ∈ used) → (∀ part ∈ ys, part ∈ used) →
      T ⟨name :: xs⟩ = .ok key → T ⟨name :: ys⟩ = .ok key → xs = ys

theorem separates_identity (used : Set String) : identity.Separates used where
  namespace_eq := by
    intro origin key h
    cases h
    rfl
  tail_inj := by
    intro name xs ys key _ _ hx hy
    have hsame : Key.mk (name :: xs) = ⟨name :: ys⟩ := Except.ok.inj (hx.trans hy.symm)
    exact (List.cons.inj (Key.mk.inj hsame)).2

theorem map_digestPart_inj {used : Set String} (h : Set.InjOn digestPart used)
    {xs ys : List String} (hxs : ∀ part ∈ xs, part ∈ used) (hys : ∀ part ∈ ys, part ∈ used)
    (hmap : xs.map digestPart = ys.map digestPart) : xs = ys := by
  induction xs generalizing ys with
  | nil => exact (List.map_eq_nil_iff.mp hmap.symm).symm
  | cons x xs ih =>
    obtain ⟨y, ys, rfl, hhead, htail⟩ := List.map_eq_cons_iff.mp hmap.symm
    have hx : x ∈ used := hxs x List.mem_cons_self
    have hy : y ∈ used := hys y List.mem_cons_self
    have hrest : xs = ys := by
      refine ih (fun part hpart => ?_) (fun part hpart => ?_) htail.symm
      · exact hxs part (List.mem_cons_of_mem x hpart)
      · exact hys part (List.mem_cons_of_mem y hpart)
    rw [h hx hy hhead.symm, hrest]

theorem separates_hashed {used : Set String} (h : Set.InjOn digestPart used) :
    hashed.Separates used where
  namespace_eq := by
    intro origin key hkey
    obtain ⟨_ | ⟨name, rest⟩⟩ := origin
    · cases hkey
    · cases hkey
      rfl
  tail_inj := by
    intro name xs ys key hxs hys hx hy
    have hsame : Key.mk (name :: xs.map digestPart) = ⟨name :: ys.map digestPart⟩ :=
      Except.ok.inj (hx.trans hy.symm)
    exact map_digestPart_inj h hxs hys (List.cons.inj (Key.mk.inj hsame)).2

end EntityStore.KeyTransformer
