import Mathlib

/-!
# The first entry of an ordered map

Loops that look for the first entry, in the order of keys, whose value passes a test.

* `find?_eq_some_iff_of_pairwise`: the first hit of a sorted list.
* `find?_toList_eq_some_iff`, `find?_toList_eq_none_iff`, `findSome?_toList`: the same loops
  over a map.
* `FirstIn.unique`: at most one key is the first one.
* `getElem?_insert_eq_some_iff`: the entries of a map after an insertion.
-/

namespace Tx3Lift.Lib

open Std

/-- The first hit of a list that is sorted by an asymmetric relation. -/
theorem find?_eq_some_iff_of_pairwise {α : Type} {R : α → α → Prop} {p : α → Bool} {xs : List α}
    {x : α} (hasymm : ∀ a b, R a b → ¬ R b a) (hsorted : xs.Pairwise R) :
    xs.find? p = some x ↔ x ∈ xs ∧ p x = true ∧ ∀ y ∈ xs, R y x → p y = false := by
  induction xs with
  | nil => simp
  | cons a xs ih =>
    obtain ⟨ha, hsorted⟩ := List.pairwise_cons.mp hsorted
    by_cases hp : p a = true
    · rw [List.find?_cons_of_pos hp, Option.some.injEq]
      constructor
      · rintro rfl
        refine ⟨List.mem_cons_self, hp, ?_⟩
        intro y hy hya
        rcases List.mem_cons.mp hy with rfl | hy
        · exact absurd hya (hasymm _ _ hya)
        · exact absurd hya (hasymm _ _ (ha y hy))
      · rintro ⟨hx, -, hbefore⟩
        rcases List.mem_cons.mp hx with rfl | hx
        · rfl
        · rw [hbefore a List.mem_cons_self (ha x hx)] at hp
          cases hp
    · rw [List.find?_cons_of_neg hp, ih hsorted]
      constructor
      · rintro ⟨hx, hpx, hbefore⟩
        refine ⟨List.mem_cons_of_mem _ hx, hpx, ?_⟩
        intro y hy hyx
        rcases List.mem_cons.mp hy with rfl | hy
        · simpa using hp
        · exact hbefore y hy hyx
      · rintro ⟨hx, hpx, hbefore⟩
        rcases List.mem_cons.mp hx with rfl | hx
        · exact absurd hpx hp
        · exact ⟨hx, hpx, fun y hy => hbefore y (List.mem_cons_of_mem _ hy)⟩

section Map

variable {κ ν : Type} [Ord κ] [TransOrd κ] [LawfulEqOrd κ] {m : ExtTreeMap κ ν compare}
  {p : ν → Bool}

/-- `k` is the first key of the map whose value passes the test. -/
def FirstIn (m : ExtTreeMap κ ν compare) (p : ν → Bool) (k : κ) : Prop :=
  (∃ v, m[k]? = some v ∧ p v = true) ∧
    ∀ (k' : κ) (v' : ν), m[k']? = some v' → compare k' k = .lt → p v' = false

theorem find?_toList_eq_some_iff {k : κ} {v : ν} :
    (m.toList.find? fun e => p e.2) = some (k, v) ↔ m[k]? = some v ∧ FirstIn m p k := by
  have hasymm : ∀ a b : κ × ν, compare a.1 b.1 = .lt → ¬ compare b.1 a.1 = .lt := by
    intro a b hab hba
    rw [OrientedCmp.gt_of_lt hab] at hba
    cases hba
  rw [find?_eq_some_iff_of_pairwise hasymm ExtTreeMap.ordered_keys_toList]
  simp only [Prod.forall, ExtTreeMap.mem_toList_iff_getElem?_eq_some]
  constructor
  · rintro ⟨hm, hp, hbefore⟩
    exact ⟨hm, ⟨v, hm, hp⟩, hbefore⟩
  · rintro ⟨hm, ⟨v', hm', hp⟩, hbefore⟩
    cases hm.symm.trans hm'
    exact ⟨hm, hp, hbefore⟩

theorem find?_toList_eq_none_iff :
    (m.toList.find? fun e => p e.2) = none ↔ ∀ k, ¬ FirstIn m p k := by
  constructor
  · rintro h k ⟨⟨v, hm, hp⟩, -⟩
    rw [List.find?_eq_none] at h
    exact h (k, v) (ExtTreeMap.mem_toList_iff_getElem?_eq_some.mpr hm) hp
  · intro h
    by_contra hne
    obtain ⟨⟨k, v⟩, hfound⟩ := Option.ne_none_iff_exists'.mp hne
    exact h k (find?_toList_eq_some_iff.mp hfound).2

/-- The loop that returns the key. -/
theorem findSome?_toList {k : κ} :
    (m.toList.findSome? fun e => if p e.2 then some e.1 else none) = some k ↔ FirstIn m p k := by
  have hmap : ∀ xs : List (κ × ν),
      (xs.findSome? fun e => if p e.2 then some e.1 else none) =
        (xs.find? fun e => p e.2).map Prod.fst := by
    intro xs
    induction xs with
    | nil => rfl
    | cons e xs ih =>
      by_cases he : p e.2 = true
      · simp [he]
      · simp [he, ih]
  rw [hmap, Option.map_eq_some_iff]
  constructor
  · rintro ⟨⟨k', v⟩, hfound, rfl⟩
    exact (find?_toList_eq_some_iff.mp hfound).2
  · intro h
    obtain ⟨v, hm, -⟩ := h.1
    exact ⟨(k, v), find?_toList_eq_some_iff.mpr ⟨hm, h⟩, rfl⟩

theorem FirstIn.unique {k k' : κ} (h : FirstIn m p k) (h' : FirstIn m p k') : k = k' := by
  have hk := findSome?_toList.mpr h
  rw [findSome?_toList.mpr h'] at hk
  exact (Option.some.inj hk).symm

theorem getElem?_insert_eq_some_iff {k k' : κ} {v v' : ν} :
    (m.insert k v)[k']? = some v' ↔ (k = k' ∧ v = v') ∨ (k ≠ k' ∧ m[k']? = some v') := by
  rw [ExtTreeMap.getElem?_insert]
  by_cases hk : k = k'
  · subst hk
    simp [compare_self]
  · have hne : ¬ compare k k' = .eq := fun heq => hk (LawfulEqOrd.eq_of_compare heq)
    simp [hne, hk]

end Map

end Tx3Lift.Lib
