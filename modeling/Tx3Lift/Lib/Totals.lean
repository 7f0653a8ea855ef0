import Mathlib

/-!
# Totals by key

The sum of the amounts that a list holds under each key.

* `exists_of_total_ne_zero`: a key with a total occurs.
* `total_eq_of_nodup`: where every key occurs once, its total is the amount there.
* `total_pos_iff`: among positive amounts, a key has a positive total exactly when it occurs.
-/

namespace Tx3Lift.Lib

variable {α κ : Type} [DecidableEq κ] (key : α → κ) (amount : α → ℤ)

/-- The sum of the amounts under the key `k`. -/
def total (xs : List α) (k : κ) : ℤ := (xs.map fun x => if key x = k then amount x else 0).sum

@[simp] theorem total_nil (k : κ) : total key amount [] k = 0 := rfl

theorem total_cons (x : α) (xs : List α) (k : κ) :
    total key amount (x :: xs) k =
      (if key x = k then amount x else 0) + total key amount xs k :=
  List.sum_cons

variable {xs : List α} {k : κ}

variable {key amount} in
theorem exists_of_total_ne_zero (h : total key amount xs k ≠ 0) : ∃ x ∈ xs, key x = k := by
  by_contra hnone
  refine h (List.sum_eq_zero fun n hn => ?_)
  obtain ⟨x, hx, rfl⟩ := List.mem_map.mp hn
  exact if_neg fun hk => hnone ⟨x, hx, hk⟩

/-- A key that occurs once has the amount there as its total. -/
theorem total_eq_of_nodup (hnodup : (xs.map key).Nodup) {x : α} (hx : x ∈ xs) :
    total key amount xs (key x) = amount x := by
  induction xs with
  | nil => cases hx
  | cons y xs ih =>
    obtain ⟨hy, hnodup⟩ := List.nodup_cons.mp hnodup
    rw [total_cons]
    rcases List.mem_cons.mp hx with rfl | hx
    · have hrest : total key amount xs (key x) = 0 := by
        by_contra hne
        obtain ⟨z, hz, hkey⟩ := exists_of_total_ne_zero hne
        exact hy (List.mem_map.mpr ⟨z, hz, hkey⟩)
      rw [if_pos rfl, hrest, add_zero]
    · have hne : key y ≠ key x := fun heq => hy (heq ▸ List.mem_map_of_mem hx)
      rw [if_neg hne, zero_add, ih hnodup hx]

variable {key amount} in
/-- Among positive amounts no summand of a total is negative. -/
theorem summand_nonneg (hpos : ∀ x ∈ xs, 0 < amount x) :
    ∀ n ∈ xs.map fun x => if key x = k then amount x else 0, 0 ≤ n := by
  intro n hn
  obtain ⟨x, hx, rfl⟩ := List.mem_map.mp hn
  split_ifs
  · exact (hpos x hx).le
  · exact le_rfl

theorem total_nonneg (hpos : ∀ x ∈ xs, 0 < amount x) (k : κ) : 0 ≤ total key amount xs k :=
  List.sum_nonneg (summand_nonneg hpos)

/-- Among positive amounts a key has a positive total exactly when it occurs. -/
theorem total_pos_iff (hpos : ∀ x ∈ xs, 0 < amount x) :
    0 < total key amount xs k ↔ ∃ x ∈ xs, key x = k := by
  refine ⟨fun h => exists_of_total_ne_zero h.ne', fun ⟨x, hx, hk⟩ => ?_⟩
  have hle : (if key x = k then amount x else 0) ≤ total key amount xs k :=
    List.single_le_sum (summand_nonneg hpos) _ (List.mem_map_of_mem hx)
  rw [if_pos hk] at hle
  exact (hpos x hx).trans_le hle

end Tx3Lift.Lib
