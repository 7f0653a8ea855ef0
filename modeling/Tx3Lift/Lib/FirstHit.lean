import Mathlib.Data.List.ProdSigma

/-!
# Loops that return the first hit

`firstHit f xs` is the loop `for x in xs { if let Some(y) = f(x)? { return Ok(Some(y)); } }`
followed by `Ok(None)`. An element contends if `f` neither misses it nor goes on.

* `firstHit_eq_of_agrees`: when all contenders give the same, so does the loop, in any order.
* `firstHit_orders_iff`: conversely, when every order gives the same, all contenders do.
* `firstHit_of_total`: without errors the loop finds something when some element hits.
* `firstHit_product`: two nested loops are one loop over the pairs.
-/

namespace Tx3Lift.Lib

variable {ε α β γ : Type}

/-- The loop with early return; an error of `f` stops it too. -/
def firstHit (f : α → Except ε (Option β)) : List α → Except ε (Option β)
  | [] => return none
  | x :: xs => do
    match ← f x with
    | some y => return some y
    | none => firstHit f xs

/-- All elements of the list that contend give the same. -/
def Agrees (f : α → Except ε (Option β)) (xs : List α) : Prop :=
  ∀ x ∈ xs, ∀ y ∈ xs, f x ≠ .ok none → f y ≠ .ok none → f x = f y

section FirstHit

variable {f : α → Except ε (Option β)} {x : α} {xs ys : List α}

theorem firstHit_cons_of_miss (h : f x = .ok none) : firstHit f (x :: xs) = firstHit f xs := by
  rw [firstHit, h]
  rfl

theorem firstHit_cons_of_contends (h : f x ≠ .ok none) : firstHit f (x :: xs) = f x := by
  rw [firstHit]
  rcases hx : f x with e | (_ | y)
  · rfl
  · exact absurd hx h
  · rfl

theorem firstHit_of_misses (h : ∀ x ∈ xs, f x = .ok none) : firstHit f xs = .ok none := by
  induction xs with
  | nil => rfl
  | cons x xs ih =>
    rw [firstHit_cons_of_miss (h x (by simp))]
    exact ih fun y hy => h y (by simp [hy])

/-- What the loop returns is the outcome of one of the elements, or nothing. -/
theorem firstHit_cases (f : α → Except ε (Option β)) (xs : List α) :
    (firstHit f xs = .ok none ∧ ∀ x ∈ xs, f x = .ok none) ∨
      ∃ x ∈ xs, f x ≠ .ok none ∧ firstHit f xs = f x := by
  induction xs with
  | nil => exact Or.inl ⟨rfl, by simp⟩
  | cons x xs ih =>
    by_cases hx : f x = .ok none
    · rw [firstHit_cons_of_miss hx]
      rcases ih with ⟨hnone, hmiss⟩ | ⟨y, hy, hcontends, heq⟩
      · exact Or.inl ⟨hnone, by simpa [hx] using hmiss⟩
      · exact Or.inr ⟨y, by simp [hy], hcontends, heq⟩
    · exact Or.inr ⟨x, by simp, hx, firstHit_cons_of_contends hx⟩

theorem firstHit_eq_of_agrees (h : Agrees f xs) (hmem : ∀ x, x ∈ ys ↔ x ∈ xs) :
    firstHit f ys = firstHit f xs := by
  rcases firstHit_cases f xs with ⟨hnone, hmiss⟩ | ⟨x, hx, hcontends, heq⟩
  · rw [hnone]
    exact firstHit_of_misses fun y hy => hmiss y ((hmem y).mp hy)
  · rcases firstHit_cases f ys with ⟨-, hmiss⟩ | ⟨y, hy, hcontends', heq'⟩
    · exact absurd (hmiss x ((hmem x).mpr hx)) hcontends
    · rw [heq, heq']
      exact h y ((hmem y).mp hy) x hx hcontends' hcontends

/-- Lists of the same elements, each of which comes first in one of the lists: the loop
    returns the same over all of them exactly when its contenders agree. -/
theorem firstHit_orders_iff {ι : Type} (order : ι → List α)
    (hmem : ∀ i x, x ∈ order i ↔ x ∈ xs) (hfirst : ∀ x ∈ xs, ∃ i rest, order i = x :: rest) :
    (∀ i j, firstHit f (order i) = firstHit f (order j)) ↔ Agrees f xs := by
  constructor
  · intro hsame x hx y hy hxc hyc
    obtain ⟨i, rest, hi⟩ := hfirst x hx
    obtain ⟨j, rest', hj⟩ := hfirst y hy
    have hij := hsame i j
    rwa [hi, hj, firstHit_cons_of_contends hxc, firstHit_cons_of_contends hyc] at hij
  · intro hagrees i j
    rw [firstHit_eq_of_agrees hagrees (hmem i), firstHit_eq_of_agrees hagrees (hmem j)]

/-- Without errors the loop finds something when some element hits, and what it finds is
    the hit of one of them. -/
theorem firstHit_of_total (h : ∀ x ∈ xs, ∃ r, f x = .ok r) :
    ((∃ y, firstHit f xs = .ok (some y)) ↔ ∃ x ∈ xs, ∃ y, f x = .ok (some y)) ∧
      ∀ y, firstHit f xs = .ok (some y) → ∃ x ∈ xs, f x = .ok (some y) := by
  have hfound : ∀ y, firstHit f xs = .ok (some y) → ∃ x ∈ xs, f x = .ok (some y) := by
    intro y hy
    rcases firstHit_cases f xs with ⟨hnone, -⟩ | ⟨x, hx, -, heq⟩
    · cases hnone.symm.trans hy
    · exact ⟨x, hx, heq.symm.trans hy⟩
  refine ⟨⟨fun ⟨y, hy⟩ => ?_, fun ⟨x, hx, y, hy⟩ => ?_⟩, hfound⟩
  · obtain ⟨x, hx, hy⟩ := hfound y hy
    exact ⟨x, hx, y, hy⟩
  · rcases firstHit_cases f xs with ⟨-, hmiss⟩ | ⟨x', hx', hcontends, heq⟩
    · cases (hmiss x hx).symm.trans hy
    · obtain ⟨_ | y', hr⟩ := h x' hx'
      · exact absurd hr hcontends
      · exact ⟨y', heq.trans hr⟩

end FirstHit

theorem firstHit_append (f : α → Except ε (Option β)) (xs ys : List α) :
    firstHit f (xs ++ ys) = firstHit f xs >>= fun r =>
      match r with
      | some y => return some y
      | none => firstHit f ys := by
  induction xs with
  | nil => rfl
  | cons x xs ih =>
    rw [List.cons_append, firstHit, firstHit]
    rcases f x with e | (_ | y)
    · rfl
    · exact ih
    · rfl

theorem firstHit_map (f : β → Except ε (Option γ)) (g : α → β) (xs : List α) :
    firstHit f (xs.map g) = firstHit (fun x => f (g x)) xs := by
  induction xs with
  | nil => rfl
  | cons x xs ih => rw [List.map_cons, firstHit, firstHit, ih]

/-- Two nested loops are one loop over the pairs. -/
theorem firstHit_product (f : α → β → Except ε (Option γ)) (xs : List α) (ys : List β) :
    firstHit (fun x => firstHit (f x) ys) xs = firstHit (fun p => f p.1 p.2) (xs ×ˢ ys) := by
  induction xs with
  | nil => rfl
  | cons x xs ih =>
    rw [List.product_cons, firstHit_append, firstHit_map, firstHit, ih]

end Tx3Lift.Lib
