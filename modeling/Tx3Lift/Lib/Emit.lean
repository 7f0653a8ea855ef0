import Mathlib

/-!
# Loops that append

A loop over a list that appends one element to its output in each round, in a state that may
hold more than the output, and that may stop with an error. The loops over a map of slots are
nested; `positions` lists the pairs of entry and slot in the order in which they meet them.

* `foldlM_eq_ok_iff`: a loop succeeds exactly when its body can on every element.
* `foldlM_emits`, `foldl_emits`, `filterMap_emits`: a loop that appends an element related to
  each of its inputs.
* `foldlM_zipIdx`, `foldl_zipIdx`, `flatMap_zipIdx`: nested loops over a map as one loop over
  its positions.
* `mem_positions_range`: positions of a map that has one entry for each item and slots in
  range.
-/

namespace Tx3Lift.Lib

variable {α β σ ε : Type}

/-! ## One loop -/

/-- A loop whose body succeeds or fails by the element alone succeeds exactly when it does on
    every element. -/
theorem foldlM_eq_ok_iff {f : σ → α → Except ε σ} {Ok : α → Prop}
    (hf : ∀ s a, (∃ s', f s a = .ok s') ↔ Ok a) :
    ∀ (xs : List α) (s : σ), (∃ s', xs.foldlM f s = .ok s') ↔ ∀ a ∈ xs, Ok a := by
  intro xs
  induction xs with
  | nil => intro s; simp [pure, Except.pure]
  | cons a xs ih =>
    intro s
    rw [List.foldlM_cons, List.forall_mem_cons, ← hf s a]
    cases h : f s a with
    | error e => simp [bind, Except.bind]
    | ok t => simp [bind, Except.bind, ih t]

/-- A loop whose body appends one element to the output, related to the element it reads. -/
theorem foldlM_emits {f : σ → α → Except ε σ} {out : σ → List β} {R : α → β → Prop} :
    ∀ {xs : List α} {s s' : σ},
      (∀ a ∈ xs, ∀ t t', f t a = .ok t' → ∃ b, out t' = out t ++ [b] ∧ R a b) →
      xs.foldlM f s = .ok s' → ∃ bs, out s' = out s ++ bs ∧ List.Forall₂ R xs bs := by
  intro xs
  induction xs with
  | nil =>
    intro s s' _ h
    cases h
    exact ⟨[], by simp, List.Forall₂.nil⟩
  | cons a xs ih =>
    intro s s' hf h
    rw [List.foldlM_cons] at h
    cases ha : f s a with
    | error e =>
      rw [ha] at h
      cases h
    | ok t =>
      rw [ha] at h
      obtain ⟨b, hb, hR⟩ := hf a (by simp) s t ha
      obtain ⟨bs, hbs, hall⟩ := ih (fun x hx => hf x (by simp [hx])) h
      exact ⟨b :: bs, by rw [hbs, hb, List.append_assoc, List.singleton_append], .cons hR hall⟩

theorem foldl_emits (f : σ → α → σ) (out : σ → List β) {R : α → β → Prop} {xs : List α}
    (hf : ∀ a ∈ xs, ∀ t, ∃ b, out (f t a) = out t ++ [b] ∧ R a b) (s : σ) :
    ∃ bs, out (xs.foldl f s) = out s ++ bs ∧ List.Forall₂ R xs bs := by
  induction xs generalizing s with
  | nil => exact ⟨[], by simp, List.Forall₂.nil⟩
  | cons a xs ih =>
    obtain ⟨b, hb, hR⟩ := hf a (by simp) s
    obtain ⟨bs, hbs, hall⟩ := ih (fun x hx => hf x (by simp [hx])) (f s a)
    exact ⟨b :: bs, by rw [List.foldl_cons, hbs, hb, List.append_assoc, List.singleton_append],
      .cons hR hall⟩

theorem filterMap_emits {f : α → Option β} {R : α → β → Prop} {xs : List α}
    (hf : ∀ a ∈ xs, ∃ b, f a = some b ∧ R a b) : List.Forall₂ R xs (xs.filterMap f) := by
  induction xs with
  | nil => exact List.Forall₂.nil
  | cons a xs ih =>
    obtain ⟨b, hb, hR⟩ := hf a (by simp)
    rw [List.filterMap_cons_some hb]
    exact .cons hR (ih fun x hx => hf x (by simp [hx]))

/-! ## Nested loops over a map -/

/-- The slots of a map, each with the position of its entry. -/
def positions (map : List (List ℕ)) : List (ℕ × ℕ) :=
  map.zipIdx.flatMap fun entry => entry.1.map fun s => (entry.2, s)

theorem positions_slots (map : List (List ℕ)) : (positions map).map Prod.snd = map.flatten := by
  have hfrom : ∀ (xs : List (List ℕ)) (k : ℕ),
      ((xs.zipIdx k).flatMap fun entry => entry.1.map fun s => (entry.2, s)).map Prod.snd =
        xs.flatten := by
    intro xs
    induction xs with
    | nil => intro k; rfl
    | cons slots xs ih => intro k; simp [List.zipIdx_cons, ih, Function.comp_def]
  exact hfrom map 0

/-- A pair of `positions` is a slot of the entry at its first component. -/
theorem mem_positions {map : List (List ℕ)} {p : ℕ × ℕ} :
    p ∈ positions map ↔ ∃ slots, map[p.1]? = some slots ∧ p.2 ∈ slots := by
  rw [positions, List.mem_flatMap]
  constructor
  · rintro ⟨⟨slots, k⟩, hentry, hp⟩
    obtain ⟨s, hs, rfl⟩ := List.mem_map.mp hp
    exact ⟨slots, List.mem_zipIdx_iff_getElem?.mp hentry, hs⟩
  · rintro ⟨slots, hk, hs⟩
    exact ⟨(slots, p.1), List.mem_zipIdx_iff_getElem?.mpr hk, List.mem_map.mpr ⟨p.2, hs, rfl⟩⟩

theorem mem_positions_range {γ δ : Type} {map : List (List ℕ)} {items : List γ} {xs : List δ}
    (hlen : map.length = items.length) (hrange : ∀ s ∈ map.flatten, s < xs.length) {p : ℕ × ℕ}
    (hp : p ∈ positions map) :
    (∃ item, items[p.1]? = some item) ∧ ∃ x, xs[p.2]? = some x := by
  obtain ⟨slots, hk, hs⟩ := mem_positions.mp hp
  have hk' : p.1 < items.length := hlen ▸ (List.getElem?_eq_some_iff.mp hk).1
  have hs' : p.2 < xs.length :=
    hrange p.2 (List.mem_flatten.mpr ⟨slots, List.mem_of_getElem? hk, hs⟩)
  exact ⟨⟨_, List.getElem?_eq_getElem hk'⟩, ⟨_, List.getElem?_eq_getElem hs'⟩⟩

theorem foldlM_zipIdx (g : ℕ → σ → ℕ → Except ε σ) (map : List (List ℕ)) (s : σ) :
    map.zipIdx.foldlM (fun s (slots, k) => slots.foldlM (g k) s) s =
      (positions map).foldlM (fun s p => g p.1 s p.2) s := by
  rw [positions]
  generalize map.zipIdx = entries
  induction entries generalizing s with
  | nil => rfl
  | cons entry entries ih =>
    rw [List.foldlM_cons, List.flatMap_cons, List.foldlM_append, List.foldlM_map]
    exact bind_congr fun t => ih t

theorem foldl_zipIdx (g : ℕ → σ → ℕ → σ) (map : List (List ℕ)) (s : σ) :
    map.zipIdx.foldl (fun s (slots, k) => slots.foldl (g k) s) s =
      (positions map).foldl (fun s p => g p.1 s p.2) s := by
  rw [positions]
  generalize map.zipIdx = entries
  induction entries generalizing s with
  | nil => rfl
  | cons entry entries ih =>
    rw [List.foldl_cons, List.flatMap_cons, List.foldl_append, List.foldl_map]
    exact ih _

theorem flatMap_zipIdx (g : ℕ → ℕ → Option β) (map : List (List ℕ)) :
    (map.zipIdx.flatMap fun (slots, k) => slots.filterMap (g k)) =
      (positions map).filterMap fun p => g p.1 p.2 := by
  rw [positions, List.filterMap_flatMap]
  simp only [List.filterMap_map]
  rfl

end Tx3Lift.Lib
