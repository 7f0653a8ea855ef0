import Tx3Lift.Lib.FreeSlots

/-!
# Dealing out a list

What a greedy assignment with flags comes to, without slots and flags: each entry of a template
takes the first of the elements that are left and pass its test.

* `deal_perm`, `forall₂_taken`: what is taken, and what is left; `deal_of_apart`: entries that
  do not compete are served.
* `claim_leftFrom`: a scan takes the first element left that passes.
* `assignAll_eq_deal`: the assignment goes through exactly when the deal does, and its slots
  hold what the deal gives out.
-/

namespace Tx3Lift.Lib

variable {α β : Type}

/-! ## The deal -/

/-- Each entry takes the first element left that passes its test. One that finds none goes
    without if it is optional, and else the deal fails. Returns what is taken and what is
    left. -/
def deal (test : β → α → Bool) (optional : β → Bool) : List β → List α → Option (List α × List α)
  | [], left => some ([], left)
  | b :: bs, left =>
    if left.any (test b) || optional b then
      (deal test optional bs (left.eraseP (test b))).map fun r =>
        ((left.find? (test b)).toList ++ r.1, r.2)
    else none

theorem find?_toList_append_eraseP (p : α → Bool) (xs : List α) :
    ((xs.find? p).toList ++ xs.eraseP p).Perm xs := by
  induction xs with
  | nil => exact List.Perm.refl _
  | cons x xs ih =>
    by_cases hx : p x = true
    · rw [List.find?_cons_of_pos hx, List.eraseP_cons_of_pos hx]
      exact List.Perm.refl _
    · rw [List.find?_cons_of_neg hx, List.eraseP_cons_of_neg hx]
      exact List.perm_middle.trans (ih.cons x)

/-- Nothing is lost and nothing is given out twice. -/
theorem deal_perm {test : β → α → Bool} {optional : β → Bool} {bs : List β} :
    ∀ {xs taken left : List α}, deal test optional bs xs = some (taken, left) →
      (taken ++ left).Perm xs := by
  induction bs with
  | nil =>
    intro xs taken left h
    cases h
    exact List.Perm.refl _
  | cons b bs ih =>
    intro xs taken left h
    rw [deal] at h
    split_ifs at h
    obtain ⟨r, hr, heq⟩ := Option.map_eq_some_iff.mp h
    cases heq
    rw [List.append_assoc]
    exact ((ih hr).append_left _).trans (find?_toList_append_eraseP (test b) xs)

/-- Where no entry is optional each takes one element, that passes its test. -/
theorem forall₂_taken {test : β → α → Bool} {bs : List β} :
    ∀ {xs taken left : List α}, deal test (fun _ => false) bs xs = some (taken, left) →
      List.Forall₂ (fun b x => test b x = true) bs taken := by
  induction bs with
  | nil =>
    intro xs taken left h
    cases h
    exact List.Forall₂.nil
  | cons b bs ih =>
    intro xs taken left h
    rw [deal] at h
    split_ifs at h with hserved
    obtain ⟨r, hr, heq⟩ := Option.map_eq_some_iff.mp h
    cases heq
    rw [Bool.or_false, List.any_eq_true] at hserved
    obtain ⟨x, hx⟩ := Option.isSome_iff_exists.mp (List.find?_isSome.mpr hserved)
    rw [hx]
    exact List.Forall₂.cons (List.find?_some hx) (ih hr)

/-- Entries that do not compete for an element are all served, as long as each finds one. -/
theorem deal_of_apart {test : β → α → Bool} {bs : List β}
    (hapart : bs.Pairwise fun b b' => ∀ x, test b x = true → test b' x = false) :
    ∀ {xs : List α}, (∀ b ∈ bs, ∃ x ∈ xs, test b x = true) →
      ∃ taken left, deal test (fun _ => false) bs xs = some (taken, left) := by
  induction bs with
  | nil =>
    intro xs _
    exact ⟨[], xs, rfl⟩
  | cons b bs ih =>
    intro xs hfound
    obtain ⟨hb, hbs⟩ := List.pairwise_cons.mp hapart
    -- what `b` takes serves no later entry
    have hrest : ∀ b' ∈ bs, ∃ x ∈ xs.eraseP (test b), test b' x = true := by
      intro b' hb'
      obtain ⟨x, hx, hpass⟩ := hfound b' (List.mem_cons_of_mem _ hb')
      refine ⟨x, (List.mem_eraseP_of_neg fun htaken => ?_).mpr hx, hpass⟩
      rw [hb b' hb' x htaken] at hpass
      cases hpass
    obtain ⟨taken, left, hdeal⟩ := ih hbs hrest
    have hserved : xs.any (test b) = true := List.any_eq_true.mpr (hfound b List.mem_cons_self)
    exact ⟨_, left, by rw [deal, hserved, hdeal]; rfl⟩

/-! ## Flags and what is left -/

/-- The elements, numbered from `i`, that are still free. -/
def leftFrom (i : ℕ) (xs : List α) (consumed : List Bool) : List α :=
  ((xs.zipIdx i).filter fun e => !consumed.getD e.2 false).map Prod.fst

theorem leftFrom_cons (i : ℕ) (x : α) (xs : List α) (consumed : List Bool) :
    leftFrom i (x :: xs) consumed =
      if consumed.getD i false then leftFrom (i + 1) xs consumed
      else x :: leftFrom (i + 1) xs consumed := by
  unfold leftFrom
  rw [List.zipIdx_cons, List.filter_cons]
  cases consumed.getD i false <;> rfl

/-- A flag below the scan does not matter to it. -/
theorem leftFrom_set (i : ℕ) (xs : List α) (consumed : List Bool) :
    leftFrom (i + 1) xs (consumed.set i true) = leftFrom (i + 1) xs consumed := by
  unfold leftFrom
  refine congrArg _ (List.filter_congr fun e he => ?_)
  have hle : i + 1 ≤ e.2 := List.le_snd_of_mem_zipIdx he
  rw [getD_set_above consumed hle]

theorem leftFrom_replicate (xs : List α) :
    ∀ (i n : ℕ), leftFrom i xs (List.replicate n false) = xs := by
  induction xs with
  | nil => intro i n; rfl
  | cons x xs ih =>
    intro i n
    have hfree : (List.replicate n false).getD i false = false := by
      rw [List.getD_eq_getElem?_getD, List.getElem?_replicate]
      split_ifs <;> rfl
    rw [leftFrom_cons, hfree, ih]
    rfl

/-- A scan does not touch the flags below it. -/
theorem claim_getD_below (p : α → Bool) (xs : List α) (i : ℕ) (consumed : List Bool)
    (hlen : consumed.length = i + 1 + xs.length) :
    (claim p true (i + 1) xs consumed).2.getD i false = consumed.getD i false := by
  have hclaims := claim_claims_from p true xs (i + 1) consumed hlen
  have hnot : i ∉ (claim p true (i + 1) xs consumed).1 := fun hi => by
    have hle := le_of_mem_claim hi
    omega
  rw [List.getD_eq_getElem?_getD, List.getD_eq_getElem?_getD, hclaims.marked, if_neg hnot]

/-- **A scan takes the first element left that passes**, and leaves the others. -/
theorem claim_leftFrom (p : α → Bool) (xs : List α) :
    ∀ (i : ℕ) (consumed : List Bool), consumed.length = i + xs.length →
      (claim p true i xs consumed).1.isEmpty = !(leftFrom i xs consumed).any p ∧
        (claim p true i xs consumed).1.filterMap (fun s => xs[s - i]?) =
          ((leftFrom i xs consumed).find? p).toList ∧
        leftFrom i xs (claim p true i xs consumed).2 = (leftFrom i xs consumed).eraseP p := by
  induction xs with
  | nil => intro i consumed _; exact ⟨rfl, rfl, rfl⟩
  | cons x xs ih =>
    intro i consumed hlen
    rw [List.length_cons] at hlen
    obtain ⟨hempty, htaken, hleft⟩ := ih (i + 1) consumed (by omega)
    -- the slots of the rest of the scan, read off at the position `i`
    have hrest : (claim p true (i + 1) xs consumed).1.filterMap (fun s => (x :: xs)[s - i]?) =
        (claim p true (i + 1) xs consumed).1.filterMap fun s => xs[s - (i + 1)]? := by
      refine List.filterMap_congr fun s hs => ?_
      have hle := le_of_mem_claim hs
      rw [show s - i = (s - (i + 1)) + 1 by omega, List.getElem?_cons_succ]
    have hbelow := claim_getD_below p xs i consumed (by omega)
    simp only [claim, leftFrom_cons i x xs consumed, ↓reduceIte]
    split_ifs with hused hx
    · exact ⟨hempty, hrest.trans htaken, by rw [leftFrom_cons, hbelow, if_pos hused, hleft]⟩
    · -- `x` is the first element left and passes
      have hmarked : (consumed.set i true).getD i false = true := by
        rw [List.getD_eq_getElem?_getD, List.getElem?_set_self (by omega)]
        rfl
      refine ⟨by simp [hx], by simp [hx], ?_⟩
      rw [leftFrom_cons, if_pos hmarked, leftFrom_set, List.eraseP_cons_of_pos hx]
    · refine ⟨?_, ?_, ?_⟩
      · rw [hempty, List.any_cons, eq_false_of_ne_true hx, Bool.false_or]
      · rw [List.find?_cons_of_neg hx, hrest, htaken]
      · rw [leftFrom_cons, hbelow, if_neg hused, hleft, List.eraseP_cons_of_neg hx]

/-- The elements in the slots of a map. -/
def slotElements (xs : List α) (map : List (List ℕ)) : List α :=
  map.flatten.filterMap fun s => xs[s]?

theorem mem_slotElements {xs : List α} {map : List (List ℕ)} {x : α} :
    x ∈ slotElements xs map ↔ ∃ s ∈ map.flatten, xs[s]? = some x :=
  List.mem_filterMap

section Assign

variable {test : β → α → Bool} {optional : β → Bool} {xs : List α}
  {f : β → List Bool → Option (List ℕ × List Bool)}

/-- From the flags `u`: the assignment goes through exactly when the deal of what is left
    does. -/
theorem assignAll_eq_deal_left
    (hf : ∀ b u, f b u = if (claim (test b) true 0 xs u).1.isEmpty && !optional b then none
      else some (claim (test b) true 0 xs u)) (bs : List β) :
    ∀ u : List Bool, u.length = xs.length → (assignAll f bs u).map (slotElements xs) =
      (deal test optional bs (leftFrom 0 xs u)).map Prod.fst := by
  induction bs with
  | nil => intro u _; rfl
  | cons b bs ih =>
    intro u hlen
    obtain ⟨hempty, htaken, hleft⟩ := claim_leftFrom (test b) xs 0 u (by omega)
    have hlen' := (claim_spec (test b) true hlen).1.length_eq.trans hlen
    have hrest := ih _ hlen'
    rw [hleft] at hrest
    rw [assignAll, hf, hempty, deal]
    cases hserved : (leftFrom 0 xs u).any (test b) || optional b with
    | false =>
      obtain ⟨hany, hopt⟩ := Bool.or_eq_false_iff.mp hserved
      simp [hany, hopt]
    | true =>
      have hgo : (!(leftFrom 0 xs u).any (test b) && !optional b) = false := by
        rw [← Bool.not_or, hserved]
        rfl
      have hcons : ∀ mm, slotElements xs ((claim (test b) true 0 xs u).1 :: mm) =
          ((leftFrom 0 xs u).find? (test b)).toList ++ slotElements xs mm := fun mm => by
        rw [slotElements, List.flatten_cons, List.filterMap_append, ← htaken]
        rfl
      simp only [hgo, Bool.false_eq_true, if_false, if_true, Option.map_map]
      calc (assignAll f bs (claim (test b) true 0 xs u).2).map
            (slotElements xs ∘ ((claim (test b) true 0 xs u).1 :: ·))
          = ((assignAll f bs (claim (test b) true 0 xs u).2).map (slotElements xs)).map
              (((leftFrom 0 xs u).find? (test b)).toList ++ ·) := by
            rw [Option.map_map]
            exact congrArg (Option.map · _) (funext hcons)
        _ = _ := by
            rw [hrest, Option.map_map]
            rfl

/-- **Assigning slots is dealing out.** -/
theorem assignAll_eq_deal
    (hf : ∀ b u, f b u = if (claim (test b) true 0 xs u).1.isEmpty && !optional b then none
      else some (claim (test b) true 0 xs u)) (bs : List β) :
    (assignAll f bs (List.replicate xs.length false)).map (slotElements xs) =
      (deal test optional bs xs).map Prod.fst := by
  have h := assignAll_eq_deal_left hf bs (List.replicate xs.length false) List.length_replicate
  rwa [leftFrom_replicate] at h

end Assign

end Tx3Lift.Lib
