import Tx3Lift.Lib.Lists
import Tx3Lift.Lib.Slots

/-!
# What a scan can claim

The slots a scan for a test can claim are the free ones whose element passes, in order. A scan
takes all of them, or the first one; every result about greedy claims can be read off this list.

* `claim_eq`: the slots that one scan claims; `claim_spec`, `claim_eq_nil_iff`: what is known of
  them, and when there are none.
* `claim_once_of_freeFit`, `claim_once_le`: the slot of a scan that stops at the first hit.
* `sum_demand_le_countP`: a loop of claims takes no more slots than there are elements that pass.
-/

namespace Tx3Lift.Lib

variable {α β : Type}

/-! ## The list of free slots -/

/-- The slot `s` is free and its element passes `p`. -/
def FreeFit (xs : List α) (consumed : List Bool) (p : α → Bool) (s : ℕ) : Prop :=
  consumed[s]? = some false ∧ ∃ x, xs[s]? = some x ∧ p x = true

/-- The slots of `xs`, numbered from `i`, that are free and whose element passes `p`. -/
def freeSlotsFrom (i : ℕ) (xs : List α) (consumed : List Bool) (p : α → Bool) : List ℕ :=
  ((xs.zipIdx i).filter fun e => !consumed.getD e.2 false && p e.1).map Prod.snd

/-- The free slots whose element passes `p`, in order. -/
def freeSlots (xs : List α) (consumed : List Bool) (p : α → Bool) : List ℕ :=
  freeSlotsFrom 0 xs consumed p

theorem freeSlotsFrom_cons (i : ℕ) (x : α) (xs : List α) (consumed : List Bool) (p : α → Bool) :
    freeSlotsFrom i (x :: xs) consumed p =
      if !consumed.getD i false && p x then i :: freeSlotsFrom (i + 1) xs consumed p
      else freeSlotsFrom (i + 1) xs consumed p := by
  unfold freeSlotsFrom
  rw [List.zipIdx_cons, List.filter_cons]
  split_ifs <;> rfl

theorem getD_set_above (consumed : List Bool) {i j : ℕ} (h : i + 1 ≤ j) :
    (consumed.set i true).getD j false = consumed.getD j false := by
  rw [List.getD_eq_getElem?_getD, List.getD_eq_getElem?_getD, List.getElem?_set_ne (by omega)]

/-- A flag below the scan does not matter to it. -/
theorem freeSlotsFrom_set (i : ℕ) (xs : List α) (consumed : List Bool) (p : α → Bool) :
    freeSlotsFrom (i + 1) xs (consumed.set i true) p = freeSlotsFrom (i + 1) xs consumed p := by
  unfold freeSlotsFrom
  refine congrArg _ (List.filter_congr fun e he => ?_)
  have hle : i + 1 ≤ e.2 := List.le_snd_of_mem_zipIdx he
  rw [getD_set_above consumed hle]

theorem claim_eq_from (p : α → Bool) (once : Bool) (xs : List α) :
    ∀ (i : ℕ) (consumed : List Bool), (claim p once i xs consumed).1 =
      if once then (freeSlotsFrom i xs consumed p).take 1 else freeSlotsFrom i xs consumed p := by
  induction xs with
  | nil => intro i consumed; cases once <;> rfl
  | cons x xs ih =>
    intro i consumed
    rw [claim, freeSlotsFrom_cons]
    cases hused : consumed.getD i false with
    | true => simpa using ih (i + 1) consumed
    | false =>
      cases hx : p x with
      | false => simpa using ih (i + 1) consumed
      | true =>
        cases once with
        | true => simp
        | false =>
          have hrest := ih (i + 1) (consumed.set i true)
          rw [freeSlotsFrom_set] at hrest
          simpa using hrest

/-- **What a scan claims**: all the free slots that pass, or the first of them. -/
theorem claim_eq (p : α → Bool) (once : Bool) (xs : List α) (consumed : List Bool) :
    (claim p once 0 xs consumed).1 =
      if once then (freeSlots xs consumed p).take 1 else freeSlots xs consumed p :=
  claim_eq_from p once xs 0 consumed

theorem claim_subset_freeSlotsFrom (p : α → Bool) (once : Bool) (i : ℕ) (xs : List α)
    (consumed : List Bool) :
    (claim p once i xs consumed).1 ⊆ freeSlotsFrom i xs consumed p := by
  rw [claim_eq_from]
  split_ifs
  · exact List.take_subset 1 _
  · exact List.Subset.refl _

/-- A scan claims no slot below it. -/
theorem le_of_mem_claim {p : α → Bool} {once : Bool} {i : ℕ} {xs : List α} {consumed : List Bool}
    {s : ℕ} (hs : s ∈ (claim p once i xs consumed).1) : i ≤ s := by
  obtain ⟨e, he, rfl⟩ := List.mem_map.mp (claim_subset_freeSlotsFrom p once i xs consumed hs)
  exact List.le_snd_of_mem_zipIdx (List.mem_of_mem_filter he)

section FreeSlots

variable {xs : List α} {consumed consumed' : List Bool} {p : α → Bool} {m : List ℕ}

theorem mem_freeSlots (hlen : consumed.length = xs.length) {s : ℕ} :
    s ∈ freeSlots xs consumed p ↔ FreeFit xs consumed p s := by
  unfold freeSlots freeSlotsFrom FreeFit
  simp only [List.mem_map, List.mem_filter, Prod.exists, List.mem_zipIdx_iff_getElem?,
    exists_eq_right, Bool.and_eq_true, Bool.not_eq_true']
  constructor
  · rintro ⟨x, hx, hfree, hp⟩
    have hs : s < consumed.length := by
      rw [hlen]
      exact (List.getElem?_eq_some_iff.mp hx).1
    rw [List.getD_eq_getElem _ _ hs] at hfree
    exact ⟨by rw [List.getElem?_eq_getElem hs, hfree], x, hx, hp⟩
  · rintro ⟨hfree, x, hx, hp⟩
    exact ⟨x, hx, by rw [List.getD_eq_getElem?_getD, hfree]; rfl, hp⟩

/-- Every slot a loop claims was free and passes the test; with `once` it claims at
    most one. -/
theorem claim_spec (p : α → Bool) (once : Bool) (hlen : consumed.length = xs.length) :
    Claims consumed (claim p once 0 xs consumed).1 (claim p once 0 xs consumed).2 ∧
    (∀ s ∈ (claim p once 0 xs consumed).1, ∃ x, xs[s]? = some x ∧ p x = true) ∧
    (once = true → (claim p once 0 xs consumed).1.length ≤ 1) := by
  refine ⟨claim_claims_from p once xs 0 consumed (by omega), fun s hs => ?_, fun honce => ?_⟩
  · exact ((mem_freeSlots hlen).mp (claim_subset_freeSlotsFrom p once 0 xs consumed hs)).2
  · rw [claim_eq, if_pos honce]
    exact List.length_take_le 1 _

/-- A scan claims nothing exactly when no free slot passes. -/
theorem claim_eq_nil_iff (p : α → Bool) (once : Bool) (hlen : consumed.length = xs.length) :
    (claim p once 0 xs consumed).1 = [] ↔ ∀ s, ¬FreeFit xs consumed p s := by
  have hslots : freeSlots xs consumed p = [] ↔ ∀ s, ¬FreeFit xs consumed p s := by
    simp only [List.eq_nil_iff_forall_not_mem, mem_freeSlots hlen]
  rw [claim_eq, ← hslots]
  cases once with
  | true => simp
  | false => rfl

/-- A scan that stops at the first hit claims one slot as soon as there is one. -/
theorem claim_once_of_freeFit (hlen : consumed.length = xs.length) {s : ℕ}
    (h : FreeFit xs consumed p s) :
    ∃ t consumed', claim p true 0 xs consumed = ([t], consumed') ∧ FreeFit xs consumed p t ∧
      Claims consumed [t] consumed' := by
  obtain ⟨hclaims, hslots, honce⟩ := claim_spec p true hlen
  have hne : (claim p true 0 xs consumed).1 ≠ [] := fun hnil =>
    (claim_eq_nil_iff p true hlen).mp hnil s h
  obtain ⟨t, ht⟩ := List.length_eq_one_iff.mp
    (le_antisymm (honce rfl) (List.length_pos_iff.mpr hne))
  rw [ht] at hclaims hslots
  exact ⟨t, (claim p true 0 xs consumed).2, Prod.ext ht rfl,
    ⟨hclaims.free t (by simp), hslots t (by simp)⟩, hclaims⟩

/-- A scan that stops at the first hit takes the first free slot that passes. -/
theorem claim_once_le (hlen : consumed.length = xs.length) {s t : ℕ}
    (h : FreeFit xs consumed p s) (ht : t ∈ (claim p true 0 xs consumed).1) : t ≤ s := by
  have hs := (mem_freeSlots hlen).mpr h
  have hsorted : (freeSlots xs consumed p).Pairwise (· < ·) := by
    have hsub : (freeSlots xs consumed p).Sublist ((xs.zipIdx 0).map Prod.snd) :=
      List.filter_sublist.map _
    rw [List.zipIdx_map_snd] at hsub
    exact List.Pairwise.sublist hsub List.pairwise_lt_range'
  rw [claim_eq, if_pos rfl] at ht
  cases hslots : freeSlots xs consumed p with
  | nil => simp [hslots] at ht
  | cons head rest =>
    rw [hslots] at hs ht hsorted
    have hhead : t = head := by simpa using ht
    rcases List.mem_cons.mp hs with rfl | hs
    · exact hhead.le
    · exact hhead ▸ ((List.pairwise_cons.mp hsorted).1 s hs).le

end FreeSlots

/-! ## Counting slots -/

/-- Distinct slots whose elements pass are at most as many as the elements that pass. -/
theorem length_le_countP {p : α → Bool} {xs : List α} {m : List ℕ} (hnodup : m.Nodup)
    (h : ∀ s ∈ m, ∃ x, xs[s]? = some x ∧ p x = true) : m.length ≤ xs.countP p := by
  have hsub : m ⊆ ((xs.zipIdx 0).filter fun e => p e.1).map Prod.snd := by
    intro s hs
    obtain ⟨x, hx, hp⟩ := h s hs
    refine List.mem_map.mpr ⟨(x, s), List.mem_filter.mpr ⟨?_, hp⟩, rfl⟩
    exact List.mem_zipIdx_iff_getElem?.mpr hx
  have hlen := (List.subperm_of_subset hnodup hsub).length_le
  rw [List.length_map, ← List.countP_eq_length_filter] at hlen
  refine hlen.trans (le_of_eq ?_)
  have hfst : (xs.zipIdx 0).map Prod.fst = xs := List.zipIdx_map_fst 0 xs
  conv_rhs => rw [← hfst, List.countP_map]
  rfl

/-- **What a loop of claims takes.** If every entry takes its demand in slots whose elements
    pass, there are as many elements that pass. -/
theorem sum_demand_le_countP {f : β → List Bool → Option (List ℕ × List Bool)} {xs : List α}
    {p : α → Bool} {demand : β → ℕ}
    (hf : ∀ b u m u', u.length = xs.length → f b u = some (m, u') → Claims u m u' ∧
      demand b ≤ m.length ∧ ∀ s ∈ m, ∃ x, xs[s]? = some x ∧ p x = true)
    {bs : List β} {mm : List (List ℕ)}
    (h : assignAll f bs (List.replicate xs.length false) = some mm) :
    (bs.map demand).sum ≤ xs.countP p := by
  obtain ⟨hall, hnodup, -⟩ := assignAll_spec hf h
  have hsum : (bs.map demand).sum ≤ (mm.map List.length).sum :=
    sum_map_le_of_forall₂ hall fun _ _ hm => hm.1
  rw [← List.length_flatten] at hsum
  refine hsum.trans (length_le_countP hnodup fun s hs => ?_)
  obtain ⟨m, hm, hs⟩ := List.mem_flatten.mp hs
  obtain ⟨b, -, -, hslots⟩ := exists_left_of_forall₂ hall hm
  exact hslots s hs

end Tx3Lift.Lib
