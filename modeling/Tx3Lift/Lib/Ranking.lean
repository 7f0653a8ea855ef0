import Mathlib

/-!
# Keep the best, sort, rank

Three loops that select from a list: keep the best element for each key, sort what is kept,
and number it by score so that equal scores share a number.

* `bestPerKey_spec`: one best element for each key that occurs; `mem_bestPerKey` when no two
  elements of one key are equally good.
* `insertionSort_eq_of_perm`, `insertionSort_filter`: sorting by an order in which the
  elements differ depends on them only.
* `denseRanksBy_eq`: the number of an element is the number of distinct scores that are at
  least its own.
* `rankIn_eq_card_higher`: that number counts the distinct higher scores from 1 on.
* `rankIn_cons`: what one more score does to these numbers; `rankIn_without`: what it does to
  leave out the element of one key.
-/

namespace Tx3Lift.Lib

open Std (ExtTreeMap TransOrd LawfulEqOrd)

variable {α κ : Type}

/-! ## The best for each key -/

section Best

variable (key : α → κ) (better : α → α → Bool)

/-- `better` compares by some rank. -/
structure Preference : Prop where
  irrefl : ∀ x, better x x = false
  mono : ∀ {x y z}, better x z = false → better y z = true → better x y = false

/-- No element of the key of `c` is better than `c`. -/
structure BestOf (xs : List α) (c : α) : Prop where
  mem : c ∈ xs
  best : ∀ d ∈ xs, key d = key c → better d c = false

variable {key better}

/-- An element that is not beaten by the next one stays the best. -/
theorem BestOf.append {xs : List α} {x c : α} (h : BestOf key better xs c)
    (hx : key x = key c → better x c = false) : BestOf key better (xs ++ [x]) c := by
  refine ⟨by simp [h.mem], fun d hd hkey => ?_⟩
  rcases List.mem_append.mp hd with hd | hd
  · exact h.best d hd hkey
  · rw [List.mem_singleton.mp hd] at hkey ⊢
    exact hx hkey

end Best

section BestPerKey

variable [Ord κ] [TransOrd κ] (key : α → κ) (better : α → α → Bool)

/-- One round: an element is kept if its key is new, or if it is better than the one kept so
    far. -/
def keepBestBy (best : ExtTreeMap κ α compare) (x : α) : ExtTreeMap κ α compare :=
  match best[key x]? with
  | none => best.insert (key x) x
  | some existing => if better x existing then best.insert (key x) x else best

/-- What is kept in the end, in the order of the keys. -/
def bestPerKey (xs : List α) : List α :=
  (xs.foldl (keepBestBy key better) ∅).toList.map Prod.snd

variable {key better}

/-- What a round does: `x` comes in, or it does not because a kept element is as good. -/
theorem keepBestBy_cases (best : ExtTreeMap κ α compare) (x : α) :
    (keepBestBy key better best x = best.insert (key x) x ∧
      ∀ existing, best[key x]? = some existing → better x existing = true) ∨
    (keepBestBy key better best x = best ∧
      ∃ existing, best[key x]? = some existing ∧ better x existing = false) := by
  unfold keepBestBy
  cases hold : best[key x]? with
  | none => exact Or.inl ⟨rfl, by simp⟩
  | some existing =>
    cases hbetter : better x existing with
    | true => exact Or.inl ⟨if_pos hbetter, fun _ h => by cases h; exact hbetter⟩
    | false => exact Or.inr ⟨by simp [hbetter], existing, rfl, hbetter⟩

variable (key better) in
/-- The invariant of the loop: what is kept after the elements `xs`. -/
structure Kept (xs : List α) (best : ExtTreeMap κ α compare) : Prop where
  entry : ∀ k c, best[k]? = some c → key c = k ∧ BestOf key better xs c
  keys : ∀ x ∈ xs, ∃ c, best[key x]? = some c

section Kept

variable {xs : List α} {best : ExtTreeMap κ α compare} {x : α}

theorem Kept.stay (h : Kept key better xs best) {existing : α}
    (hexisting : best[key x]? = some existing) (hx : better x existing = false) :
    Kept key better (xs ++ [x]) best := by
  refine ⟨fun k c hc => ?_, fun y hy => ?_⟩
  · obtain ⟨rfl, hbest⟩ := h.entry k c hc
    refine ⟨rfl, hbest.append fun hkey => ?_⟩
    rw [hkey, hc] at hexisting
    cases hexisting
    exact hx
  · rcases List.mem_append.mp hy with hy | hy
    · exact h.keys y hy
    · rw [List.mem_singleton.mp hy]
      exact ⟨existing, hexisting⟩

variable [LawfulEqOrd κ]

theorem Kept.insert (hpref : Preference better) (h : Kept key better xs best)
    (hx : ∀ existing, best[key x]? = some existing → better x existing = true) :
    Kept key better (xs ++ [x]) (best.insert (key x) x) := by
  have hbest : BestOf key better (xs ++ [x]) x := by
    refine ⟨by simp, fun d hd hkey => ?_⟩
    rcases List.mem_append.mp hd with hd | hd
    · obtain ⟨existing, hexisting⟩ := h.keys d hd
      rw [hkey] at hexisting
      obtain ⟨hkey', -, hnone⟩ := h.entry _ _ hexisting
      exact hpref.mono (hnone d hd (hkey.trans hkey'.symm)) (hx existing hexisting)
    · rw [List.mem_singleton.mp hd]
      exact hpref.irrefl x
  refine ⟨fun k c hc => ?_, fun y hy => ?_⟩
  · rw [ExtTreeMap.getElem?_insert] at hc
    split_ifs at hc with hk
    · cases hc
      exact ⟨Std.compare_eq_iff_eq.mp hk, hbest⟩
    · obtain ⟨hkey, hc⟩ := h.entry k c hc
      exact ⟨hkey, hc.append fun heq => absurd (Std.compare_eq_iff_eq.mpr (heq.trans hkey)) hk⟩
  · rw [ExtTreeMap.getElem?_insert]
    split_ifs with hk
    · exact ⟨x, rfl⟩
    · rcases List.mem_append.mp hy with hy | hy
      · exact h.keys y hy
      · rw [List.mem_singleton.mp hy] at hk
        exact absurd (Std.compare_eq_iff_eq.mpr rfl) hk

end Kept

variable [LawfulEqOrd κ]

theorem foldl_keepBestBy (hpref : Preference better) (xs : List α) :
    Kept key better xs (xs.foldl (keepBestBy key better) ∅) := by
  induction xs using List.reverseRecOn with
  | nil => exact ⟨by simp, by simp⟩
  | append_singleton xs x ih =>
    rw [List.foldl_append, List.foldl_cons, List.foldl_nil]
    rcases keepBestBy_cases (xs.foldl (keepBestBy key better) ∅) x with
      ⟨heq, hx⟩ | ⟨heq, existing, hexisting, hx⟩
    · rw [heq]
      exact ih.insert hpref hx
    · rw [heq]
      exact ih.stay hexisting hx

variable (key) in
/-- One element is kept for each key that occurs, and no other of its key is better. -/
theorem bestPerKey_spec (hpref : Preference better) (xs : List α) :
    ((bestPerKey key better xs).map key).Nodup ∧
      (∀ c ∈ bestPerKey key better xs, BestOf key better xs c) ∧
      ∀ x ∈ xs, ∃ c ∈ bestPerKey key better xs, key c = key x := by
  obtain ⟨hkept, hkeys⟩ : Kept key better xs _ := foldl_keepBestBy hpref xs
  have hentry : ∀ e ∈ (xs.foldl (keepBestBy key better) ∅).toList,
      key e.2 = e.1 ∧ BestOf key better xs e.2 := fun e he =>
    hkept e.1 e.2 (ExtTreeMap.mem_toList_iff_getElem?_eq_some.mp he)
  refine ⟨?_, ?_, ?_⟩
  · have hfst : (bestPerKey key better xs).map key =
        (xs.foldl (keepBestBy key better) ∅).toList.map Prod.fst := by
      rw [bestPerKey, List.map_map]
      exact List.map_congr_left fun e he => (hentry e he).1
    rw [hfst, List.Nodup, List.pairwise_map]
    exact (ExtTreeMap.distinct_keys_toList).imp fun hne heq =>
      hne (Std.compare_eq_iff_eq.mpr heq)
  · intro c hc
    obtain ⟨e, he, rfl⟩ := List.mem_map.mp hc
    exact (hentry e he).2
  · intro x hx
    obtain ⟨c, hc⟩ := hkeys x hx
    exact ⟨c, List.mem_map.mpr
      ⟨(key x, c), ExtTreeMap.mem_toList_iff_getElem?_eq_some.mpr hc, rfl⟩, (hkept _ _ hc).1⟩

/-- When no two elements of one key are equally good, the best ones are kept and no others. -/
theorem mem_bestPerKey (hpref : Preference better) {xs : List α}
    (hdistinct : ∀ c ∈ xs, ∀ d ∈ xs, key c = key d → better c d = false → better d c = false →
      c = d) {c : α} : c ∈ bestPerKey key better xs ↔ BestOf key better xs c := by
  obtain ⟨-, hbest, hkeys⟩ := bestPerKey_spec key hpref xs
  refine ⟨hbest c, fun hc => ?_⟩
  obtain ⟨d, hd, hkey⟩ := hkeys c hc.mem
  have hd' := hbest d hd
  have heq : d = c := hdistinct d hd'.mem c hc.mem hkey (hc.best d hd'.mem hkey)
    (hd'.best c hc.mem hkey.symm)
  rwa [heq] at hd

/-- What is kept for one key when another element of that key comes. -/
def keepOne (better : α → α → Bool) (kept : Option α) (x : α) : Option α :=
  match kept with
  | none => some x
  | some existing => if better x existing then some x else some existing

theorem getElem?_foldl_keepBestBy [DecidableEq κ] (k : κ) (xs : List α)
    (best : ExtTreeMap κ α compare) :
    (xs.foldl (keepBestBy key better) best)[k]? =
      (xs.filter fun x => decide (key x = k)).foldl (keepOne better) best[k]? := by
  induction xs generalizing best with
  | nil => rfl
  | cons x xs ih =>
    rw [List.foldl_cons, ih, List.filter_cons]
    by_cases hk : key x = k
    · subst hk
      simp only [decide_true, if_true, List.foldl_cons]
      congr 1
      unfold keepBestBy keepOne
      cases hkept : best[key x]? with
      | none => simp
      | some existing =>
        cases hbetter : better x existing with
        | true => simp [hbetter]
        | false => simp [hbetter, hkept]
    · simp only [hk, decide_false, Bool.false_eq_true, if_false]
      congr 1
      have hne : ¬compare (key x) k = .eq := fun h => hk (Std.compare_eq_iff_eq.mp h)
      unfold keepBestBy
      cases best[key x]? with
      | none => simp [ExtTreeMap.getElem?_insert, hne]
      | some existing =>
        cases hbetter : better x existing with
        | true => simp [hbetter, ExtTreeMap.getElem?_insert, hne]
        | false => simp [hbetter]

theorem mem_bestPerKey_iff (hpref : Preference better) {xs : List α} {c : α} :
    c ∈ bestPerKey key better xs ↔ (xs.foldl (keepBestBy key better) ∅)[key c]? = some c := by
  have hkept : Kept key better xs _ := foldl_keepBestBy hpref xs
  constructor
  · intro hc
    obtain ⟨⟨k, d⟩, he, rfl⟩ := List.mem_map.mp hc
    have hget := ExtTreeMap.mem_toList_iff_getElem?_eq_some.mp he
    rw [(hkept.entry k d hget).1]
    exact hget
  · intro hget
    exact List.mem_map.mpr ⟨(key c, c), ExtTreeMap.mem_toList_iff_getElem?_eq_some.mpr hget, rfl⟩

/-- What is kept for a key depends on the elements of that key only. -/
theorem mem_bestPerKey_congr [DecidableEq κ] (hpref : Preference better) {xs ys : List α} {c : α}
    (h : (xs.filter fun x => decide (key x = key c)) = ys.filter fun x => decide (key x = key c)) :
    c ∈ bestPerKey key better xs ↔ c ∈ bestPerKey key better ys := by
  rw [mem_bestPerKey_iff hpref, mem_bestPerKey_iff hpref, getElem?_foldl_keepBestBy,
    getElem?_foldl_keepBestBy, h]

end BestPerKey

/-! ## Sorting what differs -/

section Sorting

variable {r : α → α → Prop} [DecidableRel r] [Std.Total r] [IsTrans α r] {xs ys : List α}

/-- A sorted list of the same elements is the sorted one. -/
theorem insertionSort_eq_of_perm (hanti : ∀ a ∈ xs, ∀ b ∈ xs, r a b → r b a → a = b)
    (hsorted : ys.Pairwise r) (h : ys.Perm xs) : xs.insertionSort r = ys := by
  have hperm : (xs.insertionSort r).Perm ys := (List.perm_insertionSort r xs).trans h.symm
  refine hperm.eq_of_pairwise (fun a b ha hb => ?_) (List.pairwise_insertionSort r xs) hsorted
  exact hanti a ((List.mem_insertionSort r).mp ha) b (h.subset hb)

theorem insertionSort_congr (hanti : ∀ a ∈ xs, ∀ b ∈ xs, r a b → r b a → a = b)
    (h : ys.Perm xs) : xs.insertionSort r = ys.insertionSort r :=
  insertionSort_eq_of_perm hanti (List.pairwise_insertionSort r ys)
    ((List.perm_insertionSort r ys).trans h)

/-- Leaving elements out before sorting or after it. -/
theorem insertionSort_filter (hanti : ∀ a ∈ xs, ∀ b ∈ xs, r a b → r b a → a = b) (p : α → Bool) :
    (xs.filter p).insertionSort r = (xs.insertionSort r).filter p := by
  refine insertionSort_eq_of_perm (fun a ha b hb => ?_)
    ((List.pairwise_insertionSort r xs).filter p) ((List.perm_insertionSort r xs).filter p)
  exact hanti a (List.mem_of_mem_filter ha) b (List.mem_of_mem_filter hb)

end Sorting

/-! ## Dense ranks -/

/-- The number of distinct scores that are at least `s`. -/
def rankIn (scores : List ℕ) (s : ℕ) : ℕ := (scores.toFinset.filter (s ≤ ·)).card

section Rank

variable {scores : List ℕ} {s t x : ℕ}

theorem rankIn_pos (hs : s ∈ scores) : 0 < rankIn scores s :=
  Finset.card_pos.mpr ⟨s, by simp [hs]⟩

/-- A higher score has a smaller rank. -/
theorem rankIn_lt (hs : s ∈ scores) (h : s < t) : rankIn scores t < rankIn scores s := by
  refine Finset.card_lt_card (Finset.ssubset_iff_of_subset ?_ |>.mpr ⟨s, by simp [hs], ?_⟩)
  · intro u hu
    simp only [Finset.mem_filter, List.mem_toFinset] at hu ⊢
    exact ⟨hu.1, h.le.trans hu.2⟩
  · simp [h]

/-- Rank 1 is that of the highest score. -/
theorem rankIn_eq_one_iff (hs : s ∈ scores) : rankIn scores s = 1 ↔ ∀ t ∈ scores, t ≤ s := by
  constructor
  · intro hone t ht
    by_contra hlt
    have hsmaller := rankIn_lt hs (Nat.lt_of_not_le hlt)
    have hpos := rankIn_pos ht
    omega
  · intro hmax
    have hfilter : scores.toFinset.filter (s ≤ ·) = {s} := by
      ext t
      simp only [Finset.mem_filter, List.mem_toFinset, Finset.mem_singleton]
      exact ⟨fun h => Nat.le_antisymm (hmax t h.1) h.2, by rintro rfl; exact ⟨hs, le_rfl⟩⟩
    rw [rankIn, hfilter, Finset.card_singleton]

/-- A rank counts the distinct higher scores from 1 on. -/
theorem rankIn_eq_card_higher (hs : s ∈ scores) :
    rankIn scores s = 1 + (scores.toFinset.filter (s < ·)).card := by
  have hsplit : scores.toFinset.filter (s ≤ ·) = insert s (scores.toFinset.filter (s < ·)) := by
    ext t
    simp only [Finset.mem_filter, List.mem_toFinset, Finset.mem_insert]
    constructor
    · rintro ⟨ht, hle⟩
      exact (Nat.eq_or_lt_of_le hle).imp Eq.symm fun hlt => ⟨ht, hlt⟩
    · rintro (rfl | ⟨ht, hlt⟩)
      · exact ⟨hs, le_rfl⟩
      · exact ⟨ht, hlt.le⟩
  rw [rankIn, hsplit, Finset.card_insert_of_notMem (by simp), add_comm]

theorem rankIn_eq_zero (h : ∀ t ∈ scores, t < s) : rankIn scores s = 0 := by
  rw [rankIn, Finset.card_eq_zero, Finset.filter_eq_empty_iff]
  intro t ht
  exact Nat.not_le_of_lt (h t (List.mem_toFinset.mp ht))

theorem rankIn_congr {scores' : List ℕ} (h : ∀ t, t ∈ scores' ↔ t ∈ scores) :
    rankIn scores' = rankIn scores := by
  have hset : scores'.toFinset = scores.toFinset := by
    ext t
    rw [List.mem_toFinset, List.mem_toFinset, h]
  funext s
  rw [rankIn, rankIn, hset]

/-- One more score adds one to the ranks up to it, unless it was there before. -/
theorem rankIn_cons : rankIn (x :: scores) s =
    rankIn scores s + if s ≤ x ∧ x ∉ scores then 1 else 0 := by
  unfold rankIn
  rw [List.toFinset_cons, Finset.filter_insert]
  by_cases hle : s ≤ x
  · by_cases hmem : x ∈ scores
    · simp [hle, hmem]
    · simp [hle, hmem]
  · simp [hle]

/-- Under distinct keys, what an element and the elements of the other keys are mapped to is all
    that the list is mapped to. -/
theorem mem_map_without [DecidableEq κ] {key : α → κ} (score : α → ℕ) {xs : List α}
    (hnodup : (xs.map key).Nodup) {l : α} (hl : l ∈ xs) {t : ℕ} :
    t ∈ xs.map score ↔
      t ∈ score l :: (xs.filter fun d => decide (key d ≠ key l)).map score := by
  simp only [List.mem_map, List.mem_cons, List.mem_filter, decide_eq_true_eq]
  constructor
  · rintro ⟨d, hd, rfl⟩
    by_cases hdk : key d = key l
    · exact Or.inl (by rw [List.inj_on_of_nodup_map hnodup hd hl hdk])
    · exact Or.inr ⟨d, ⟨hd, hdk⟩, rfl⟩
  · rintro (rfl | ⟨d, ⟨hd, -⟩, rfl⟩)
    · exact ⟨l, hl, rfl⟩
    · exact ⟨d, hd, rfl⟩

/-- Leaving out the element of one key lowers a rank by one if that element alone had its
    score and that score was higher, and else by nothing. -/
theorem rankIn_without [DecidableEq κ] {key : α → κ} (score : α → ℕ) {xs : List α}
    (hnodup : (xs.map key).Nodup) (k : κ) {c : α} (hc : c ∈ xs) (hne : key c ≠ k) :
    ((∃ l ∈ xs, key l = k ∧ score c < score l ∧ ∀ d ∈ xs, score d = score l → key d = k) →
      rankIn (xs.map score) (score c) =
        rankIn ((xs.filter fun d => decide (key d ≠ k)).map score) (score c) + 1) ∧
    ((¬∃ l ∈ xs, key l = k ∧ score c < score l ∧ ∀ d ∈ xs, score d = score l → key d = k) →
      rankIn (xs.map score) (score c) =
        rankIn ((xs.filter fun d => decide (key d ≠ k)).map score) (score c)) := by
  by_cases hk : ∃ l ∈ xs, key l = k
  · obtain ⟨l, hl, rfl⟩ := hk
    have hmemc : score c ∈ (xs.filter fun d => decide (key d ≠ key l)).map score :=
      List.mem_map.mpr ⟨c, List.mem_filter.mpr ⟨hc, by simpa using hne⟩, rfl⟩
    have hiff : (∃ l' ∈ xs, key l' = key l ∧ score c < score l' ∧
        ∀ d ∈ xs, score d = score l' → key d = key l) ↔
        score c ≤ score l ∧ score l ∉ (xs.filter fun d => decide (key d ≠ key l)).map score := by
      constructor
      · rintro ⟨l', hl', hlk', hlt, hall⟩
        rw [List.inj_on_of_nodup_map hnodup hl' hl hlk'] at hlt hall
        refine ⟨hlt.le, fun hmem => ?_⟩
        obtain ⟨d, hd, hscore⟩ := List.mem_map.mp hmem
        obtain ⟨hd, hdk⟩ := List.mem_filter.mp hd
        exact absurd (hall d hd hscore) (by simpa using hdk)
      · rintro ⟨hle, hnot⟩
        refine ⟨l, hl, rfl, Nat.lt_of_le_of_ne hle fun heq => hnot (heq ▸ hmemc), ?_⟩
        intro d hd hscore
        by_contra hdk
        exact hnot (List.mem_map.mpr ⟨d, List.mem_filter.mpr ⟨hd, by simpa using hdk⟩, hscore⟩)
    rw [rankIn_congr fun t => mem_map_without score hnodup hl, rankIn_cons, hiff]
    exact ⟨fun h => by rw [if_pos h], fun h => by rw [if_neg h, add_zero]⟩
  · have hall : (xs.filter fun d => decide (key d ≠ k)) = xs :=
      List.filter_eq_self.mpr fun d hd => decide_eq_true fun hdk => hk ⟨d, hd, hdk⟩
    rw [hall]
    refine ⟨?_, fun _ => rfl⟩
    rintro ⟨l, hl, hlk, -⟩
    exact absurd ⟨l, hl, hlk⟩ hk

end Rank

section DenseRanks

variable (score : α → ℕ)

/-- The loop: the number goes up when the score changes. -/
def denseRanksBy : ℕ → Option ℕ → List α → List (α × ℕ)
  | _, _, [] => []
  | rank, prev, x :: xs =>
    if prev ≠ some (score x) then
      (x, rank + 1) :: denseRanksBy (rank + 1) (some (score x)) xs
    else (x, rank) :: denseRanksBy rank prev xs

/-- The first element of a sorted list and what comes after it. -/
theorem rankIn_map_cons {x : α} {xs : List α} (hle : ∀ y ∈ xs, score y ≤ score x) :
    rankIn ((x :: xs).map score) (score x) = 1 ∧
      ∀ y ∈ xs, rankIn ((x :: xs).map score) (score y) =
        1 + rankIn ((xs.map score).filter (· ≠ score x)) (score y) := by
  constructor
  · rw [rankIn_eq_one_iff (by simp)]
    simpa using hle
  · intro y hy
    have hsame : ∀ t, t ∈ (x :: xs).map score ↔
        t ∈ score x :: (xs.map score).filter (· ≠ score x) := by
      intro t
      by_cases ht : t = score x <;> simp [ht]
    rw [rankIn_congr hsame, rankIn_cons, if_pos ⟨hle y hy, by simp⟩, add_comm]

/-- After an element of score `p`, when no higher score follows: the numbers go on by the
    scores below `p`. -/
theorem denseRanksBy_some {xs : List α} (hsorted : xs.Pairwise fun a b => score b ≤ score a) :
    ∀ {rank p : ℕ}, (∀ x ∈ xs, score x ≤ p) →
      denseRanksBy score rank (some p) xs =
        xs.map fun x => (x, rank + rankIn ((xs.map score).filter (· ≠ p)) (score x)) := by
  induction xs with
  | nil => intro rank p _; rfl
  | cons x xs ih =>
    intro rank p hp
    obtain ⟨hle, hrest⟩ := List.pairwise_cons.mp hsorted
    rw [denseRanksBy, List.map_cons]
    by_cases heq : p = score x
    · subst heq
      have hzero : rankIn ((xs.map score).filter (· ≠ score x)) (score x) = 0 := by
        refine rankIn_eq_zero fun t ht => ?_
        obtain ⟨hmem, hne⟩ := List.mem_filter.mp ht
        obtain ⟨y, hy, rfl⟩ := List.mem_map.mp hmem
        exact lt_of_le_of_ne (hle y hy) (by simpa using hne)
      have hdrop : ((x :: xs).map score).filter (· ≠ score x) =
          (xs.map score).filter (· ≠ score x) := by simp
      rw [if_neg (by simp), ih hrest hle, hdrop, hzero, add_zero]
    · have hlt : score x < p := lt_of_le_of_ne (hp x (by simp)) (Ne.symm heq)
      have hall : ((x :: xs).map score).filter (· ≠ p) = (x :: xs).map score := by
        refine List.filter_eq_self.mpr fun t ht => ?_
        obtain ⟨y, hy, rfl⟩ := List.mem_map.mp ht
        rcases List.mem_cons.mp hy with rfl | hy
        · simpa using hlt.ne
        · simpa using (lt_of_le_of_lt (hle y hy) hlt).ne
      obtain ⟨hone, htail⟩ := rankIn_map_cons score hle
      rw [if_pos (by simpa using heq), ih hrest hle, hall, hone]
      congr 1
      refine List.map_congr_left fun y hy => ?_
      rw [htail y hy, add_assoc]

/-- The number of an element is its rank among the scores. -/
theorem denseRanksBy_eq {xs : List α} (hsorted : xs.Pairwise fun a b => score b ≤ score a) :
    denseRanksBy score 0 none xs = xs.map fun x => (x, rankIn (xs.map score) (score x)) := by
  cases xs with
  | nil => rfl
  | cons x xs =>
    obtain ⟨hle, hrest⟩ := List.pairwise_cons.mp hsorted
    obtain ⟨hone, htail⟩ := rankIn_map_cons score hle
    rw [denseRanksBy, if_pos (by simp), denseRanksBy_some score hrest hle, List.map_cons, hone]
    congr 1
    refine List.map_congr_left fun y hy => ?_
    rw [htail y hy]

end DenseRanks

end Tx3Lift.Lib
