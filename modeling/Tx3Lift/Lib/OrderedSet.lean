import Mathlib

/-!
# Loops over ordered sets

Facts about `Std.ExtTreeSet` that a proof needs when the code under it fills
such sets in loops and then counts their elements in loops.

* `insertMany`: insert every element of a list; `mem_insertMany`, `mem_insertMany_empty`.
* `insertMany_append`: two loops that fill the same set one after the other.
* `toList_nodup`, `length_filter_toList`: a loop over a set meets every element
  once, so counting the elements that pass a test gives the cardinality of the
  subset they form.
* `isSubset`, `isSubset_iff`.
* `foldlM_insert`: a loop that fills a map with one computed entry for each key.
* `getElem?_foldl_insert`: a loop that fills a map and overwrites what is there.
-/

namespace Tx3Lift.Lib

open Std

variable {α β : Type} [Ord α] [TransOrd α]

/-- Insert every element of a list. -/
def insertMany (s : ExtTreeSet α compare) (xs : List α) : ExtTreeSet α compare :=
  xs.foldl (fun s x => s.insert x) s

@[simp] theorem insertMany_nil (s : ExtTreeSet α compare) : insertMany s [] = s := rfl

@[simp] theorem insertMany_cons (s : ExtTreeSet α compare) (x : α) (xs : List α) :
    insertMany s (x :: xs) = insertMany (s.insert x) xs := rfl

theorem insertMany_append (s : ExtTreeSet α compare) (xs ys : List α) :
    insertMany s (xs ++ ys) = insertMany (insertMany s xs) ys :=
  List.foldl_append

/-- `BTreeSet::is_subset`. -/
def isSubset (s t : ExtTreeSet α compare) : Bool := s.toList.all fun a => t.contains a

variable [LawfulEqOrd α]

theorem mem_insert_iff {s : ExtTreeSet α compare} {x a : α} : a ∈ s.insert x ↔ a = x ∨ a ∈ s := by
  rw [ExtTreeSet.mem_insert, Std.compare_eq_iff_eq]
  exact or_congr_left eq_comm

theorem mem_insertMany {s : ExtTreeSet α compare} {xs : List α} {a : α} :
    a ∈ insertMany s xs ↔ a ∈ s ∨ a ∈ xs := by
  induction xs generalizing s with
  | nil => simp
  | cons x xs ih =>
    rw [insertMany_cons, ih, mem_insert_iff, List.mem_cons]
    tauto

/-- The elements of a set that is filled from the empty one. -/
@[simp] theorem mem_insertMany_empty {xs : List α} {a : α} :
    a ∈ insertMany (∅ : ExtTreeSet α compare) xs ↔ a ∈ xs := by
  rw [mem_insertMany, or_iff_right ExtTreeSet.not_mem_empty]

theorem mem_insertMany_of_subset {xs ys : List α} (h : xs ⊆ ys) :
    ∀ a ∈ insertMany (∅ : ExtTreeSet α compare) xs,
      a ∈ insertMany (∅ : ExtTreeSet α compare) ys := by
  intro a ha
  rw [mem_insertMany_empty] at ha ⊢
  exact h ha

theorem toList_nodup (s : ExtTreeSet α compare) : s.toList.Nodup :=
  (ExtTreeSet.distinct_toList (t := s)).imp fun hne heq =>
    hne (Std.compare_eq_iff_eq.mpr heq)

/-- Counting the elements of a set that pass a test. -/
theorem length_filter_toList (s : ExtTreeSet α compare) (p : α → Bool) :
    (s.toList.filter p).length = {a | a ∈ s ∧ p a = true}.ncard := by
  classical
  have hset : {a | a ∈ s ∧ p a = true} = ((s.toList.filter p).toFinset : Set α) := by
    ext a
    simp
  rw [hset, Set.ncard_coe_finset, List.toFinset_card_of_nodup ((toList_nodup s).filter _)]

theorem isSubset_iff {s t : ExtTreeSet α compare} : isSubset s t = true ↔ ∀ a ∈ s, a ∈ t := by
  simp [isSubset]

/-- A loop that fills a map with one computed entry for each key. -/
theorem foldlM_insert {ε : Type} {f : α → Except ε β} :
    ∀ {keys : List α} {m m' : ExtTreeMap α β compare},
      keys.foldlM (fun (m : ExtTreeMap α β compare) k => do
        let v ← f k
        return m.insert k v) m = .ok m' →
      (∀ k ∈ keys, ∃ v, f k = .ok v) ∧
        ∀ k v, m'[k]? = some v ↔ (k ∈ keys ∧ f k = .ok v) ∨ (k ∉ keys ∧ m[k]? = some v) := by
  intro keys
  induction keys with
  | nil =>
    intro m m' h
    cases h
    simp
  | cons key keys ih =>
    intro m m' h
    rw [List.foldlM_cons] at h
    cases hkey : f key with
    | error e =>
      rw [hkey] at h
      cases h
    | ok value =>
      rw [hkey] at h
      obtain ⟨hall, hget⟩ := ih h
      refine ⟨by simpa [hkey] using hall, fun k v => ?_⟩
      rw [hget, ExtTreeMap.getElem?_insert]
      by_cases hk : k = key
      · subst hk
        by_cases hmem : k ∈ keys <;> simp [hmem, hkey]
      · simp [hk, Ne.symm hk]

/-- A loop that inserts the entries that have a value: the last one of a key counts. -/
theorem getElem?_foldl_insert [DecidableEq α] {ε : Type} (key : ε → α) (value : ε → Option β)
    {step : ExtTreeMap α β compare → ε → ExtTreeMap α β compare}
    (hstep : ∀ m e, step m e = (value e).elim m fun v => m.insert (key e) v) (es : List ε)
    (m : ExtTreeMap α β compare) (k : α) :
    (es.foldl step m)[k]? =
      (es.reverse.findSome? fun e => if key e = k then value e else none).or m[k]? := by
  induction es using List.reverseRecOn with
  | nil => rfl
  | append_singleton es e ih =>
    rw [List.foldl_append, List.foldl_cons, List.foldl_nil, List.reverse_append,
      List.reverse_singleton, List.singleton_append, List.findSome?_cons, hstep]
    cases hvalue : value e with
    | none =>
      rw [ite_self]
      exact ih
    | some v =>
      rw [Option.elim_some, ExtTreeMap.getElem?_insert]
      by_cases hkey : key e = k
      · rw [if_pos hkey, if_pos (Std.compare_eq_iff_eq.mpr hkey)]
        rfl
      · rw [if_neg hkey, if_neg fun h => hkey (Std.compare_eq_iff_eq.mp h)]
        exact ih

end Tx3Lift.Lib
