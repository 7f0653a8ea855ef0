import Mathlib

/-!
# None, one or many

The flat order over a type of kinds: nothing seen, one kind seen, more than one. `ofSet` is
what a set of kinds amounts to, `join` accumulates.

* `join_ofSet`: accumulating one more kind is adding it to the set, so neither the order nor
  the number of occurrences matters.
* `ofSet_eq_iff`: two sets amount to the same when they are equal or both hold two kinds.
-/

namespace Tx3Lift.Lib

/-- Nothing, exactly one kind, or several. -/
inductive Flat (κ : Type) where
  | none
  | one (k : κ)
  | many
deriving DecidableEq

variable {κ : Type}

/-- The least upper bound of what was seen and one more kind. -/
def Flat.join [DecidableEq κ] : Flat κ → κ → Flat κ
  | .none, k => .one k
  | .one k, l => if k = l then .one k else .many
  | .many, _ => .many

open Classical in
/-- What a set of kinds amounts to. -/
noncomputable def Flat.ofSet (K : Set κ) : Flat κ :=
  if K = ∅ then .none
  else if h : ∃ k, K = {k} then .one h.choose
  else .many

@[simp] theorem Flat.ofSet_empty : Flat.ofSet (∅ : Set κ) = .none := if_pos rfl

@[simp] theorem Flat.ofSet_singleton (k : κ) : Flat.ofSet {k} = .one k := by
  have hne : ({k} : Set κ) ≠ ∅ := Set.singleton_ne_empty k
  have hex : ∃ l, ({k} : Set κ) = {l} := ⟨k, rfl⟩
  rw [Flat.ofSet, if_neg hne, dif_pos hex]
  exact congrArg Flat.one (Set.singleton_eq_singleton_iff.mp hex.choose_spec).symm

theorem Flat.ofSet_nontrivial {K : Set κ} (h : K.Nontrivial) : Flat.ofSet K = .many := by
  rw [Flat.ofSet, if_neg h.nonempty.ne_empty, dif_neg]
  rintro ⟨k, rfl⟩
  exact Set.not_nontrivial_singleton h

/-- The three cases. -/
theorem Flat.ofSet_cases (K : Set κ) :
    (K = ∅ ∧ Flat.ofSet K = .none) ∨ (∃ k, K = {k} ∧ Flat.ofSet K = .one k) ∨
      (K.Nontrivial ∧ Flat.ofSet K = .many) := by
  rcases Set.eq_empty_or_nonempty K with rfl | hne
  · exact Or.inl ⟨rfl, Flat.ofSet_empty⟩
  · rcases hne.exists_eq_singleton_or_nontrivial with ⟨k, rfl⟩ | h
    · exact Or.inr (Or.inl ⟨k, rfl, Flat.ofSet_singleton k⟩)
    · exact Or.inr (Or.inr ⟨h, Flat.ofSet_nontrivial h⟩)

/-- **Accumulation.** One more kind joins the set. -/
theorem Flat.join_ofSet [DecidableEq κ] (K : Set κ) (k : κ) :
    (Flat.ofSet K).join k = Flat.ofSet (insert k K) := by
  rcases Flat.ofSet_cases K with ⟨rfl, h⟩ | ⟨l, rfl, h⟩ | ⟨hK, h⟩ <;> rw [h]
  · rw [Flat.join, insert_empty_eq, Flat.ofSet_singleton]
  · by_cases hl : l = k
    · subst hl
      rw [Flat.join, if_pos rfl, Set.insert_eq_of_mem (Set.mem_singleton l),
        Flat.ofSet_singleton]
    · have hpair : (insert k {l} : Set κ).Nontrivial := Set.nontrivial_pair (Ne.symm hl)
      rw [Flat.join, if_neg hl, Flat.ofSet_nontrivial hpair]
  · rw [Flat.join, Flat.ofSet_nontrivial (hK.mono (Set.subset_insert k K))]

/-- Sets that amount to the same. -/
theorem Flat.ofSet_eq_iff (K L : Set κ) :
    Flat.ofSet K = Flat.ofSet L ↔ K = L ∨ (K.Nontrivial ∧ L.Nontrivial) := by
  constructor
  · intro h
    rcases Flat.ofSet_cases K with ⟨rfl, hK⟩ | ⟨k, rfl, hK⟩ | ⟨hKn, hK⟩ <;>
      rcases Flat.ofSet_cases L with ⟨rfl, hL⟩ | ⟨l, rfl, hL⟩ | ⟨hLn, hL⟩ <;>
      have hsame := hK.symm.trans (h.trans hL) <;> cases hsame
    · exact Or.inl rfl
    · exact Or.inl rfl
    · exact Or.inr ⟨hKn, hLn⟩
  · rintro (rfl | ⟨hK, hL⟩)
    · rfl
    · rw [Flat.ofSet_nontrivial hK, Flat.ofSet_nontrivial hL]

end Tx3Lift.Lib
