import Mathlib

/-!
# Greedy assignment of slots

A loop walks over `n` items with a vector of `consumed` flags, claims the items
that pass a test, and sets their flags. Several such loops run one after the
other on the same flags, one for each entry of a template.

* `claim`: one loop; with `once` it stops after the first claim.
* `Claims`: what a loop may do to the flags, and does (`claim_claims_from`). Claims compose
  (`Claims.append`).
* `assignAll`: one loop after the other; `assignAll_spec` turns a fact about each
  entry's claim into a fact about the whole map, whose slots are in range and
  distinct.
-/

namespace Tx3Lift.Lib

variable {α β : Type}

/-- `for (i, x) in items.enumerate()`: skip consumed slots, claim those that pass
    `p`, and stop after the first claim if `once`. Returns the claimed slots and
    the flags. -/
def claim (p : α → Bool) (once : Bool) : ℕ → List α → List Bool → List ℕ × List Bool
  | _, [], consumed => ([], consumed)
  | i, x :: xs, consumed =>
    if consumed.getD i false then claim p once (i + 1) xs consumed
    else if p x then
      if once then ([i], consumed.set i true)
      else
        let r := claim p once (i + 1) xs (consumed.set i true)
        (i :: r.1, r.2)
    else claim p once (i + 1) xs consumed

/-- From `consumed`, the slots `m` were claimed and `consumed'` results. -/
structure Claims (consumed : List Bool) (m : List ℕ) (consumed' : List Bool) : Prop where
  nodup : m.Nodup
  free : ∀ s ∈ m, consumed[s]? = some false
  marked : ∀ s, consumed'[s]? = if s ∈ m then some true else consumed[s]?

theorem Claims.nil (consumed : List Bool) : Claims consumed [] consumed :=
  ⟨List.nodup_nil, by simp, by simp⟩

theorem Claims.single {consumed : List Bool} {i : ℕ} (h : consumed[i]? = some false) :
    Claims consumed [i] (consumed.set i true) := by
  refine ⟨List.nodup_singleton _, by simpa using h, fun s => ?_⟩
  have hi : i < consumed.length := (List.getElem?_eq_some_iff.mp h).1
  rw [List.getElem?_set]
  by_cases hs : i = s
  · subst hs; simp [hi]
  · simp [hs, Ne.symm hs]

theorem free_of_getD {consumed : List Bool} {i : ℕ} (hi : i < consumed.length)
    (h : ¬consumed.getD i false = true) : consumed[i]? = some false := by
  rw [List.getD_eq_getElem _ _ hi] at h
  rw [List.getElem?_eq_getElem hi, eq_false_of_ne_true h]

/-- Claims made one after the other on the same flags are disjoint. -/
theorem Claims.append {u u' u'' : List Bool} {m m' : List ℕ} (h : Claims u m u')
    (h' : Claims u' m' u'') : Claims u (m ++ m') u'' := by
  have hfree : ∀ s ∈ m', s ∉ m ∧ u[s]? = some false := by
    intro s hs
    have hc := h'.free s hs
    rw [h.marked] at hc
    split_ifs at hc with hm
    · simp at hc
    · exact ⟨hm, hc⟩
  refine ⟨h.nodup.append h'.nodup (fun s hs hs' => (hfree s hs').1 hs), ?_, fun s => ?_⟩
  · intro s hs
    rcases List.mem_append.mp hs with hs | hs
    · exact h.free s hs
    · exact (hfree s hs).2
  · rw [h'.marked, h.marked]
    by_cases h1 : s ∈ m <;> by_cases h2 : s ∈ m' <;> simp [h1, h2]

theorem Claims.length_eq {u u' : List Bool} {m : List ℕ} (h : Claims u m u') :
    u'.length = u.length := by
  apply le_antisymm
  · by_contra hlt
    have hnone : u[u.length]? = none := by simp
    have hm : u.length ∉ m := fun hs => by simpa [hnone] using h.free _ hs
    have := h.marked u.length
    rw [if_neg hm, hnone, List.getElem?_eq_none_iff] at this
    omega
  · by_contra hlt
    have hnone : u'[u'.length]? = none := by simp
    have := h.marked u'.length
    rw [hnone] at this
    split_ifs at this
    have := List.getElem?_eq_none_iff.mp this.symm
    omega

theorem Claims.lt_length {u u' : List Bool} {m : List ℕ} (h : Claims u m u') {s : ℕ}
    (hs : s ∈ m) : s < u.length :=
  (List.getElem?_eq_some_iff.mp (h.free s hs)).1

theorem claim_claims_from (p : α → Bool) (once : Bool) :
    ∀ (xs : List α) (i : ℕ) (consumed : List Bool), consumed.length = i + xs.length →
      Claims consumed (claim p once i xs consumed).1 (claim p once i xs consumed).2 := by
  intro xs
  induction xs with
  | nil => intro i consumed _; exact Claims.nil _
  | cons x xs ih =>
    intro i consumed hlen
    rw [List.length_cons] at hlen
    have hset : (consumed.set i true).length = consumed.length := List.length_set
    rw [claim]
    split_ifs with hused hx honce
    · exact ih (i + 1) consumed (by omega)
    · exact Claims.single (free_of_getD (by omega) hused)
    · exact (Claims.single (free_of_getD (by omega) hused)).append
        (ih (i + 1) (consumed.set i true) (by omega))
    · exact ih (i + 1) consumed (by omega)

/-- One claim for each entry, on the same flags; stops at the first entry that
    fails. -/
def assignAll (f : β → List Bool → Option (List ℕ × List Bool)) :
    List β → List Bool → Option (List (List ℕ))
  | [], _ => some []
  | b :: bs, consumed =>
    match f b consumed with
    | none => none
    | some (m, consumed') => (assignAll f bs consumed').map (m :: ·)

theorem assignAll_claims {f : β → List Bool → Option (List ℕ × List Bool)} {n : ℕ}
    {Q : β → List ℕ → Prop}
    (hf : ∀ b u m u', u.length = n → f b u = some (m, u') → Claims u m u' ∧ Q b m) :
    ∀ (bs : List β) (u : List Bool) (mm : List (List ℕ)), u.length = n →
      assignAll f bs u = some mm →
      List.Forall₂ Q bs mm ∧ ∃ u', Claims u mm.flatten u' := by
  intro bs
  induction bs with
  | nil =>
    intro u mm _ h
    cases h
    exact ⟨List.Forall₂.nil, u, Claims.nil u⟩
  | cons b bs ih =>
    intro u mm hc h
    rw [assignAll] at h
    cases hb : f b u with
    | none => simp [hb] at h
    | some r =>
      obtain ⟨m, u'⟩ := r
      rw [hb] at h
      obtain ⟨rest, hrest, rfl⟩ := Option.map_eq_some_iff.mp h
      obtain ⟨h1, h2⟩ := hf b u m u' hc hb
      obtain ⟨h3, u'', h4⟩ := ih u' rest (h1.length_eq.trans hc) hrest
      exact ⟨List.Forall₂.cons h2 h3, u'', h1.append h4⟩

/-- **A map made by successive claims.** It has one entry for each template entry,
    each with the property its claim has; no slot occurs twice, and all slots are
    in range. -/
theorem assignAll_spec {f : β → List Bool → Option (List ℕ × List Bool)} {n : ℕ}
    {Q : β → List ℕ → Prop}
    (hf : ∀ b u m u', u.length = n → f b u = some (m, u') → Claims u m u' ∧ Q b m)
    {bs : List β} {mm : List (List ℕ)} (h : assignAll f bs (List.replicate n false) = some mm) :
    List.Forall₂ Q bs mm ∧ mm.flatten.Nodup ∧ ∀ s ∈ mm.flatten, s < n := by
  obtain ⟨h1, u', h2⟩ := assignAll_claims hf bs _ mm (by simp) h
  exact ⟨h1, h2.nodup, fun s hs => by simpa using h2.lt_length hs⟩

end Tx3Lift.Lib
