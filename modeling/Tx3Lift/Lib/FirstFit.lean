import Tx3Lift.Lib.FreeSlots

/-!
# First fit against matchings

When does a loop that gives every test the first free slot, without looking back, serve
every test that can be served? A `Matching` is a choice of distinct free slots, one for each
test; a first-fit claim keeps one for the tests that remain if it cannot take what only a
later test could use.

* `Matching.claim_once`: the claim of a test that has a slot in the matching. If it takes the
  slot of a later test, the two slots are exchanged.
* `Matching.claim_apart`: a claim that has no slots in common with the remaining tests.
* `assignAll_complete`: a whole loop, from what each claim does to a matching.
-/

namespace Tx3Lift.Lib

variable {α β : Type}

/-- There are distinct free slots, one for each test. -/
def Matching (xs : List α) (consumed : List Bool) (tests : List (α → Bool)) : Prop :=
  ∃ slots : List ℕ, slots.Nodup ∧ List.Forall₂ (FreeFit xs consumed) tests slots

/-- No element passes both tests. -/
def Apart (xs : List α) (p q : α → Bool) : Prop := ∀ x ∈ xs, ¬(p x = true ∧ q x = true)

/-- Serving one slot to `p` first does not hurt `q`: the tests are apart, or everything that
    passes `p` passes `q`. -/
def Harmless (xs : List α) (p q : α → Bool) : Prop :=
  Apart xs p q ∨ ∀ x ∈ xs, p x = true → q x = true

/-! ## What a claim leaves of a matching -/

theorem FreeFit.of_claims {xs : List α} {u u' : List Bool} {m : List ℕ} {p : α → Bool} {s : ℕ}
    (h : FreeFit xs u p s) (hclaims : Claims u m u') (hs : s ∉ m) : FreeFit xs u' p s :=
  ⟨by rw [hclaims.marked, if_neg hs]; exact h.1, h.2⟩

/-- **The exchange step.** A test that has a slot in the matching is served, and the tests
    after it that it does not hurt still have a matching. -/
theorem Matching.claim_once {xs : List α} {u : List Bool} {p : α → Bool}
    {tests : List (α → Bool)} (hlen : u.length = xs.length) (h : Matching xs u (p :: tests))
    (hp : ∀ q ∈ tests, Harmless xs p q) :
    ∃ s u', claim p true 0 xs u = ([s], u') ∧ FreeFit xs u p s ∧ Claims u [s] u' ∧
      Matching xs u' tests := by
  obtain ⟨slots, hnodup, hfits⟩ := h
  obtain ⟨t, rest, ht, hrest, rfl⟩ := List.forall₂_cons_left_iff.mp hfits
  obtain ⟨hnot, hnodup⟩ := List.nodup_cons.mp hnodup
  obtain ⟨s, u', hclaim, hs, hclaims⟩ := claim_once_of_freeFit hlen ht
  refine ⟨s, u', hclaim, hs, hclaims, rest.map (Equiv.swap s t),
    hnodup.map (Equiv.swap s t).injective, ?_⟩
  rw [List.forall₂_map_right_iff]
  refine forall₂_imp_mem hrest fun q r hq hr hfit => ?_
  have hrt : r ≠ t := fun heq => hnot (heq ▸ hr)
  by_cases hrs : r = s
  · -- the claim took the slot of `q`, which gets the one the matching had for `p`
    subst hrs
    rw [Equiv.swap_apply_left]
    obtain ⟨-, x, hx, hpx⟩ := hs
    obtain ⟨-, x', hx', hqx⟩ := hfit
    cases hx.symm.trans hx'
    have hsub : ∀ y ∈ xs, p y = true → q y = true := (hp q hq).resolve_left fun hapart =>
      hapart x (List.mem_of_getElem? hx) ⟨hpx, hqx⟩
    obtain ⟨htfree, y, hy, hpy⟩ := ht
    exact FreeFit.of_claims ⟨htfree, y, hy, hsub y (List.mem_of_getElem? hy) hpy⟩ hclaims
      (by simpa using hrt.symm)
  · rw [Equiv.swap_apply_of_ne_of_ne hrs hrt]
    exact hfit.of_claims hclaims (by simpa using hrs)

/-- A claim takes no slot of a test it is apart from. -/
theorem Matching.claim_apart {xs : List α} {u : List Bool} {p : α → Bool} (once : Bool)
    {tests : List (α → Bool)} (hlen : u.length = xs.length) (h : Matching xs u tests)
    (hp : ∀ q ∈ tests, Apart xs p q) : Matching xs (claim p once 0 xs u).2 tests := by
  obtain ⟨hclaims, hslots, -⟩ := claim_spec p once hlen
  obtain ⟨slots, hnodup, hfits⟩ := h
  refine ⟨slots, hnodup, forall₂_imp_mem hfits fun q s hq _ hfit => hfit.of_claims hclaims ?_⟩
  intro hs
  obtain ⟨x, hx, hpx⟩ := hslots s hs
  obtain ⟨-, x', hx', hqx⟩ := hfit
  cases hx.symm.trans hx'
  exact hp q hq x (List.mem_of_getElem? hx) ⟨hpx, hqx⟩

/-! ## A whole loop -/

/-- **Completeness of a first-fit loop.** `tests b` are the tests that entry `b` needs served
    and `Spares b q` says that the claim of `b` does not hurt a later test `q`. If every claim
    serves its own tests and keeps a matching for those it spares, a loop whose entries spare
    the tests of the entries after them serves all. -/
theorem assignAll_complete {f : β → List Bool → Option (List ℕ × List Bool)} {xs : List α}
    {tests : β → List (α → Bool)} {Spares : β → (α → Bool) → Prop} {Served : β → List ℕ → Prop}
    (hf : ∀ b u rest, u.length = xs.length → Matching xs u (tests b ++ rest) →
      (∀ q ∈ rest, Spares b q) →
      ∃ m u', f b u = some (m, u') ∧ Claims u m u' ∧ Served b m ∧ Matching xs u' rest) :
    ∀ (bs : List β) (u : List Bool), u.length = xs.length →
      bs.Pairwise (fun b c => ∀ q ∈ tests c, Spares b q) → Matching xs u (bs.flatMap tests) →
      ∃ mm u', assignAll f bs u = some mm ∧ Claims u mm.flatten u' ∧
        List.Forall₂ Served bs mm := by
  intro bs
  induction bs with
  | nil => intro u _ _ _; exact ⟨[], u, rfl, Claims.nil u, List.Forall₂.nil⟩
  | cons b bs ih =>
    intro u hlen hpair hmatch
    obtain ⟨hb, hpair⟩ := List.pairwise_cons.mp hpair
    obtain ⟨m, u', hfb, hclaims, hserved, hrest⟩ := hf b u (bs.flatMap tests) hlen hmatch
      fun q hq => by
        obtain ⟨c, hc, hqc⟩ := List.mem_flatMap.mp hq
        exact hb c hc q hqc
    obtain ⟨mm, u'', hmm, hclaims', hall⟩ := ih u' (hclaims.length_eq.trans hlen) hpair hrest
    refine ⟨m :: mm, u'', ?_, hclaims.append hclaims', List.Forall₂.cons hserved hall⟩
    rw [assignAll, hfb]
    simp [hmm]

end Tx3Lift.Lib
