import Mathlib

/-!
# Runs of a fallible step function

A machine is a step function `step : σ → ε → Except χ σ` on states `σ` and
events `ε`; a run folds the events over an initial state and stops at the first
error. A state is *passed* after the events `pre` when the run over `pre`
succeeds.

* `run_concat`: the last step of a run.
* `run_induction`: an invariant that may mention the events consumed so far
  holds wherever the run passes.
* `run_passes`: a run that succeeds passes after every prefix of its events.
* `exists_step_of_run`: a run that succeeds takes every one of its steps.
* `run_of_forall`: a run whose steps cannot fail succeeds.
* `run_perm`: a run whose events commute can take them in any order.
-/

namespace Tx3Lift.Lib

variable {σ ε χ : Type}

/-- The run over `es` from `s`. -/
def run (step : σ → ε → Except χ σ) (s : σ) (es : List ε) : Except χ σ := es.foldlM step s

@[simp] theorem run_nil (step : σ → ε → Except χ σ) (s : σ) : run step s [] = .ok s := rfl

theorem run_cons_ok {step : σ → ε → Except χ σ} {s t : σ} {e : ε} {es : List ε} :
    run step s (e :: es) = .ok t ↔ ∃ u, step s e = .ok u ∧ run step u es = .ok t := by
  simp only [run, List.foldlM_cons]
  cases h : step s e with
  | error x => simp [bind, Except.bind]
  | ok u => simp [bind, Except.bind]

theorem run_append_ok {step : σ → ε → Except χ σ} {s t : σ} {es fs : List ε} :
    run step s (es ++ fs) = .ok t ↔ ∃ u, run step s es = .ok u ∧ run step u fs = .ok t := by
  induction es generalizing s with
  | nil => simp
  | cons e es ih =>
    simp only [List.cons_append, run_cons_ok, ih]
    constructor
    · rintro ⟨u, hu, v, hv, ht⟩
      exact ⟨v, ⟨u, hu, hv⟩, ht⟩
    · rintro ⟨v, ⟨u, hu, hv⟩, ht⟩
      exact ⟨u, hu, v, hv, ht⟩

/-- The last step of a run. -/
theorem run_concat {step : σ → ε → Except χ σ} {s t : σ} {es : List ε} {e : ε} :
    run step s (es ++ [e]) = .ok t ↔ ∃ u, run step s es = .ok u ∧ step u e = .ok t := by
  rw [run_append_ok]
  simp only [run_cons_ok, run_nil, Except.ok.injEq]
  constructor
  · rintro ⟨u, hu, v, hv, rfl⟩
    exact ⟨u, hu, hv⟩
  · rintro ⟨u, hu, hv⟩
    exact ⟨u, hu, t, hv, rfl⟩

/-- A run that succeeds passes after every prefix of its events. -/
theorem run_passes {step : σ → ε → Except χ σ} {s t : σ} {pre es : List ε}
    (h : run step s es = .ok t) (hp : pre <+: es) : ∃ u, run step s pre = .ok u := by
  obtain ⟨rest, rfl⟩ := hp
  obtain ⟨u, hu, _⟩ := run_append_ok.mp h
  exact ⟨u, hu⟩

/-- **Invariants over the history of a run.** What holds before the first event
    and is kept by every step of a run over `es` holds wherever it passes. -/
theorem run_induction {step : σ → ε → Except χ σ} {s : σ} {es : List ε}
    (I : List ε → σ → Prop) (init : I [] s)
    (keep : ∀ pre e u t, pre ++ [e] <+: es → run step s pre = .ok u → I pre u →
      step u e = .ok t → I (pre ++ [e]) t) :
    ∀ pre t, pre <+: es → run step s pre = .ok t → I pre t := by
  intro pre
  induction pre using List.reverseRecOn with
  | nil =>
    intro t _ ht
    cases ht
    exact init
  | append_singleton pre e ih =>
    intro t hp ht
    obtain ⟨u, hu, hs⟩ := run_concat.mp ht
    exact keep pre e u t hp hu (ih u ((List.prefix_append _ _).trans hp) hu) hs

/-- A run that succeeds takes every one of its steps. -/
theorem exists_step_of_run {step : σ → ε → Except χ σ} {s t : σ} {es : List ε}
    (h : run step s es = .ok t) : ∀ e ∈ es, ∃ u v, step u e = .ok v := by
  induction es generalizing s with
  | nil => simp
  | cons e es ih =>
    obtain ⟨v, hv, hrest⟩ := run_cons_ok.mp h
    intro f hf
    rcases List.mem_cons.mp hf with rfl | hf
    · exact ⟨s, v, hv⟩
    · exact ih hrest f hf

/-- A run none of whose steps can fail succeeds. -/
theorem run_of_forall {step : σ → ε → Except χ σ} {es : List ε}
    (h : ∀ e ∈ es, ∀ u, ∃ t, step u e = .ok t) (s : σ) : ∃ t, run step s es = .ok t := by
  induction es generalizing s with
  | nil => exact ⟨s, rfl⟩
  | cons e es ih =>
    obtain ⟨u, hu⟩ := h e (by simp) s
    obtain ⟨t, ht⟩ := ih (fun f hf => h f (by simp [hf])) u
    exact ⟨t, run_cons_ok.mpr ⟨u, hu, ht⟩⟩

/-- Two events that can be taken in either order. -/
def Commuting (step : σ → ε → Except χ σ) (e f : ε) : Prop :=
  ∀ s t, run step s [e, f] = .ok t ↔ run step s [f, e] = .ok t

/-- **Runs in another order.** Events that commute lead to the same state in every order. -/
theorem run_perm {step : σ → ε → Except χ σ} {es fs : List ε} (hp : es.Perm fs)
    (hcomm : es.Pairwise (Commuting step)) {s t : σ} (h : run step s es = .ok t) :
    run step s fs = .ok t := by
  have hsymm : ∀ {e f : ε}, Commuting step e f → Commuting step f e := fun h s t => (h s t).symm
  induction hp generalizing s with
  | nil => exact h
  | cons e _ ih =>
    obtain ⟨u, hu, hrest⟩ := run_cons_ok.mp h
    exact run_cons_ok.mpr ⟨u, hu, ih (List.pairwise_cons.mp hcomm).2 hrest⟩
  | swap e f es =>
    have hswap : Commuting step f e := (List.pairwise_cons.mp hcomm).1 e List.mem_cons_self
    have happend : run step s ([f, e] ++ es) = .ok t := h
    obtain ⟨u, hu, hrest⟩ := run_append_ok.mp happend
    exact run_append_ok.mpr ⟨u, (hswap s u).mp hu, hrest⟩
  | trans hp _ ih ih' => exact ih' (hp.pairwise hcomm hsymm) (ih hcomm h)

end Tx3Lift.Lib
