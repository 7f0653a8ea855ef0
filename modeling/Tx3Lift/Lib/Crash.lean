import Mathlib

/-!
# Processes that crash and restart

A process has a volatile memory `μ` and a durable store `σ`. An *open* starts from a fresh
memory on the store it finds and takes deterministic steps; a crash loses the memory and
keeps the store. Opens may differ in what they read from outside, `κ`.

* `cut_induction`, `crashes_induction`: a property of the store that holds throughout an
  open, whatever its length, survives any sequence of crashes.
-/

namespace Tx3Lift.Lib

variable {κ μ σ : Type}

/-- The store after an open that is cut after `n` steps. -/
def cut (start : μ) (step : μ × σ → μ × σ) (n : ℕ) (s : σ) : σ := (step^[n] (start, s)).2

/-- The store after a sequence of opens, each cut after some number of steps. -/
def crashes (start : μ) (step : κ → μ × σ → μ × σ) (opens : List (κ × ℕ)) (s : σ) : σ :=
  opens.foldl (fun s o => cut start (step o.1) o.2 s) s

section Induction

variable {start : μ} {I : σ → Prop} {J : μ × σ → Prop}

/-- An invariant of the running process that implies `I` of the store at every point. -/
theorem cut_induction {step : μ × σ → μ × σ} (hstart : ∀ s, I s → J (start, s))
    (hstep : ∀ c, J c → J (step c)) (hcut : ∀ c, J c → I c.2) (n : ℕ) {s : σ} (h : I s) :
    I (cut start step n s) := by
  have hrun : J (step^[n] (start, s)) := by
    induction n with
    | zero => exact hstart s h
    | succ n ih =>
      rw [Function.iterate_succ_apply']
      exact hstep _ ih
  exact hcut _ hrun

/-- The store property survives every sequence of crashes. -/
theorem crashes_induction {step : κ → μ × σ → μ × σ} (hstart : ∀ s, I s → J (start, s))
    (hstep : ∀ k c, J c → J (step k c)) (hcut : ∀ c, J c → I c.2) (opens : List (κ × ℕ)) {s : σ}
    (h : I s) : I (crashes start step opens s) := by
  induction opens generalizing s with
  | nil => exact h
  | cons o opens ih =>
    rw [crashes, List.foldl_cons]
    exact ih (cut_induction hstart (hstep o.1) hcut o.2 h)

end Induction

end Tx3Lift.Lib
