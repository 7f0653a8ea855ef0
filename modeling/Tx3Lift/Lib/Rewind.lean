import Mathlib

/-!
# Logs that are delivered with rewinds

A sender works through a log of events. At any moment it may go back to an earlier position and
go on from there, any number of times: the receiver sees every event at least once, and some
events again, also such as it has seen the opposite of since. Once the sender has reached the
end of the log, a receiver whose steps *absorb* what they have seen is where it would be if it
had seen the log once.

* `Deliveries.mem`: nothing is delivered that is not in the log.
* `Deliveries.blocked`: how far the sender gets if the receiver cannot take one of the events.
* `Absorbs.deliveries`: the state at the end of a delivery with rewinds.
-/

namespace Tx3Lift.Lib

section Deliveries

variable {ε σ : Type}

/-- What a receiver may have seen when the sender stands at a position of its log. -/
inductive Deliveries (log : List ε) : List ε → ℕ → Prop
  | start : Deliveries log [] 0
  | next {received : List ε} {pos : ℕ} {e : ε} : Deliveries log received pos →
      log[pos]? = some e → Deliveries log (received ++ [e]) (pos + 1)
  | rewind {received : List ε} {pos pos' : ℕ} : Deliveries log received pos → pos' ≤ pos →
      Deliveries log received pos'

variable {log received : List ε} {pos : ℕ}

theorem Deliveries.mem (h : Deliveries log received pos) : ∀ e ∈ received, e ∈ log := by
  induction h with
  | start => simp
  | next _ he ih =>
    intro e' he'
    rcases List.mem_append.mp he' with he' | he'
    · exact ih e' he'
    · rw [List.mem_singleton.mp he']
      exact List.mem_of_getElem? he
  | rewind _ _ ih => exact ih

/-- The sender works through some more of its log. -/
theorem Deliveries.take (h : Deliveries log received pos) {k : ℕ} (hk : pos + k ≤ log.length) :
    Deliveries log (received ++ (log.drop pos).take k) (pos + k) := by
  induction k with
  | zero =>
    rw [List.take_zero, List.append_nil]
    exact h
  | succ k ih =>
    have hlt : pos + k < log.length := by omega
    have hget : log[pos + k]? = some log[pos + k] := List.getElem?_eq_getElem hlt
    rw [List.take_add_one, List.getElem?_drop, hget, ← List.append_assoc]
    exact .next (ih hlt.le) hget

/-- A receiver that cannot take an event of the log never gets past it. -/
theorem Deliveries.blocked (h : Deliveries log received pos) {k : ℕ} {e : ε}
    (he : log[k]? = some e) (hno : e ∉ received) :
    pos ≤ k ∧ ∀ e' ∈ received, e' ∈ log.take k := by
  induction h with
  | start => exact ⟨Nat.zero_le k, by simp⟩
  | @next received pos e' _ he' ih =>
    obtain ⟨hle, hmem⟩ := ih fun hin => hno (List.mem_append_left _ hin)
    have hne : pos ≠ k := by
      rintro rfl
      cases he.symm.trans he'
      exact hno (List.mem_append_right _ (List.mem_singleton_self e))
    have hlt : pos < k := lt_of_le_of_ne hle hne
    refine ⟨hlt, fun e'' hin => ?_⟩
    rcases List.mem_append.mp hin with hin | hin
    · exact hmem e'' hin
    · rw [List.mem_singleton.mp hin]
      refine List.mem_of_getElem? (i := pos) ?_
      rw [List.getElem?_take_of_lt hlt]
      exact he'
  | rewind _ hpos ih =>
    obtain ⟨hle, hmem⟩ := ih hno
    exact ⟨hpos.trans hle, hmem⟩

/-- A step absorbs: if the events from a point on lead from `s` to `t`, and so do the events from
    an earlier point on, then taking the next event first does not change where they lead. -/
def Absorbs (step : σ → ε → σ) : Prop :=
  ∀ (s t : σ) (xs ys : List ε) (e : ε), (xs ++ e :: ys).foldl step s = t →
    (e :: ys).foldl step s = t → (xs ++ e :: ys).foldl step (step s e) = t

/-- Wherever the sender goes back to, the rest of the log leads to the same state. -/
theorem Absorbs.rest {step : σ → ε → σ} (habs : Absorbs step) (s : σ)
    (h : Deliveries log received pos) :
    ∀ q ≤ pos, (log.drop q).foldl step (received.foldl step s) = log.foldl step s := by
  induction h with
  | start =>
    intro q hq
    rw [Nat.le_zero.mp hq, List.drop_zero, List.foldl_nil]
  | @next received pos e _ he ih =>
    intro q hq
    obtain ⟨hlt, hget⟩ := List.getElem?_eq_some_iff.mp he
    have hdrop : log.drop pos = e :: log.drop (pos + 1) := by
      rw [← hget]
      exact List.drop_eq_getElem_cons hlt
    have hhere := ih pos le_rfl
    rw [hdrop] at hhere
    rw [List.foldl_append, List.foldl_cons, List.foldl_nil]
    by_cases hlast : q = pos + 1
    · rw [hlast]
      exact hhere
    · have hle : q ≤ pos := by omega
      have hsplit : log.drop q = (log.drop q).take (pos - q) ++ e :: log.drop (pos + 1) := by
        rw [← hdrop, ← Nat.add_sub_cancel' hle, ← List.drop_drop, Nat.add_sub_cancel_left]
        exact (List.take_append_drop _ _).symm
      have hearlier := ih q hle
      rw [hsplit] at hearlier ⊢
      exact habs _ _ _ _ _ hearlier hhere
  | rewind _ hpos ih => exact fun q hq => ih q (hq.trans hpos)

/-- **Rewinds do not matter.** Once the sender has reached the end of the log, the receiver is
    where one pass over the log would have brought it. -/
theorem Absorbs.deliveries {step : σ → ε → σ} (habs : Absorbs step) (s : σ)
    (h : Deliveries log received log.length) : received.foldl step s = log.foldl step s := by
  have hrest := habs.rest s h log.length le_rfl
  rwa [List.drop_length, List.foldl_nil] at hrest

/-- A step that reads an event through a function absorbs if the step on what it reads does. -/
theorem Absorbs.comap {δ : Type} {step : σ → δ → σ} (habs : Absorbs step) (f : ε → δ) :
    Absorbs fun s e => step s (f e) := by
  intro s t xs ys e hall hhere
  rw [← List.foldl_map] at hall hhere ⊢
  rw [List.map_append, List.map_cons] at hall ⊢
  exact habs s t _ _ _ hall hhere

end Deliveries

end Tx3Lift.Lib
