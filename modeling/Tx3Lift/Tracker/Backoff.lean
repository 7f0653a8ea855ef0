import Tx3Lift.Basic

/-!
# Reconnect backoff

Model of `Backoff` (`bin/tracker/src/upstream/retry.rs`) over `std::time::Duration`, with
the machine arithmetic of `checked_mul`.

* `Duration.asNanos_checkedMul`, `Duration.lt_of_checkedMul_eq_none`: a checked product is
  the exact product, or it exceeds every `Duration`.
* `Backoff.asNanos_current_nextDelay`: one call doubles the delay and caps it, whether or
  not the doubling overflows.
* `Backoff.after_spec`: the state after any history of calls, from which the schedule is
  read off.
-/

namespace Tx3Lift

/-! ## `std::time::Duration` -/

/-- `NANOS_PER_SEC`. -/
def nanosPerSec : ℕ := 1000000000

/-- `std::time::Duration`: whole seconds, and the nanoseconds of a part of a second. -/
structure Duration where
  secs : UInt64
  nanos : ℕ
  nanos_lt : nanos < nanosPerSec
deriving DecidableEq

namespace Duration

/-- `Duration::from_secs`. -/
def fromSecs (secs : UInt64) : Duration := { secs := secs, nanos := 0, nanos_lt := by decide }

/-- `Duration::MAX`, the representable limit. -/
def MAX : Duration := { secs := 18446744073709551615, nanos := 999999999, nanos_lt := by decide }

/-- `Duration::as_nanos`. -/
def asNanos (d : Duration) : ℕ := d.secs.toNat * nanosPerSec + d.nanos

/-- The derived order compares the fields in their order. -/
instance : LE Duration := ⟨fun a b => a.secs < b.secs ∨ a.secs = b.secs ∧ a.nanos ≤ b.nanos⟩

instance (a b : Duration) : Decidable (a ≤ b) :=
  inferInstanceAs (Decidable (a.secs < b.secs ∨ a.secs = b.secs ∧ a.nanos ≤ b.nanos))

/-- `Ord::min`. -/
def min (a b : Duration) : Duration := if a ≤ b then a else b

/-- `u64::checked_mul`. -/
def u64CheckedMul (a b : UInt64) : Option UInt64 :=
  if a.toNat * b.toNat < 2 ^ 64 then some (a * b) else none

/-- `u64::checked_add`. -/
def u64CheckedAdd (a b : UInt64) : Option UInt64 :=
  if a.toNat + b.toNat < 2 ^ 64 then some (a + b) else none

/-- `Duration::checked_mul`. The nanoseconds are multiplied as a `u64`, which a `u32`
    factor cannot overflow. -/
def checkedMul (d : Duration) (rhs : UInt32) : Option Duration := do
  let totalNanos := d.nanos * rhs.toNat
  let extraSecs := UInt64.ofNat (totalNanos / nanosPerSec)
  let s ← u64CheckedMul d.secs rhs.toUInt64
  let secs ← u64CheckedAdd s extraSecs
  return { secs := secs, nanos := totalNanos % nanosPerSec,
           nanos_lt := Nat.mod_lt totalNanos (by decide) }

theorem le_iff_asNanos {a b : Duration} : a ≤ b ↔ a.asNanos ≤ b.asNanos := by
  have ha := a.nanos_lt
  have hb := b.nanos_lt
  show a.secs < b.secs ∨ a.secs = b.secs ∧ a.nanos ≤ b.nanos ↔ _
  rw [UInt64.lt_iff_toNat_lt, ← UInt64.toNat_inj]
  unfold asNanos nanosPerSec at *
  omega

/-- A duration is determined by its length. -/
theorem eq_of_asNanos_eq {a b : Duration} (h : a.asNanos = b.asNanos) : a = b := by
  have ha := a.nanos_lt
  have hb := b.nanos_lt
  unfold asNanos nanosPerSec at *
  have hsecs : a.secs = b.secs := UInt64.toNat_inj.mp (by omega)
  have hnanos : a.nanos = b.nanos := by rw [hsecs] at h; omega
  cases a
  cases b
  simp_all

theorem asNanos_min (a b : Duration) : (a.min b).asNanos = Nat.min a.asNanos b.asNanos := by
  unfold Duration.min
  by_cases h : a ≤ b
  · rw [if_pos h]
    exact (Nat.min_eq_left (le_iff_asNanos.mp h)).symm
  · rw [if_neg h]
    rw [le_iff_asNanos] at h
    exact (Nat.min_eq_right (by omega)).symm

theorem asNanos_lt (d : Duration) : d.asNanos < 2 ^ 64 * nanosPerSec := by
  have hsecs := d.secs.toNat_lt
  have hnanos := d.nanos_lt
  unfold asNanos nanosPerSec at *
  omega

/-- The whole and the fractional seconds of a product. -/
theorem asNanos_mul (d : Duration) (k : ℕ) :
    d.asNanos * k =
      (d.secs.toNat * k + d.nanos * k / nanosPerSec) * nanosPerSec +
        d.nanos * k % nanosPerSec := by
  have hdiv := Nat.div_add_mod (d.nanos * k) nanosPerSec
  calc d.asNanos * k = d.secs.toNat * k * nanosPerSec + d.nanos * k := by unfold asNanos; ring
    _ = d.secs.toNat * k * nanosPerSec +
          (nanosPerSec * (d.nanos * k / nanosPerSec) + d.nanos * k % nanosPerSec) := by rw [hdiv]
    _ = _ := by ring

/-- The seconds carried out of the nanoseconds fit a `u64`. -/
theorem toNat_extraSecs (d : Duration) (rhs : UInt32) :
    (UInt64.ofNat (d.nanos * rhs.toNat / nanosPerSec)).toNat =
      d.nanos * rhs.toNat / nanosPerSec := by
  have hnanos := d.nanos_lt
  have hrhs := rhs.toNat_lt
  have hle : d.nanos * rhs.toNat ≤ nanosPerSec * rhs.toNat := Nat.mul_le_mul_right _ hnanos.le
  have hdiv : d.nanos * rhs.toNat / nanosPerSec ≤ rhs.toNat :=
    Nat.div_le_of_le_mul hle
  rw [UInt64.toNat_ofNat']
  exact Nat.mod_eq_of_lt (by omega)

theorem u64CheckedMul_eq_some {a b c : UInt64} (h : u64CheckedMul a b = some c) :
    c.toNat = a.toNat * b.toNat := by
  unfold u64CheckedMul at h
  split at h
  · rename_i hlt
    cases h
    rw [UInt64.toNat_mul, Nat.mod_eq_of_lt hlt]
  · cases h

theorem u64CheckedAdd_eq_some {a b c : UInt64} (h : u64CheckedAdd a b = some c) :
    c.toNat = a.toNat + b.toNat := by
  unfold u64CheckedAdd at h
  split at h
  · rename_i hlt
    cases h
    rw [UInt64.toNat_add, Nat.mod_eq_of_lt hlt]
  · cases h

/-- A checked product that succeeds is the exact product. -/
theorem asNanos_checkedMul {d r : Duration} {rhs : UInt32} (h : d.checkedMul rhs = some r) :
    r.asNanos = d.asNanos * rhs.toNat := by
  obtain ⟨s, hs, h⟩ := Option.bind_eq_some_iff.mp h
  obtain ⟨secs, hsecs, h⟩ := Option.bind_eq_some_iff.mp h
  cases h
  have hmul := u64CheckedMul_eq_some hs
  have hadd := u64CheckedAdd_eq_some hsecs
  rw [toNat_extraSecs, hmul, UInt32.toNat_toUInt64] at hadd
  rw [asNanos_mul, ← hadd]
  rfl

theorem le_of_u64CheckedMul_eq_none {a b : UInt64} (h : u64CheckedMul a b = none) :
    2 ^ 64 ≤ a.toNat * b.toNat := by
  unfold u64CheckedMul at h
  split at h
  · cases h
  · rename_i hlt
    exact Nat.le_of_not_lt hlt

theorem le_of_u64CheckedAdd_eq_none {a b : UInt64} (h : u64CheckedAdd a b = none) :
    2 ^ 64 ≤ a.toNat + b.toNat := by
  unfold u64CheckedAdd at h
  split at h
  · cases h
  · rename_i hlt
    exact Nat.le_of_not_lt hlt

/-- A checked product that fails is longer than every duration. -/
theorem lt_of_checkedMul_eq_none {d : Duration} {rhs : UInt32} (h : d.checkedMul rhs = none)
    (r : Duration) : r.asNanos < d.asNanos * rhs.toNat := by
  have hover : 2 ^ 64 ≤ d.secs.toNat * rhs.toNat + d.nanos * rhs.toNat / nanosPerSec := by
    cases hs : u64CheckedMul d.secs rhs.toUInt64 with
    | none =>
      have hmul := le_of_u64CheckedMul_eq_none hs
      rw [UInt32.toNat_toUInt64] at hmul
      exact Nat.le_add_right_of_le hmul
    | some s =>
      have hmul := u64CheckedMul_eq_some hs
      cases hadd : u64CheckedAdd s (UInt64.ofNat (d.nanos * rhs.toNat / nanosPerSec)) with
      | none =>
        have hle := le_of_u64CheckedAdd_eq_none hadd
        rwa [toNat_extraSecs, hmul, UInt32.toNat_toUInt64] at hle
      | some secs => simp [checkedMul, hs, hadd] at h
  calc r.asNanos < 2 ^ 64 * nanosPerSec := r.asNanos_lt
    _ ≤ (d.secs.toNat * rhs.toNat + d.nanos * rhs.toNat / nanosPerSec) * nanosPerSec :=
        Nat.mul_le_mul_right _ hover
    _ ≤ d.asNanos * rhs.toNat := by rw [asNanos_mul]; exact Nat.le_add_right _ _

end Duration

/-! ## `Backoff` -/

/-- `Backoff`. -/
structure Backoff where
  current : Duration
  initial : Duration
  max : Duration
deriving DecidableEq

namespace Backoff

/-- `Backoff::new`. -/
def new (initial max : Duration) : Backoff :=
  { current := initial, initial := initial, max := max }

/-- `next_delay` (lines 49–57): the delay, and the state left behind. -/
def nextDelay (b : Backoff) : Duration × Backoff :=
  let delay := b.current
  (delay, { b with current := ((b.current.checkedMul 2).getD b.max).min b.max })

/-- `reset` (lines 60–62). -/
def reset (b : Backoff) : Backoff := { b with current := b.initial }

/-- One call on a `Backoff`. -/
inductive Call where
  | nextDelay
  | reset
deriving DecidableEq

/-- The state after one call. -/
def call (b : Backoff) : Call → Backoff
  | .nextDelay => b.nextDelay.2
  | .reset => b.reset

/-- The state after a history of calls. -/
def after (b : Backoff) (calls : List Call) : Backoff := calls.foldl call b

/-- How many times `next_delay` was called since the construction or the last `reset`. -/
def attempts (calls : List Call) : ℕ :=
  calls.foldl (fun k c => match c with | .nextDelay => k + 1 | .reset => 0) 0

@[simp] theorem attempts_nil : attempts [] = 0 := rfl

@[simp] theorem attempts_concat_nextDelay (calls : List Call) :
    attempts (calls ++ [.nextDelay]) = attempts calls + 1 := by
  simp [attempts]

@[simp] theorem attempts_concat_reset (calls : List Call) :
    attempts (calls ++ [.reset]) = 0 := by
  simp [attempts]

theorem attempts_append_replicate (calls : List Call) (n : ℕ) :
    attempts (calls ++ List.replicate n .nextDelay) = attempts calls + n := by
  induction n with
  | zero => simp
  | succ n ih =>
    rw [List.replicate_succ', ← List.append_assoc, attempts_concat_nextDelay, ih]
    omega

/-- **One step of the schedule.** The next delay is the double of this one, or `max` if
    that is shorter: a product that overflows is longer than `max` too. -/
theorem asNanos_current_nextDelay (b : Backoff) :
    b.nextDelay.2.current.asNanos = min (b.current.asNanos * 2) b.max.asNanos := by
  simp only [nextDelay, Duration.asNanos_min]
  cases h : b.current.checkedMul 2 with
  | none =>
    have hover := Duration.lt_of_checkedMul_eq_none h b.max
    have htwo : (2 : UInt32).toNat = 2 := rfl
    rw [htwo] at hover
    show Nat.min b.max.asNanos b.max.asNanos = _
    rw [Nat.min_eq_right hover.le]
    exact Nat.min_self _
  | some r =>
    show Nat.min r.asNanos b.max.asNanos = _
    rw [Duration.asNanos_checkedMul h]
    rfl

/-- The bounds never change. -/
theorem call_bounds (b : Backoff) (c : Call) :
    (b.call c).initial = b.initial ∧ (b.call c).max = b.max := by
  cases c <;> exact ⟨rfl, rfl⟩

section Schedule

variable {initial max : Duration}

/-- The state after any history: the bounds it was built with, and the delay that the
    number of attempts since the last reset gives. -/
theorem after_spec (hle : initial ≤ max) (calls : List Call) :
    ((new initial max).after calls).initial = initial ∧
      ((new initial max).after calls).max = max ∧
      ((new initial max).after calls).current.asNanos =
        min (initial.asNanos * 2 ^ attempts calls) max.asNanos := by
  have hmin : min initial.asNanos max.asNanos = initial.asNanos :=
    Nat.min_eq_left (Duration.le_iff_asNanos.mp hle)
  induction calls using List.reverseRecOn with
  | nil =>
    refine ⟨rfl, rfl, ?_⟩
    rw [attempts_nil, pow_zero, mul_one, hmin]
    rfl
  | append_singleton calls c ih =>
    obtain ⟨hinitial, hmax, hcurrent⟩ := ih
    have hstep : (new initial max).after (calls ++ [c]) =
        ((new initial max).after calls).call c := by
      simp [after]
    obtain ⟨hi, hm⟩ := call_bounds ((new initial max).after calls) c
    rw [hstep]
    refine ⟨hi.trans hinitial, hm.trans hmax, ?_⟩
    cases c with
    | nextDelay =>
      show ((new initial max).after calls).nextDelay.2.current.asNanos = _
      rw [asNanos_current_nextDelay, hcurrent, hmax, attempts_concat_nextDelay, pow_succ,
        ← mul_assoc]
      omega
    | reset =>
      show ((new initial max).after calls).initial.asNanos = _
      rw [hinitial, attempts_concat_reset, pow_zero, mul_one, hmin]

/-- The delay that the next call returns after a history. -/
def delayAfter (initial max : Duration) (calls : List Call) : Duration :=
  ((new initial max).after calls).nextDelay.1

theorem asNanos_delayAfter (hle : initial ≤ max) (calls : List Call) :
    (delayAfter initial max calls).asNanos =
      min (initial.asNanos * 2 ^ attempts calls) max.asNanos :=
  (after_spec hle calls).2.2

theorem delayAfter_mono (hle : initial ≤ max) {before later : List Call}
    (h : attempts before ≤ attempts later) :
    delayAfter initial max before ≤ delayAfter initial max later := by
  have hpow : initial.asNanos * 2 ^ attempts before ≤ initial.asNanos * 2 ^ attempts later :=
    Nat.mul_le_mul_left _ (Nat.pow_le_pow_right (by omega) h)
  rw [Duration.le_iff_asNanos, asNanos_delayAfter hle, asNanos_delayAfter hle]
  omega

/-- **The schedule.** After any history of calls, the delay of the attempt number `k` since
    the construction or the last reset is `min (initial * 2 ^ k) max`. So no delay exceeds
    `max`, the delays of attempts without a reset between them do not decrease, and from
    the first attempt that passes `max` on they are `max`. -/
theorem delayAfter_schedule (hle : initial ≤ max) (calls : List Call) :
    (delayAfter initial max calls).asNanos =
        min (initial.asNanos * 2 ^ attempts calls) max.asNanos ∧
      delayAfter initial max calls ≤ max ∧
      (∀ n, delayAfter initial max calls ≤
        delayAfter initial max (calls ++ List.replicate n .nextDelay)) ∧
      (max.asNanos ≤ initial.asNanos * 2 ^ attempts calls →
        ∀ n, delayAfter initial max (calls ++ List.replicate n .nextDelay) = max) := by
  have hdelay := asNanos_delayAfter hle calls
  refine ⟨hdelay, ?_, ?_, ?_⟩
  · rw [Duration.le_iff_asNanos, hdelay]
    exact Nat.min_le_right _ _
  · intro n
    apply delayAfter_mono hle
    rw [attempts_append_replicate]
    exact Nat.le_add_right _ _
  · intro hpast n
    apply Duration.eq_of_asNanos_eq
    rw [asNanos_delayAfter hle, attempts_append_replicate]
    have hpow : initial.asNanos * 2 ^ attempts calls ≤
        initial.asNanos * 2 ^ (attempts calls + n) :=
      Nat.mul_le_mul_left _ (Nat.pow_le_pow_right (by omega) (Nat.le_add_right _ _))
    omega

/-- A reset after one attempt, and delays near the limit of `Duration`: the second doubling
    after it overflows. -/
theorem delayAfter_schedule_limit :
    Duration.fromSecs 9000000000000000000 ≤ Duration.MAX ∧
      (delayAfter (Duration.fromSecs 9000000000000000000) Duration.MAX
        [.nextDelay, .reset, .nextDelay, .nextDelay]).asNanos =
          min ((Duration.fromSecs 9000000000000000000).asNanos * 2 ^ 2)
            Duration.MAX.asNanos ∧
      delayAfter (Duration.fromSecs 9000000000000000000) Duration.MAX
        [.nextDelay, .reset, .nextDelay, .nextDelay] = Duration.MAX :=
  have hle : Duration.fromSecs 9000000000000000000 ≤ Duration.MAX := by decide
  have h := delayAfter_schedule hle [.nextDelay, .reset, .nextDelay, .nextDelay]
  ⟨hle, h.1, h.2.2.2 (by decide) 0⟩

end Schedule

end Backoff

end Tx3Lift
