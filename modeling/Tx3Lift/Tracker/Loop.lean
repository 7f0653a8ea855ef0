import Tx3Lift.Tracker.Service

/-!
# The process and the loop of sessions

`runLoop` takes one connection attempt after the other and knows nothing of waits, of the backoff
and of signals during a wait; `Service.step` takes one event after the other.

* `Finishes.back`: an event before the loop goes on is an event of one of its sessions.
* `reaches_attempt`: an attempt, and what follows it, as events.
* `process_is_runLoop`: both have the same ends, and leave the same databases.
-/

namespace Tx3Lift

open Lib

/-- What `run` does after a session, over the attempts that follow. -/
def conclude (D : Deps) (setup : Setup) (rest : List (List BlockRef → Attempt)) :
    Store × Except TrackerError SessionOutcome → Store × Except TrackerError Unit
  | (store, .error e) => (store, .error e)
  | (store, .ok .shutdown) => (store, .ok ())
  | (store, .ok .reconnect) => runLoop D setup.cfg setup.specialized store rest

/-- The process can end with this store and this result. -/
def Reaches (D : Deps) (setup : Setup) (s : Service) (result : Store × Except TrackerError Unit) :
    Prop :=
  ∃ es t, run (Service.step D setup) s es = .ok t ∧ t.store = result.1 ∧
    t.phase = .stopped result.2

/-- What the loop of sessions can give from here on. -/
def Finishes (D : Deps) (setup : Setup) (s : Service) (result : Store × Except TrackerError Unit) :
    Prop :=
  match s.phase with
  | .connecting _ => ∃ attempt rest, conclude D setup rest
      (streamSession D setup.cfg setup.specialized s.store attempt) = result
  | .streaming => ∃ actions ending rest, conclude D setup rest
      (streamLoop D setup.cfg setup.specialized s.store ending actions) = result
  | .waiting _ => ∃ attempts, runLoop D setup.cfg setup.specialized s.store attempts = result
  | .stopped outcome => (s.store, outcome) = result

section Loop

variable {D : Deps} {setup : Setup} {s s' : Service} {e : ProcessEvent}
  {result : Store × Except TrackerError Unit}

/-! ## From events to sessions -/

theorem runLoop_cons (store : Store) (attempt : List BlockRef → Attempt)
    (rest : List (List BlockRef → Attempt)) :
    runLoop D setup.cfg setup.specialized store (attempt :: rest) =
      match resumeIntersect setup.cfg store with
      | .error e => (store, .error e)
      | .ok intersect => conclude D setup rest
          (streamSession D setup.cfg setup.specialized store (attempt intersect)) := by
  rw [runLoop]
  cases resumeIntersect setup.cfg store with
  | error e => rfl
  | ok intersect =>
    rcases streamSession D setup.cfg setup.specialized store (attempt intersect) with
      ⟨store', _ | _ | _⟩ <;> rfl

/-- The top of the loop. -/
theorem finishes_attempt (h : Finishes D setup (s.attempt setup) result) :
    ∃ attempt rest, runLoop D setup.cfg setup.specialized s.store (attempt :: rest) = result := by
  rcases attempt_phase setup s with ⟨intersect, hintersect, heq⟩ | ⟨err, herr, heq⟩
  · rw [heq] at h
    obtain ⟨attempt, rest, h⟩ := h
    refine ⟨fun _ => attempt, rest, ?_⟩
    rw [runLoop_cons, hintersect]
    exact h
  · rw [heq] at h
    refine ⟨fun _ => .transportError, [], ?_⟩
    rw [runLoop_cons, herr]
    exact h

theorem Finishes.back (hmove : Service.Moves D setup s e s') (h : Finishes D setup s' result) :
    Finishes D setup s result := by
  unfold Finishes
  cases hmove with
  | signal _ => exact h
  | subscribed hphase =>
    rw [hphase]
    obtain ⟨actions, ending, rest, h⟩ := h
    exact ⟨.streamed actions ending, rest, h⟩
  | received hphase hoff =>
    rename_i a
    rw [hphase]
    unfold Service.receive at h
    cases ha : handleAction D setup.cfg setup.specialized s.store a with
    | ok store =>
      simp only [ha, Finishes, hphase] at h
      obtain ⟨actions, ending, rest, h⟩ := h
      refine ⟨a :: actions, ending, rest, ?_⟩
      rw [streamLoop, ha]
      exact h
    | error err =>
      rw [ha] at h
      refine ⟨[a], .closed, [], ?_⟩
      rw [streamLoop, ha]
      exact h
  | interrupted _ hphase =>
    obtain ⟨attempts, h⟩ := h
    rcases hphase with ⟨request, hphase⟩ | ⟨hphase, -⟩
    · rw [hphase]
      exact ⟨.transportError, attempts, h⟩
    · rw [hphase]
      exact ⟨[], .closed, attempts, h⟩
  | failed _ hphase =>
    rename_i err _
    rcases hphase with ⟨request, hphase⟩ | ⟨hphase, -, rfl⟩
    · rw [hphase]
      exact ⟨.connectError err, [], h⟩
    · rw [hphase]
      exact ⟨[], .status .invalidArgument, [], h⟩
  | elapsed hphase _ =>
    rw [hphase]
    obtain ⟨attempt, rest, h⟩ := finishes_attempt h
    exact ⟨attempt :: rest, h⟩
  | shutdown hphase _ =>
    rcases hphase with hphase | ⟨delay, hphase⟩
    · rw [hphase]
      exact ⟨[], .shutdown, [], h⟩
    · rw [hphase]
      exact ⟨[], h⟩

theorem finishes_of_reaches (h : Reaches D setup s result) : Finishes D setup s result := by
  obtain ⟨es, t, hrun, hstore, hphase⟩ := h
  induction es generalizing s with
  | nil =>
    cases hrun
    rw [Finishes, hphase]
    exact Prod.ext hstore rfl
  | cons e es ih =>
    obtain ⟨mid, hstep, hrest⟩ := run_cons_ok.mp hrun
    exact (ih hrest).back (Service.step_eq_ok hstep)

/-! ## From sessions to events -/

theorem Reaches.step (hstep : s.step D setup e = .ok s') (h : Reaches D setup s' result) :
    Reaches D setup s result := by
  obtain ⟨es, t, hrun, h⟩ := h
  exact ⟨e :: es, t, run_cons_ok.mpr ⟨s', hstep, hrun⟩, h⟩

theorem reaches_of_stopped {outcome : Except TrackerError Unit} (h : s.phase = .stopped outcome) :
    Reaches D setup s (s.store, outcome) := ⟨[], s, rfl, rfl, h⟩

/-- A process that listens to the signal can be stopped. -/
theorem reaches_of_listening (h : s.phase = .streaming ∨ ∃ delay, s.phase = .waiting delay) :
    Reaches D setup s (s.store, .ok ()) := by
  have hsignal : s.step D setup .signal = .ok { s with signalled := true } := by
    rcases h with h | ⟨delay, h⟩
    · simp only [Service.step, h]
      rfl
    · simp only [Service.step, h]
      rfl
  have hshutdown : ({ s with signalled := true } : Service).step D setup .shutdown =
      .ok (Service.stop (.ok ()) { s with signalled := true }) := by
    rcases h with h | ⟨delay, h⟩
    · simp only [Service.step, h]
      rfl
    · simp only [Service.step, h]
      rfl
  exact .step hsignal (.step hshutdown (reaches_of_stopped rfl))

/-- Every way on from a wait is possible. -/
def WaitsReach (D : Deps) (setup : Setup) (rest : List (List BlockRef → Attempt)) : Prop :=
  ∀ (s : Service) (delay : Duration), s.phase = .waiting delay → s.signalled = false →
    Reaches D setup s (runLoop D setup.cfg setup.specialized s.store rest)

/-- A call that fails with a status. -/
theorem reaches_of_failed {rest : List (List BlockRef → Attempt)} (hrest : WaitsReach D setup rest)
    (hoff : s.signalled = false) {code : Code} (hstep : s.step D setup e = .ok (s.failed code)) :
    Reaches D setup s (conclude D setup rest
      (s.store, if isTransient code then return .reconnect else throw .rpc)) := by
  refine .step hstep ?_
  unfold Service.failed
  by_cases h : isTransient code = true
  · rw [if_pos h, if_pos h]
    exact hrest s.reconnect _ rfl hoff
  · rw [if_neg h, if_neg h]
    exact reaches_of_stopped rfl

theorem reaches_streaming {rest : List (List BlockRef → Attempt)} (hrest : WaitsReach D setup rest)
    (ending : StreamEnd) (actions : List (Option Action)) (s : Service)
    (hphase : s.phase = .streaming) (hoff : s.signalled = false) :
    Reaches D setup s (conclude D setup rest
      (streamLoop D setup.cfg setup.specialized s.store ending actions)) := by
  induction actions generalizing s with
  | nil =>
    cases ending with
    | shutdown => exact reaches_of_listening (Or.inl hphase)
    | closed =>
      have hstep : s.step D setup .closed = .ok s.reconnect := by
        simp only [Service.step, hphase, hoff]
        rfl
      exact .step hstep (hrest s.reconnect _ rfl hoff)
    | status code =>
      have hstep : s.step D setup (.status code) = .ok (s.failed code) := by
        simp only [Service.step, hphase, hoff]
        rfl
      exact reaches_of_failed hrest hoff hstep
  | cons a actions ih =>
    have hstep : s.step D setup (.message a) = .ok (s.receive D setup a) := by
      simp only [Service.step, hphase, hoff]
      rfl
    rw [streamLoop]
    unfold Service.receive at hstep
    cases ha : handleAction D setup.cfg setup.specialized s.store a with
    | ok store =>
      rw [ha] at hstep
      exact .step hstep (ih _ hphase hoff)
    | error err =>
      rw [ha] at hstep
      exact .step hstep (reaches_of_stopped rfl)

theorem reaches_connecting {rest : List (List BlockRef → Attempt)} (hrest : WaitsReach D setup rest)
    (attempt : Attempt) (s : Service) {request : WatchTxRequest}
    (hphase : s.phase = .connecting request) (hoff : s.signalled = false) :
    Reaches D setup s (conclude D setup rest
      (streamSession D setup.cfg setup.specialized s.store attempt)) := by
  cases attempt with
  | transportError =>
    have hstep : s.step D setup .transportError = .ok s.reconnect := by
      simp only [Service.step, hphase]
      rfl
    exact .step hstep (hrest s.reconnect _ rfl hoff)
  | connectError err =>
    have hstep : s.step D setup (.connectError err) = .ok (s.stop (.error err)) := by
      simp only [Service.step, hphase]
      rfl
    exact .step hstep (reaches_of_stopped rfl)
  | subscribeError code =>
    have hstep : s.step D setup (.subscribeError code) = .ok (s.failed code) := by
      simp only [Service.step, hphase]
      rfl
    exact reaches_of_failed hrest hoff hstep
  | streamed actions ending =>
    have hstep : s.step D setup .subscribed = .ok { s with phase := .streaming } := by
      simp only [Service.step, hphase]
      rfl
    exact .step hstep (reaches_streaming hrest ending actions _ rfl hoff)

theorem reaches_attempt {rest : List (List BlockRef → Attempt)} (hrest : WaitsReach D setup rest)
    (attempt : List BlockRef → Attempt) (s : Service) (hoff : s.signalled = false) :
    Reaches D setup (s.attempt setup)
      (runLoop D setup.cfg setup.specialized s.store (attempt :: rest)) := by
  rw [runLoop_cons]
  rcases attempt_phase setup s with ⟨intersect, hintersect, heq⟩ | ⟨err, herr, heq⟩
  · rw [hintersect, heq]
    exact reaches_connecting hrest (attempt intersect) _ rfl hoff
  · rw [herr, heq]
    exact reaches_of_stopped rfl

theorem waitsReach (attempts : List (List BlockRef → Attempt)) : WaitsReach D setup attempts := by
  induction attempts with
  | nil => exact fun s delay hphase _ => reaches_of_listening (Or.inr ⟨delay, hphase⟩)
  | cons attempt rest ih =>
    intro s delay hphase hoff
    have hstep : s.step D setup .elapsed = .ok (s.attempt setup) := by
      simp only [Service.step, hphase, hoff]
      rfl
    exact .step hstep (reaches_attempt ih attempt s hoff)

end Loop

/-- **The process is the loop of sessions.** The ends of the process, with the database that they
    leave, are exactly those of the loop over attempts, waits and signals included. -/
theorem process_is_runLoop (D : Deps) (setup : Setup) (store store' : Store)
    (outcome : Except TrackerError Unit) :
    (∃ es s, run (Service.step D setup) (startService setup store) es = .ok s ∧ s.store = store' ∧
        s.phase = .stopped outcome) ↔
      ∃ attempt rest, runLoop D setup.cfg setup.specialized store (attempt :: rest) =
        (store', outcome) := by
  constructor
  · intro h
    have hreaches : Reaches D setup (startService setup store) (store', outcome) := h
    exact finishes_attempt (finishes_of_reaches hreaches)
  · rintro ⟨attempt, rest, h⟩
    have hreaches : Reaches D setup (startService setup store)
        (runLoop D setup.cfg setup.specialized store (attempt :: rest)) :=
      reaches_attempt (waitsReach rest) attempt _ rfl
    rwa [h] at hreaches

end Tx3Lift
