import Tx3Lift.Tracker.Service

/-!
# The end of the process

The process over a database whose calls can fail. `Store::cursor`, `Store::apply_block` and
`Store::undo_tx` (`bin/tracker/src/store.rs`) return an error of SQLite or of the blocking task
that they run in, and `run` returns with it.

* `Service.stepWith_eq_ok`: an event does what it does on a working database, or its call fails.
* `run_of_running`: until the process ends, no call has failed.
* `process_ends_only_by`: why a process ends.
-/

namespace Tx3Lift

open Lib

/-! ## Model -/

/-- How a call of the store fails: `Error::Sqlite` or `Error::Join`. -/
inductive StoreFault where
  | sqlite (text : String)
  | join (text : String)

/-- `Error::from`, which `?` applies. -/
def StoreFault.error : StoreFault → TrackerError
  | .sqlite text => .sqlite text
  | .join text => .join text

/-- An event, and how the call of the store that it leads to fails, if it does. -/
structure Occurrence where
  event : ProcessEvent
  fault : Option StoreFault

section Calls

variable (D : Deps) (setup : Setup)

/-- Handling the response gets to `apply_block` (line 102 of `process.rs`) or `undo_tx`
    (line 127). -/
def callsStore : Option Action → Bool
  | some (.apply anyTx) =>
    match applyRows D setup.specialized setup.cfg.mode anyTx with
    | .ok (some _) => true
    | _ => false
  | some (.undo anyTx) => anyTx.chain.isSome
  | some (.idle _) => false
  | none => false

/-- The event leads to a call of the store; after a wait the cursor is read (line 65). -/
def ProcessEvent.callsStore : ProcessEvent → Bool
  | .message a => Tx3Lift.callsStore D setup a
  | .elapsed => true
  | _ => false

/-- One event. The transaction of a call that fails is rolled back when it is dropped. -/
def Service.stepWith (s : Service) (o : Occurrence) : Except NotNow Service := do
  let next ← s.step D setup o.event
  match o.fault with
  | none => return next
  | some fault =>
    if o.event.callsStore D setup then
      return { s with backoff := next.backoff, phase := .stopped (.error fault.error) }
    else throw .notNow

end Calls

/-- The process when it enters its loop, where it reads the cursor for the first time. -/
def startWith (setup : Setup) (store : Store) : Option StoreFault → Service
  | none => startService setup store
  | some fault =>
    { store := store, backoff := startBackoff, signalled := false
      phase := .stopped (.error fault.error) }

/-! ## One event -/

section Step

variable {D : Deps} {setup : Setup} {s s' : Service} {o : Occurrence}

/-- Everything that an event can do. -/
theorem Service.stepWith_eq_ok (h : s.stepWith D setup o = .ok s') :
    (o.fault = none ∧ s.step D setup o.event = .ok s') ∨
      ∃ fault, o.fault = some fault ∧ o.event.callsStore D setup = true ∧
        s'.phase = .stopped (.error fault.error) := by
  obtain ⟨next, hnext, h⟩ := Except.bind_eq_ok h
  cases hfault : o.fault with
  | none =>
    rw [hfault] at h
    cases h
    exact Or.inl ⟨rfl, hnext⟩
  | some fault =>
    rw [hfault] at h
    simp only at h
    split_ifs at h with hcalls
    cases h
    exact Or.inr ⟨fault, rfl, hcalls, rfl⟩

end Step

/-! ## Runs -/

section Runs

variable {D : Deps} {setup : Setup} {store : Store} {first : Option StoreFault}

/-- A process that has stopped takes no event. -/
theorem not_stopped_of_stepWith {s s' : Service} {o : Occurrence}
    (h : s.stepWith D setup o = .ok s') (outcome : Except TrackerError Unit) :
    s.phase ≠ .stopped outcome := by
  obtain ⟨next, hnext, -⟩ := Except.bind_eq_ok h
  exact (Service.step_eq_ok hnext).running outcome

/-- **No call has failed yet.** Until the process ends, it runs as on a database that works. -/
theorem run_of_running {os : List Occurrence} :
    ∀ {s : Service}, run (Service.stepWith D setup) (startWith setup store first) os = .ok s →
      (∀ fault : StoreFault, s.phase ≠ .stopped (.error fault.error)) →
      first = none ∧ (∀ o ∈ os, o.fault = none) ∧
        run (Service.step D setup) (startService setup store) (os.map Occurrence.event) = .ok s := by
  induction os using List.reverseRecOn with
  | nil =>
    intro s hrun hrunning
    cases hrun
    cases first with
    | none => exact ⟨rfl, by simp, rfl⟩
    | some fault => exact absurd rfl (hrunning fault)
  | append_singleton os o ih =>
    intro s hrun hrunning
    obtain ⟨before, hbefore, hstep⟩ := run_concat.mp hrun
    obtain ⟨hfirst, hnone, hplain⟩ := ih hbefore fun fault => not_stopped_of_stepWith hstep _
    rcases Service.stepWith_eq_ok hstep with ⟨hfault, hnext⟩ | ⟨fault, -, -, hphase⟩
    · refine ⟨hfirst, ?_, ?_⟩
      · intro o' ho'
        rcases List.mem_append.mp ho' with ho' | ho'
        · exact hnone o' ho'
        · rw [List.mem_singleton.mp ho']
          exact hfault
      · rw [List.map_append]
        exact run_concat.mpr ⟨before, hplain, hnext⟩
    · exact absurd hphase (hrunning fault)

end Runs

/-- The event at which the process stops with an error. -/
theorem Service.Moves.error {D : Deps} {setup : Setup} {last s : Service} {e : ProcessEvent}
    {err : TrackerError} (hmove : Service.Moves D setup last e s)
    (hphase : s.phase = .stopped (.error err)) :
    e.fatal = some err ∨
      (∃ a, e = .message a ∧
        handleAction D setup.cfg setup.specialized last.store a = .error err) ∨
      (e = .elapsed ∧ last.store.cursor = none ∧
        intersectBlockRefs setup.cfg.intersect = .error err) := by
  cases hmove with
  | signal hrunning => exact absurd hphase (hrunning _)
  | subscribed _ => cases hphase
  | received hstreaming hoff =>
    rename_i a
    refine Or.inr (Or.inl ⟨a, rfl, ?_⟩)
    cases ha : handleAction D setup.cfg setup.specialized last.store a with
    | ok store' =>
      simp only [Service.receive, ha] at hphase
      exact Phase.noConfusion (hstreaming.symm.trans hphase)
    | error err' =>
      simp only [Service.receive, ha] at hphase
      cases hphase
      rfl
  | interrupted _ _ => cases hphase
  | failed hfatal _ =>
    cases hphase
    exact Or.inl hfatal
  | elapsed _ _ => exact Or.inr (Or.inr ⟨rfl, resume_error_of_attempt hphase⟩)
  | shutdown _ _ => cases hphase

/-! ## Why a process ends -/

/-- Why a process ends with an error at `o`. -/
def EndsAt (D : Deps) (setup : Setup) (last : Service) (o : Occurrence) (err : TrackerError) :
    Prop :=
  (∃ fault, o.fault = some fault ∧ o.event.callsStore D setup = true ∧ fault.error = err) ∨
  o.fault = none ∧ (o.event.fatal = some err ∨
    (∃ a, o.event = .message a ∧
      handleAction D setup.cfg setup.specialized last.store a = .error err) ∨
    (o.event = .elapsed ∧ last.store.cursor = none ∧
      intersectBlockRefs setup.cfg.intersect = .error err))

/-- **Why a process ends.** It ends without error only after the signal. It ends with an error only
    at once, when the cursor cannot be read, or there is none and the configured intersect does not
    decode; or by its last event: a call of the store that fails, a failure that is not transient, a
    response that cannot be handled, or the end of a wait, if an Undo has cleared the cursor and the
    configured intersect does not decode. -/
theorem process_ends_only_by (D : Deps) (setup : Setup) (store : Store) (first : Option StoreFault)
    (os : List Occurrence) (s : Service)
    (hrun : run (Service.stepWith D setup) (startWith setup store first) os = .ok s)
    (outcome : Except TrackerError Unit) (hphase : s.phase = .stopped outcome) :
    (outcome = .ok () ∧ ∃ o ∈ os, o.event = .signal) ∨ ∃ err, outcome = .error err ∧
      ((os = [] ∧ ((∃ fault, first = some fault ∧ fault.error = err) ∨
          first = none ∧ store.cursor = none ∧
            intersectBlockRefs setup.cfg.intersect = .error err)) ∨
        ∃ before last o, os = before ++ [o] ∧ (∀ o ∈ before, o.fault = none) ∧
          run (Service.step D setup) (startService setup store) (before.map Occurrence.event) =
            .ok last ∧
          EndsAt D setup last o err) := by
  cases outcome with
  | ok _ =>
    have hplain := run_of_running hrun fun fault hstopped =>
      nomatch Phase.stopped.inj (hphase.symm.trans hstopped)
    have hjustified := (sound_of_run hplain.2.2).phase
    rw [hphase] at hjustified
    obtain ⟨o, ho, hsignal⟩ := List.mem_map.mp hjustified
    exact Or.inl ⟨rfl, o, ho, hsignal⟩
  | error err =>
    refine Or.inr ⟨err, rfl, ?_⟩
    rcases List.eq_nil_or_concat os with rfl | ⟨before, o, rfl⟩
    · have hstart : s = startWith setup store first := (Except.ok.inj hrun).symm
      rw [hstart] at hphase
      refine Or.inl ⟨rfl, ?_⟩
      cases first with
      | none => exact Or.inr ⟨rfl, resume_error_of_attempt hphase⟩
      | some fault =>
        cases hphase
        exact Or.inl ⟨fault, rfl, rfl⟩
    · rw [List.concat_eq_append] at hrun
      obtain ⟨last, hbefore, hstep⟩ := run_concat.mp hrun
      obtain ⟨-, hnone, hplain⟩ := run_of_running hbefore fun fault => not_stopped_of_stepWith hstep _
      refine Or.inr ⟨before, last, o, List.concat_eq_append, hnone, hplain, ?_⟩
      rcases Service.stepWith_eq_ok hstep with ⟨hfault, hnext⟩ | ⟨fault, hfault, hcalls, hstopped⟩
      · exact Or.inr ⟨hfault, (Service.step_eq_ok hnext).error hphase⟩
      · rw [hstopped] at hphase
        cases hphase
        exact Or.inl ⟨fault, hfault, hcalls, rfl⟩

/-- The write of an Apply finds the database locked. -/
def sampleFaulty : List Occurrence :=
  [{ event := .subscribed, fault := none },
   { event := .message (some (.apply (Sample.envelope Sample.childBytes Sample.scriptTx)))
     fault := some (.sqlite "database is locked") }]

set_option maxRecDepth 4000 in
theorem process_ends_only_by_sample :
    ∃ s outcome, run (Service.stepWith Sample.chainDeps sampleSetup)
        (startWith sampleSetup Store.empty none) sampleFaulty = .ok s ∧
      s.phase = .stopped outcome ∧
      ((outcome = .ok () ∧ ∃ o ∈ sampleFaulty, o.event = .signal) ∨
        ∃ err, outcome = .error err ∧
          ((sampleFaulty = [] ∧
              ((∃ fault, (none : Option StoreFault) = some fault ∧ fault.error = err) ∨
                (none : Option StoreFault) = none ∧ Store.empty.cursor = none ∧
                  intersectBlockRefs sampleSetup.cfg.intersect = .error err)) ∨
            ∃ before last o, sampleFaulty = before ++ [o] ∧ (∀ o ∈ before, o.fault = none) ∧
              run (Service.step Sample.chainDeps sampleSetup) (startService sampleSetup Store.empty)
                (before.map Occurrence.event) = .ok last ∧
              EndsAt Sample.chainDeps sampleSetup last o err)) := by
  obtain ⟨s, outcome, hrun, hphase⟩ : ∃ s outcome,
      run (Service.stepWith Sample.chainDeps sampleSetup) (startWith sampleSetup Store.empty none)
        sampleFaulty = .ok s ∧
      s.phase = .stopped outcome := ⟨_, _, rfl, rfl⟩
  exact ⟨s, outcome, hrun, hphase, process_ends_only_by Sample.chainDeps sampleSetup Store.empty
    none sampleFaulty s hrun outcome hphase⟩

end Tx3Lift
