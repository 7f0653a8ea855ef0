import Tx3Lift.Tracker.Backoff
import Tx3Lift.Tracker.Filter
import Tx3Lift.Tracker.Sources

/-!
# The process

Model of `run` and `stream_session` (`bin/tracker/src/main.rs`) as a machine that takes one event
of its surroundings after the other: with the requests it makes, the waits between them, and the
shutdown signal, which can arrive at any moment.

* `Service.step_eq_ok`: everything that one event can do.
* `requests_resume`: every request carries the compiled filter and the cursor that the messages
  received before it leave, wherever the sessions were cut.
* `waits_follow_backoff`: the length of every wait.
* `shutdown_is_prompt`: what can still happen after the signal.

The calls of the store do not fail here; `Tx3Lift.Tracker.Ending` adds that they can.
-/

namespace Tx3Lift

open Lib

/-! ## Model -/

/-- `WatchTxRequest`; its `field_mask` is `None`. -/
structure WatchTxRequest where
  predicate : Option TxPredicate
  intersect : List BlockRef

/-- What `run` has set up when it enters its loop. -/
structure Setup where
  cfg : Config
  specialized : List SpecializedTii
  predicate : Option TxPredicate

/-- Where the process stands. -/
inductive Phase where
  /-- in `connect` or `watch_tx` -/
  | connecting (request : WatchTxRequest)
  /-- in the loop of `stream_session` -/
  | streaming
  /-- in the `sleep` of `run` -/
  | waiting (delay : Duration)
  /-- `run` has returned -/
  | stopped (outcome : Except TrackerError Unit)

/-- The process; `signalled` is whether the task of `signal_listener` has ended. -/
structure Service where
  store : Store
  backoff : Backoff
  signalled : Bool
  phase : Phase

/-- What happens to the process. -/
inductive ProcessEvent where
  /-- SIGINT or SIGTERM, or no handler could be installed for SIGTERM -/
  | signal
  /-- `connect` fails with `Error::TonicTransport` -/
  | transportError
  /-- `connect` fails with another error -/
  | connectError (e : TrackerError)
  /-- `watch_tx` fails -/
  | subscribeError (code : Code)
  | subscribed
  /-- `stream.message()` is `Ok(Some(_))` -/
  | message (a : Option Action)
  /-- `stream.message()` is `Ok(None)` -/
  | closed
  /-- `stream.message()` is `Err(_)` -/
  | status (code : Code)
  /-- a `select!` finds that the signal has arrived -/
  | shutdown
  /-- the `sleep` ends -/
  | elapsed

/-- The event cannot happen now. -/
inductive NotNow where
  | notNow

namespace Service

variable (D : Deps) (setup : Setup)

/-- The top of the loop of `run` (lines 65–81). -/
def attempt (s : Service) : Service :=
  match resumeIntersect setup.cfg s.store with
  | .ok intersect =>
    { s with phase := .connecting { predicate := setup.predicate, intersect := intersect } }
  | .error e => { s with phase := .stopped (.error e) }

/-- The arm `SessionOutcome::Reconnect` (lines 95–97). -/
def reconnect (s : Service) : Service :=
  { s with backoff := s.backoff.nextDelay.2, phase := .waiting s.backoff.nextDelay.1 }

/-- `run` returns. -/
def stop (outcome : Except TrackerError Unit) (s : Service) : Service :=
  { s with phase := .stopped outcome }

/-- A failed call (lines 147–153 and 172–176). -/
def failed (s : Service) (code : Code) : Service :=
  if isTransient code then s.reconnect else s.stop (.error .rpc)

/-- A response of the stream (lines 161–193). -/
def receive (s : Service) (a : Option Action) : Service :=
  match handleAction D setup.cfg setup.specialized s.store a with
  | .ok store => { s with backoff := s.backoff.reset, store := store }
  | .error e => { s with backoff := s.backoff.reset, phase := .stopped (.error e) }

/-- One event. Both `select!` are biased: once the signal has arrived, they see nothing else. -/
def step (s : Service) (e : ProcessEvent) : Except NotNow Service :=
  match s.phase, e with
  | .stopped _, _ => throw .notNow
  | _, .signal => return { s with signalled := true }
  | .connecting _, .transportError => return s.reconnect
  | .connecting _, .connectError e => return s.stop (.error e)
  | .connecting _, .subscribeError code => return s.failed code
  | .connecting _, .subscribed => return { s with phase := .streaming }
  | .streaming, .shutdown => if s.signalled then return s.stop (.ok ()) else throw .notNow
  | .streaming, .message a => if s.signalled then throw .notNow else return s.receive D setup a
  | .streaming, .closed => if s.signalled then throw .notNow else return s.reconnect
  | .streaming, .status code => if s.signalled then throw .notNow else return s.failed code
  | .waiting _, .shutdown => if s.signalled then return s.stop (.ok ()) else throw .notNow
  | .waiting _, .elapsed => if s.signalled then throw .notNow else return s.attempt setup
  | _, _ => throw .notNow

end Service

/-- `Backoff::new(Duration::from_secs(1), Duration::from_secs(30))`. -/
def startBackoff : Backoff := Backoff.new (Duration.fromSecs 1) (Duration.fromSecs 30)

/-- The process when it enters its loop. -/
def startService (setup : Setup) (store : Store) : Service :=
  Service.attempt setup
    { store := store, backoff := startBackoff, signalled := false, phase := .streaming }

/-- `run` up to its loop, with the configuration and the database that it has opened
    (lines 43–51). -/
def setUp (T : Tx3) (D : Deps) (readTii : String → Except TrackerError TiiFile) (cfg : Config)
    (sources : List SourceConfig) (filter : UpstreamFilter) : Except TrackerError Setup := do
  let specialized ← specializeAll T D.bech32 readTii sources
  let predicate ← compile D.bech32 filter
  return { cfg := cfg, specialized := specialized, predicate := predicate }

/-! ## What happened so far -/

/-- The events after which `run` waits and connects again. -/
def ProcessEvent.interrupts : ProcessEvent → Bool
  | .transportError => true
  | .closed => true
  | .subscribeError code => isTransient code
  | .status code => isTransient code
  | _ => false

/-- The error with which an event ends the process. -/
def ProcessEvent.fatal : ProcessEvent → Option TrackerError
  | .connectError e => some e
  | .subscribeError code => if isTransient code then none else some .rpc
  | .status code => if isTransient code then none else some .rpc
  | _ => none

/-- What an event does to the backoff. -/
def ProcessEvent.call : ProcessEvent → Option Backoff.Call
  | .message _ => some .reset
  | e => if e.interrupts then some .nextDelay else none

def ProcessEvent.message? : ProcessEvent → Option (Option Action)
  | .message a => some a
  | _ => none

/-- The responses of all sessions, in order. -/
def messagesOf (es : List ProcessEvent) : List (Option Action) := es.filterMap ProcessEvent.message?

def callsOf (es : List ProcessEvent) : List Backoff.Call := es.filterMap ProcessEvent.call

/-- The interruptions since the last message. -/
def interruptionsOf (es : List ProcessEvent) : ℕ :=
  es.foldl (fun k e =>
    match e.call with
    | some .nextDelay => k + 1
    | some .reset => 0
    | none => k) 0

/-! ## One event -/

namespace Service

/-- Everything that an event can do. -/
inductive Moves (D : Deps) (setup : Setup) (s : Service) : ProcessEvent → Service → Prop
  | signal : (∀ outcome, s.phase ≠ .stopped outcome) →
      Moves D setup s .signal { s with signalled := true }
  | subscribed {request : WatchTxRequest} : s.phase = .connecting request →
      Moves D setup s .subscribed { s with phase := .streaming }
  | received {a : Option Action} : s.phase = .streaming → s.signalled = false →
      Moves D setup s (.message a) (s.receive D setup a)
  | interrupted {e : ProcessEvent} : e.interrupts = true →
      (∃ request, s.phase = .connecting request) ∨ s.phase = .streaming ∧ s.signalled = false →
      Moves D setup s e s.reconnect
  | failed {e : ProcessEvent} {err : TrackerError} : e.fatal = some err →
      (∃ request, s.phase = .connecting request) ∨
        s.phase = .streaming ∧ s.signalled = false ∧ err = .rpc →
      Moves D setup s e (s.stop (.error err))
  | elapsed {delay : Duration} : s.phase = .waiting delay → s.signalled = false →
      Moves D setup s .elapsed (s.attempt setup)
  | shutdown : s.phase = .streaming ∨ (∃ delay, s.phase = .waiting delay) → s.signalled = true →
      Moves D setup s .shutdown (s.stop (.ok ()))

section Step

variable {D : Deps} {setup : Setup} {s s' : Service} {e : ProcessEvent}

theorem moves_failed {code : Code} (he : e = .subscribeError code ∨ e = .status code)
    (hphase : (∃ request, s.phase = .connecting request) ∨
      s.phase = .streaming ∧ s.signalled = false) : Moves D setup s e (s.failed code) := by
  unfold failed
  by_cases h : isTransient code = true
  · rw [if_pos h]
    refine .interrupted ?_ hphase
    rcases he with rfl | rfl <;> exact h
  · rw [if_neg h]
    refine .failed ?_ (hphase.imp_right fun hphase => ⟨hphase.1, hphase.2, rfl⟩)
    rcases he with rfl | rfl <;> simp [ProcessEvent.fatal, h]

theorem step_eq_ok (h : s.step D setup e = .ok s') : Moves D setup s e s' := by
  unfold step at h
  split at h
  · cases h
  · rename_i hphase
    cases h
    exact .signal hphase
  · rename_i hphase
    cases h
    exact .interrupted rfl (Or.inl ⟨_, hphase⟩)
  · rename_i hphase
    cases h
    exact .failed rfl (Or.inl ⟨_, hphase⟩)
  · rename_i hphase
    cases h
    exact moves_failed (Or.inl rfl) (Or.inl ⟨_, hphase⟩)
  · rename_i hphase
    cases h
    exact .subscribed hphase
  · rename_i hphase
    split_ifs at h with hsignal
    cases h
    exact .shutdown (Or.inl hphase) hsignal
  · rename_i hphase
    split_ifs at h with hsignal
    cases h
    exact .received hphase (by simpa using hsignal)
  · rename_i hphase
    split_ifs at h with hsignal
    cases h
    exact .interrupted rfl (Or.inr ⟨hphase, by simpa using hsignal⟩)
  · rename_i hphase
    split_ifs at h with hsignal
    cases h
    exact moves_failed (Or.inr rfl) (Or.inr ⟨hphase, by simpa using hsignal⟩)
  · rename_i hphase
    split_ifs at h with hsignal
    cases h
    exact .shutdown (Or.inr ⟨_, hphase⟩) hsignal
  · rename_i hphase
    split_ifs at h with hsignal
    cases h
    exact .elapsed hphase (by simpa using hsignal)
  · cases h

end Step

end Service

/-! ## Every reachable state -/

section Events

variable (es : List ProcessEvent) {e : ProcessEvent} {a : Option Action}

theorem messagesOf_concat (e : ProcessEvent) :
    messagesOf (es ++ [e]) = messagesOf es ++ e.message?.toList := by
  rw [messagesOf, List.filterMap_append]
  cases h : e.message? with
  | none => rw [List.filterMap_cons_none h]; rfl
  | some a => rw [List.filterMap_cons_some h]; rfl

theorem callsOf_concat (e : ProcessEvent) : callsOf (es ++ [e]) = callsOf es ++ e.call.toList := by
  rw [callsOf, List.filterMap_append]
  cases h : e.call with
  | none => rw [List.filterMap_cons_none h]; rfl
  | some c => rw [List.filterMap_cons_some h]; rfl

theorem attempts_callsOf : Backoff.attempts (callsOf es) = interruptionsOf es := by
  rw [Backoff.attempts, callsOf, List.foldl_filterMap]
  refine List.foldl_ext _ _ _ fun k e _ => ?_
  cases e.call with
  | none => rfl
  | some c => cases c <;> rfl

theorem call_of_interrupts (h : e.interrupts = true) : e.call = some .nextDelay := by
  cases e <;> simp_all [ProcessEvent.call, ProcessEvent.interrupts]

theorem call_of_fatal {err : TrackerError} (h : e.fatal = some err) : e.call = none := by
  cases e <;> simp_all [ProcessEvent.call, ProcessEvent.interrupts, ProcessEvent.fatal]

theorem message?_of_interrupts (h : e.interrupts = true) : e.message? = none := by
  cases e <;> simp_all [ProcessEvent.message?, ProcessEvent.interrupts]

theorem message?_of_fatal {err : TrackerError} (h : e.fatal = some err) : e.message? = none := by
  cases e <;> simp_all [ProcessEvent.message?, ProcessEvent.fatal]

end Events

/-- Why the process is where it is after some events. -/
def Justified (setup : Setup) (store : Store) (es : List ProcessEvent) : Phase → Prop
  | .connecting request => request.predicate = setup.predicate ∧
      resumeIntersect setup.cfg store = .ok request.intersect
  | .streaming => True
  | .waiting delay => ∃ calls, callsOf es = calls ++ [.nextDelay] ∧
      delay = Backoff.delayAfter (Duration.fromSecs 1) (Duration.fromSecs 30) calls
  | .stopped (.ok ()) => ProcessEvent.signal ∈ es
  | .stopped (.error _) => True

/-- What holds of the process after some events. -/
structure Sound (D : Deps) (setup : Setup) (store : Store) (es : List ProcessEvent) (s : Service) :
    Prop where
  backoff : s.backoff = startBackoff.after (callsOf es)
  signalled : s.signalled = true ↔ ProcessEvent.signal ∈ es
  /-- all messages have been handled, except one that ended the process -/
  handled : (run (handleAction D setup.cfg setup.specialized) store (messagesOf es) = .ok s.store) ∨
    ∃ before a err, messagesOf es = before ++ [a] ∧
      run (handleAction D setup.cfg setup.specialized) store before = .ok s.store ∧
      handleAction D setup.cfg setup.specialized s.store a = .error err ∧
      s.phase = .stopped (.error err)
  phase : Justified setup s.store es s.phase

section Reachable

variable {D : Deps} {setup : Setup} {store : Store} {es : List ProcessEvent} {s s' : Service}
  {e : ProcessEvent}

theorem attempt_phase (setup : Setup) (s : Service) :
    (∃ intersect, resumeIntersect setup.cfg s.store = .ok intersect ∧
        s.attempt setup = { s with phase := .connecting ⟨setup.predicate, intersect⟩ }) ∨
      ∃ err, resumeIntersect setup.cfg s.store = .error err ∧
        s.attempt setup = s.stop (.error err) := by
  unfold Service.attempt
  cases h : resumeIntersect setup.cfg s.store with
  | ok intersect => exact Or.inl ⟨intersect, rfl, rfl⟩
  | error err => exact Or.inr ⟨err, rfl, rfl⟩

theorem resume_error_of_attempt {err : TrackerError}
    (h : (s.attempt setup).phase = .stopped (.error err)) :
    s.store.cursor = none ∧ intersectBlockRefs setup.cfg.intersect = .error err := by
  rcases attempt_phase setup s with ⟨intersect, hintersect, heq⟩ | ⟨err', herr, heq⟩
  · rw [heq] at h
    cases h
  · rw [heq] at h
    cases h
    unfold resumeIntersect at herr
    split at herr
    · cases herr
    · rename_i hcursor
      exact ⟨hcursor, herr⟩

theorem Service.Moves.running (h : Service.Moves D setup s e s') :
    ∀ outcome, s.phase ≠ .stopped outcome := by
  intro outcome hstopped
  cases h with
  | signal hphase => exact hphase outcome hstopped
  | subscribed hphase => exact Phase.noConfusion (hphase.symm.trans hstopped)
  | received hphase => exact Phase.noConfusion (hphase.symm.trans hstopped)
  | interrupted _ hphase =>
    rcases hphase with ⟨_, hphase⟩ | ⟨hphase, -⟩
    · exact Phase.noConfusion (hphase.symm.trans hstopped)
    · exact Phase.noConfusion (hphase.symm.trans hstopped)
  | failed _ hphase =>
    rcases hphase with ⟨_, hphase⟩ | ⟨hphase, -⟩
    · exact Phase.noConfusion (hphase.symm.trans hstopped)
    · exact Phase.noConfusion (hphase.symm.trans hstopped)
  | elapsed hphase => exact Phase.noConfusion (hphase.symm.trans hstopped)
  | shutdown hphase =>
    rcases hphase with hphase | ⟨_, hphase⟩
    · exact Phase.noConfusion (hphase.symm.trans hstopped)
    · exact Phase.noConfusion (hphase.symm.trans hstopped)

theorem Sound.handled_of_running (h : Sound D setup store es s)
    (hphase : ∀ outcome, s.phase ≠ .stopped outcome) :
    run (handleAction D setup.cfg setup.specialized) store (messagesOf es) = .ok s.store := by
  rcases h.handled with h | ⟨_, _, _, _, _, _, hstopped⟩
  · exact h
  · exact absurd hstopped (hphase _)

theorem sound_start : Sound D setup store [] (startService setup store) := by
  rcases attempt_phase setup
    { store := store, backoff := startBackoff, signalled := false, phase := .streaming } with
    ⟨intersect, hintersect, h⟩ | ⟨err, herr, h⟩
  · rw [startService, h]
    exact ⟨rfl, by simp, Or.inl rfl, rfl, hintersect⟩
  · rw [startService, h]
    exact ⟨rfl, by simp [Service.stop], Or.inl rfl, trivial⟩

theorem signal_mem_concat (he : e ≠ .signal) :
    ProcessEvent.signal ∈ es ++ [e] ↔ ProcessEvent.signal ∈ es := by
  rw [List.mem_append, List.mem_singleton]
  exact or_iff_left fun heq => he heq.symm

/-- The events that handle no message and leave the backoff alone. -/
theorem Sound.keep (h : Sound D setup store es s) (hmove : Service.Moves D setup s e s')
    (hmessage : e.message? = none) (hcall : e.call = none) (he : e ≠ .signal)
    (hstore : s'.store = s.store) (hbackoff : s'.backoff = s.backoff)
    (hsignalled : s'.signalled = s.signalled)
    (hphase : Justified setup s.store (es ++ [e]) s'.phase) :
    Sound D setup store (es ++ [e]) s' := by
  refine ⟨?_, ?_, Or.inl ?_, ?_⟩
  · rw [hbackoff, callsOf_concat, hcall, Option.toList_none, List.append_nil, h.backoff]
  · rw [hsignalled, h.signalled, signal_mem_concat he]
  · rw [messagesOf_concat, hmessage, Option.toList_none, List.append_nil, hstore]
    exact h.handled_of_running hmove.running
  · rw [hstore]
    exact hphase

theorem Sound.signal (h : Sound D setup store es s)
    (hphase : ∀ outcome, s.phase ≠ .stopped outcome) :
    Sound D setup store (es ++ [.signal]) { s with signalled := true } := by
  have hcalls : callsOf (es ++ [.signal]) = callsOf es := by
    rw [callsOf_concat]
    exact List.append_nil _
  refine ⟨hcalls ▸ h.backoff, by simp, Or.inl ?_, ?_⟩
  · rw [messagesOf_concat]
    exact (List.append_nil _).symm ▸ h.handled_of_running hphase
  · have hjustified := h.phase
    show Justified setup s.store (es ++ [.signal]) s.phase
    cases hs : s.phase with
    | connecting request =>
      rw [hs] at hjustified
      exact hjustified
    | streaming => trivial
    | waiting delay =>
      rw [hs] at hjustified
      rw [Justified, hcalls]
      exact hjustified
    | stopped outcome => exact absurd hs (hphase outcome)

theorem Sound.interrupted (h : Sound D setup store es s)
    (hmove : Service.Moves D setup s e s.reconnect) (he : e.interrupts = true) :
    Sound D setup store (es ++ [e]) s.reconnect := by
  have hcalls : callsOf (es ++ [e]) = callsOf es ++ [.nextDelay] := by
    rw [callsOf_concat, call_of_interrupts he]
    rfl
  have hne : e ≠ .signal := by
    rintro rfl
    cases he
  refine ⟨?_, ?_, Or.inl ?_, callsOf es, hcalls, ?_⟩
  · show s.backoff.nextDelay.2 = _
    rw [hcalls, h.backoff, Backoff.after, Backoff.after, List.foldl_append]
    rfl
  · rw [signal_mem_concat hne]
    exact h.signalled
  · rw [messagesOf_concat, message?_of_interrupts he, Option.toList_none, List.append_nil]
    exact h.handled_of_running hmove.running
  · rw [h.backoff]
    rfl

theorem Sound.received {a : Option Action} (h : Sound D setup store es s)
    (hphase : s.phase = .streaming) :
    Sound D setup store (es ++ [.message a]) (s.receive D setup a) := by
  have hrun : run (handleAction D setup.cfg setup.specialized) store (messagesOf es) =
      .ok s.store :=
    h.handled_of_running fun outcome hstopped => Phase.noConfusion (hphase.symm.trans hstopped)
  have hcalls : s.backoff.reset = startBackoff.after (callsOf (es ++ [.message a])) := by
    rw [callsOf_concat, h.backoff, Backoff.after, Backoff.after, List.foldl_append]
    rfl
  have hmem : s.signalled = true ↔ ProcessEvent.signal ∈ es ++ [.message a] := by
    rw [h.signalled, signal_mem_concat fun heq => ProcessEvent.noConfusion heq]
  unfold Service.receive
  cases ha : handleAction D setup.cfg setup.specialized s.store a with
  | ok store' =>
    refine ⟨hcalls, hmem, Or.inl ?_, ?_⟩
    · rw [messagesOf_concat]
      exact run_concat.mpr ⟨s.store, hrun, ha⟩
    · show Justified _ _ _ s.phase
      rw [hphase]
      trivial
  | error err =>
    exact ⟨hcalls, hmem, Or.inr ⟨messagesOf es, a, err, messagesOf_concat es _, hrun, ha, rfl⟩,
      trivial⟩

/-- **One event keeps the invariant.** -/
theorem Sound.step (h : Sound D setup store es s) (hstep : s.step D setup e = .ok s') :
    Sound D setup store (es ++ [e]) s' := by
  have hmove := Service.step_eq_ok hstep
  cases hmove with
  | signal hphase => exact h.signal hphase
  | subscribed hphase => exact h.keep (.subscribed hphase) rfl rfl (by simp) rfl rfl rfl trivial
  | received hphase _ => exact h.received hphase
  | interrupted he hphase => exact h.interrupted (.interrupted he hphase) he
  | failed he hphase =>
    have hne : e ≠ .signal := by
      rintro rfl
      cases he
    exact h.keep (.failed he hphase) (message?_of_fatal he) (call_of_fatal he) hne rfl rfl rfl
      trivial
  | elapsed hphase hsignal =>
    have hmove : Service.Moves D setup s .elapsed (s.attempt setup) := .elapsed hphase hsignal
    rcases attempt_phase setup s with ⟨intersect, hintersect, heq⟩ | ⟨err, herr, heq⟩
    · rw [heq] at hmove ⊢
      exact h.keep hmove rfl rfl (by simp) rfl rfl rfl ⟨rfl, hintersect⟩
    · rw [heq] at hmove ⊢
      exact h.keep hmove rfl rfl (by simp) rfl rfl rfl trivial
  | shutdown hphase hsignal =>
    exact h.keep (.shutdown hphase hsignal) rfl rfl (by simp) rfl rfl rfl
      (List.mem_append_left _ (h.signalled.mp hsignal))

/-- **Every reachable state is sound.** -/
theorem sound_of_run (h : run (Service.step D setup) (startService setup store) es = .ok s) :
    Sound D setup store es s := by
  refine run_induction (fun es s => Sound D setup store es s) sound_start ?_ es s List.prefix_rfl h
  exact fun _ _ _ _ _ _ hsound hstep => hsound.step hstep

end Reachable

/-- **Requests resume.** Whatever happened before, also over many sessions, a request carries the
    compiled filter, and it resumes from the cursor that the messages received so far leave when
    they are handled one after the other; without a cursor, from the configured point. -/
theorem requests_resume (T : Tx3) (D : Deps) (readTii : String → Except TrackerError TiiFile)
    (cfg : Config) (sources : List SourceConfig) (filter : UpstreamFilter) (setup : Setup)
    (hsetup : setUp T D readTii cfg sources filter = .ok setup) (store : Store)
    (es : List ProcessEvent) (s : Service)
    (hrun : run (Service.step D setup) (startService setup store) es = .ok s)
    (request : WatchTxRequest) (hphase : s.phase = .connecting request) :
    compile D.bech32 filter = .ok request.predicate ∧
      run (handleAction D cfg setup.specialized) store (messagesOf es) = .ok s.store ∧
      resumeIntersect cfg s.store = .ok request.intersect := by
  obtain ⟨specialized, -, h⟩ := Except.bind_eq_ok hsetup
  obtain ⟨predicate, hpredicate, h⟩ := Except.bind_eq_ok h
  cases h
  have hsound := sound_of_run hrun
  have hjustified := hsound.phase
  rw [hphase] at hjustified
  obtain ⟨rfl, hintersect⟩ := hjustified
  refine ⟨hpredicate, hsound.handled_of_running ?_, hintersect⟩
  exact fun outcome hstopped => Phase.noConfusion (hphase.symm.trans hstopped)

/-- An Undo sets the cursor, and the stream is closed. -/
def sampleEvents : List ProcessEvent :=
  [.subscribed, .message (some (.undo (Sample.envelope Sample.childBytes Sample.scriptTx))),
   .closed, .elapsed]

set_option maxRecDepth 4000 in
theorem requests_resume_sample :
    ∃ setup s request, setUp Sample.touchTx3 Sample.chainDeps Sample.readTouch Sample.cfg
        [Sample.sourceNamed "sample"] Sample.filter = .ok setup ∧
      run (Service.step Sample.chainDeps setup) (startService setup Store.empty) sampleEvents =
        .ok s ∧
      s.phase = .connecting request ∧
      compile Sample.bech32 Sample.filter = .ok request.predicate ∧
      run (handleAction Sample.chainDeps Sample.cfg setup.specialized) Store.empty
        (messagesOf sampleEvents) = .ok s.store ∧
      resumeIntersect Sample.cfg s.store = .ok request.intersect := by
  obtain ⟨setup, hsetup⟩ : ∃ setup, setUp Sample.touchTx3 Sample.chainDeps Sample.readTouch
      Sample.cfg [Sample.sourceNamed "sample"] Sample.filter = .ok setup := by
    have hall : specializeAll Sample.touchTx3 Sample.chainDeps.bech32 Sample.readTouch
      [Sample.sourceNamed "sample"] = .ok [Sample.source] := Sample.specializeAll_touch ["sample"]
    rw [setUp, hall]
    exact ⟨_, rfl⟩
  obtain ⟨s, request, hrun, hphase⟩ : ∃ s request, run (Service.step Sample.chainDeps setup)
      (startService setup Store.empty) sampleEvents = .ok s ∧ s.phase = .connecting request := by
    obtain ⟨_, hcfg⟩ : ∃ specialized predicate, setup = ⟨Sample.cfg, specialized, predicate⟩ := by
      rw [setUp] at hsetup
      obtain ⟨specialized, -, h⟩ := Except.bind_eq_ok hsetup
      obtain ⟨predicate, -, h⟩ := Except.bind_eq_ok h
      cases h
      exact ⟨_, _, rfl⟩
    obtain ⟨predicate, rfl⟩ := hcfg
    exact ⟨_, _, rfl, rfl⟩
  exact ⟨setup, s, request, hsetup, hrun, hphase, requests_resume Sample.touchTx3 Sample.chainDeps
    Sample.readTouch Sample.cfg [Sample.sourceNamed "sample"] Sample.filter setup hsetup Store.empty
    sampleEvents s hrun request hphase⟩

/-- **Waits follow the backoff.** An interruption never ends the process. It is followed by a wait
    of one second, doubled for each interruption since the last message and capped at thirty. -/
theorem waits_follow_backoff (D : Deps) (setup : Setup) (store : Store) (es : List ProcessEvent)
    (e : ProcessEvent) (s : Service)
    (hrun : run (Service.step D setup) (startService setup store) (es ++ [e]) = .ok s)
    (he : e.interrupts = true) :
    ∃ delay, s.phase = .waiting delay ∧
      delay.asNanos = min (1000000000 * 2 ^ interruptionsOf es) 30000000000 := by
  obtain ⟨before, hbefore, hstep⟩ := run_concat.mp hrun
  have hphase : s = before.reconnect := by
    have hmove := Service.step_eq_ok hstep
    cases hmove with
    | interrupted _ _ => rfl
    | failed hfatal _ => exact absurd (call_of_fatal hfatal) (by simp [call_of_interrupts he])
    | signal _ => cases he
    | subscribed _ => cases he
    | received _ _ => cases he
    | elapsed _ _ => cases he
    | shutdown _ _ => cases he
  refine ⟨before.backoff.nextDelay.1, by rw [hphase]; rfl, ?_⟩
  have hle : Duration.fromSecs 1 ≤ Duration.fromSecs 30 := by decide
  rw [(sound_of_run hbefore).backoff, ← attempts_callsOf]
  exact Backoff.asNanos_delayAfter hle (callsOf es)

/-- The sample source, without a filter. -/
def sampleSetup : Setup :=
  { cfg := Sample.cfg, specialized := [Sample.source], predicate := none }

theorem waits_follow_backoff_sample :
    ∃ s, run (Service.step Sample.chainDeps sampleSetup) (startService sampleSetup Store.empty)
        ([.transportError, .elapsed, .subscribed] ++ [.closed]) = .ok s ∧
      ∃ delay, s.phase = .waiting delay ∧ delay.asNanos = min (1000000000 * 2 ^ interruptionsOf
        [.transportError, .elapsed, .subscribed]) 30000000000 := by
  obtain ⟨s, hrun⟩ : ∃ s, run (Service.step Sample.chainDeps sampleSetup)
      (startService sampleSetup Store.empty)
      ([.transportError, .elapsed, .subscribed] ++ [.closed]) = .ok s := ⟨_, rfl⟩
  exact ⟨s, hrun,
    waits_follow_backoff Sample.chainDeps sampleSetup Store.empty _ .closed s hrun rfl⟩

/-! ## Shutdown -/

/-- How many events other than signals a process that has been signalled has taken at most. -/
def Phase.rank : Phase → ℕ
  | .connecting _ => 0
  | .streaming => 1
  | .waiting _ => 1
  | .stopped _ => 2

def ProcessEvent.isSignal : ProcessEvent → Bool
  | .signal => true
  | _ => false

/-- What holds after the signal. -/
structure Quiet (start : Service) (es : List ProcessEvent) (s : Service) : Prop where
  signalled : s.signalled = true
  store : s.store = start.store
  events : ∀ e ∈ es, e ≠ .elapsed ∧ ∀ a, e ≠ .message a
  count : (es.filter fun e => !e.isSignal).length ≤ s.phase.rank

section Shutdown

variable {D : Deps} {setup : Setup} {start s s' : Service} {es : List ProcessEvent}
  {e : ProcessEvent}

theorem Quiet.next (h : Quiet start es s) (hsignalled : s'.signalled = s.signalled)
    (hstore : s'.store = s.store) (he : e ≠ .elapsed ∧ ∀ a, e ≠ .message a)
    (hrank : s.phase.rank < s'.phase.rank) : Quiet start (es ++ [e]) s' := by
  refine ⟨hsignalled.trans h.signalled, hstore.trans h.store, ?_, ?_⟩
  · intro e' he'
    rcases List.mem_append.mp he' with he' | he'
    · exact h.events e' he'
    · rw [List.mem_singleton.mp he']
      exact he
  · have hle : (([e] : List ProcessEvent).filter fun e => !e.isSignal).length ≤ 1 :=
      List.length_filter_le _ _
    have hcount := h.count
    rw [List.filter_append, List.length_append]
    omega

theorem Quiet.step (h : Quiet start es s) (hstep : s.step D setup e = .ok s') :
    Quiet start (es ++ [e]) s' := by
  have hon := h.signalled
  have hmove := Service.step_eq_ok hstep
  cases hmove with
  | signal _ =>
    refine ⟨rfl, h.store, ?_, ?_⟩
    · intro e' he'
      rcases List.mem_append.mp he' with he' | he'
      · exact h.events e' he'
      · rw [List.mem_singleton.mp he']
        exact ⟨by simp, by simp⟩
    · rw [List.filter_append]
      simpa [ProcessEvent.isSignal] using h.count
  | subscribed hphase =>
    exact h.next rfl rfl ⟨by simp, by simp⟩ (by rw [hphase]; exact Nat.zero_lt_one)
  | received _ hoff => rw [hon] at hoff; cases hoff
  | interrupted he hphase =>
    rcases hphase with ⟨request, hphase⟩ | ⟨-, hoff⟩
    · refine h.next rfl rfl ⟨?_, ?_⟩ (by rw [hphase]; exact Nat.zero_lt_one)
      · rintro rfl
        cases he
      · rintro a rfl
        cases he
    · rw [hon] at hoff
      cases hoff
  | failed he hphase =>
    rcases hphase with ⟨request, hphase⟩ | ⟨-, hoff, -⟩
    · refine h.next rfl rfl ⟨?_, ?_⟩ (by rw [hphase]; exact Nat.zero_lt_two)
      · rintro rfl
        cases he
      · rintro a rfl
        cases he
    · rw [hon] at hoff
      cases hoff
  | elapsed _ hoff => rw [hon] at hoff; cases hoff
  | shutdown hphase _ =>
    refine h.next rfl rfl ⟨by simp, by simp⟩ ?_
    rcases hphase with hphase | ⟨delay, hphase⟩
    · rw [hphase]
      exact Nat.one_lt_two
    · rw [hphase]
      exact Nat.one_lt_two

/-- A process that has been signalled has stopped or can take an event that is not a signal. -/
theorem can_stop (hon : s.signalled = true) :
    (∃ outcome, s.phase = .stopped outcome) ∨ ∃ e s', e ≠ .signal ∧ s.step D setup e = .ok s' := by
  cases hphase : s.phase with
  | connecting request =>
    refine Or.inr ⟨.subscribed, { s with phase := .streaming }, by simp, ?_⟩
    simp only [Service.step, hphase]
    rfl
  | streaming =>
    refine Or.inr ⟨.shutdown, s.stop (.ok ()), by simp, ?_⟩
    simp only [Service.step, hphase, hon, if_true]
    rfl
  | waiting delay =>
    refine Or.inr ⟨.shutdown, s.stop (.ok ()), by simp, ?_⟩
    simp only [Service.step, hphase, hon, if_true]
    rfl
  | stopped outcome => exact Or.inl ⟨outcome, rfl⟩

end Shutdown

/-- **Shutdown is prompt.** After the signal no response is handled and no further attempt is made,
    the database stays as it is, and the process takes at most two more events, one of which it can
    always take until it has stopped. -/
theorem shutdown_is_prompt (D : Deps) (setup : Setup) (store : Store)
    (before after : List ProcessEvent) (s : Service)
    (hrun : run (Service.step D setup) (startService setup store) (before ++ .signal :: after) =
      .ok s) :
    (∃ atSignal, run (Service.step D setup) (startService setup store) before = .ok atSignal ∧
      s.store = atSignal.store) ∧
    (∀ e ∈ after, e ≠ .elapsed ∧ ∀ a, e ≠ .message a) ∧
    (after.filter fun e => !e.isSignal).length ≤ 2 ∧
    ((∃ outcome, s.phase = .stopped outcome) ∨
      ∃ e s', e ≠ .signal ∧ s.step D setup e = .ok s') := by
  obtain ⟨atSignal, hbefore, hrest⟩ := run_append_ok.mp hrun
  obtain ⟨signalled, hsignal, hafter⟩ := run_cons_ok.mp hrest
  have hset : signalled = { atSignal with signalled := true } := by
    have hmove := Service.step_eq_ok hsignal
    cases hmove with
    | signal _ => rfl
    | interrupted he _ => cases he
    | failed he _ => cases he
  have hquiet : Quiet signalled after s := by
    refine run_induction (fun es s => Quiet signalled es s) ?_ ?_ after s List.prefix_rfl hafter
    · exact ⟨by rw [hset], rfl, by simp, Nat.zero_le _⟩
    · exact fun _ _ _ _ _ _ h hstep => h.step hstep
  have hrank : s.phase.rank ≤ 2 := by
    cases s.phase <;> simp [Phase.rank]
  refine ⟨⟨atSignal, hbefore, ?_⟩, hquiet.events, hquiet.count.trans hrank,
    can_stop hquiet.signalled⟩
  rw [hquiet.store, hset]

set_option maxRecDepth 4000 in
theorem shutdown_is_prompt_sample :
    ∃ s, run (Service.step Sample.chainDeps sampleSetup) (startService sampleSetup Store.empty)
        (sampleEvents ++ .signal :: [.subscribed, .shutdown]) = .ok s ∧
      (∃ atSignal, run (Service.step Sample.chainDeps sampleSetup)
          (startService sampleSetup Store.empty) sampleEvents = .ok atSignal ∧
        s.store = atSignal.store) ∧
      (∀ e ∈ [ProcessEvent.subscribed, .shutdown], e ≠ .elapsed ∧ ∀ a, e ≠ .message a) ∧
      ([ProcessEvent.subscribed, .shutdown].filter fun e => !e.isSignal).length ≤ 2 ∧
      ((∃ outcome, s.phase = .stopped outcome) ∨
        ∃ e s', e ≠ .signal ∧ s.step Sample.chainDeps sampleSetup e = .ok s') := by
  obtain ⟨s, hrun⟩ : ∃ s, run (Service.step Sample.chainDeps sampleSetup)
      (startService sampleSetup Store.empty)
      (sampleEvents ++ .signal :: [.subscribed, .shutdown]) = .ok s := ⟨_, rfl⟩
  exact ⟨s, hrun, shutdown_is_prompt Sample.chainDeps sampleSetup Store.empty sampleEvents _ s hrun⟩

end Tx3Lift
