import Tx3Lift.Lib.Run
import Tx3Lift.Tracker.Process

/-!
# Sessions and the reconnect loop

Model of `run` and `stream_session` (`bin/tracker/src/main.rs`), with `is_transient` and
`intersect_block_refs` (`bin/tracker/src/upstream`). An `Attempt` is what one connection
attempt meets. The delays between attempts are left out: they do not touch the store.

`Tracker` is the same process in small steps: it (re)connects, or handles one response.

* `handleAction_store`: what handling one response can do to the store.
* `runLoop_reachable`: every run of the loop is a run of the small-step tracker.
-/

namespace Tx3Lift

open Lib

/-! ## Upstream vocabulary -/

/-- `tonic::Code`. -/
inductive Code where
  | ok | cancelled | unknown | invalidArgument | deadlineExceeded | notFound | alreadyExists
  | permissionDenied | resourceExhausted | failedPrecondition | aborted | outOfRange
  | unimplemented | internal | unavailable | dataLoss | unauthenticated
deriving DecidableEq

/-- `is_transient` (`upstream/retry.rs`, lines 14–26). -/
def isTransient : Code → Bool
  | .unknown | .unavailable | .aborted | .cancelled | .deadlineExceeded | .internal
  | .resourceExhausted => true
  | _ => false

/-- `watch::BlockRef`. -/
structure BlockRef where
  slot : UInt64
  hash : ByteBuf
  height : UInt64
deriving DecidableEq

/-- `watch_tx_response::Action`. -/
inductive Action where
  | apply (anyTx : AnyChainTx)
  | undo (anyTx : AnyChainTx)
  | idle (block : BlockRef)

/-- `Intersect` (`config.rs`). -/
inductive Intersect where
  | tip
  | point (slot : UInt64) (hash : String)

/-- `Config`: the resume point and the mode. -/
structure Config where
  intersect : Intersect
  mode : MatchMode

/-- The default configuration. -/
def Sample.cfg : Config := { intersect := .tip, mode := .all }

/-- `intersect_block_refs` (`upstream/mod.rs`, lines 72–80). -/
def intersectBlockRefs : Intersect → Except TrackerError (List BlockRef)
  | .tip => return []
  | .point slot hash => do
    let bytes ← okOr (hexDecode hash.toList) .hex
    return [{ slot := slot, hash := bytes, height := 0 }]

/-- The `BlockRef` of a cursor (`main.rs`, lines 68–72). -/
def ChainPoint.blockRef (point : ChainPoint) : BlockRef :=
  { slot := point.slot, hash := point.hash.bytes, height := 0 }

/-- `intersect` of the next request (`main.rs`, lines 65–75). -/
def resumeIntersect (cfg : Config) (store : Store) : Except TrackerError (List BlockRef) :=
  match store.cursor with
  | some point => return [point.blockRef]
  | none => intersectBlockRefs cfg.intersect

/-! ## `stream_session` -/

/-- How a stream ends. -/
inductive StreamEnd where
  | shutdown
  | closed
  | status (code : Code)

/-- What one connection attempt meets. -/
inductive Attempt where
  | transportError
  | connectError (e : TrackerError)
  | subscribeError (code : Code)
  | streamed (actions : List (Option Action)) (ending : StreamEnd)

/-- `SessionOutcome`. -/
inductive SessionOutcome where
  | shutdown
  | reconnect

section Model

variable (D : Deps) (cfg : Config) (specialized : List SpecializedTii)

/-- The `match response.action` (lines 180–192). -/
def handleAction (store : Store) : Option Action → Except TrackerError Store
  | some (.apply anyTx) => applyTx D specialized cfg.mode store anyTx
  | some (.undo anyTx) => return undoTx D.toPallas store anyTx
  | some (.idle _) => return store
  | none => return store

/-- The loop of `stream_session` (lines 155–195). The store keeps what was written before an
    error. -/
def streamLoop (store : Store) (ending : StreamEnd) :
    List (Option Action) → Store × Except TrackerError SessionOutcome
  | [] =>
    match ending with
    | .shutdown => (store, return .shutdown)
    | .closed => (store, return .reconnect)
    | .status code => (store, if isTransient code then return .reconnect else throw .rpc)
  | action :: rest =>
    match handleAction D cfg specialized store action with
    | .ok store' => streamLoop store' ending rest
    | .error e => (store, .error e)

/-- `stream_session` (lines 124–196). -/
def streamSession (store : Store) : Attempt → Store × Except TrackerError SessionOutcome
  | .transportError => (store, return .reconnect)
  | .connectError e => (store, .error e)
  | .subscribeError code => (store, if isTransient code then return .reconnect else throw .rpc)
  | .streamed actions ending => streamLoop D cfg specialized store ending actions

/-- The loop of `run` (lines 62–105) over what the upstream does with each request; when the
    list ends, the tracker is shut down before its next attempt. -/
def runLoop (store : Store) : List (List BlockRef → Attempt) → Store × Except TrackerError Unit
  | [] => (store, return ())
  | attempt :: rest =>
    match resumeIntersect cfg store with
    | .error e => (store, .error e)
    | .ok intersect =>
      match streamSession D cfg specialized store (attempt intersect) with
      | (store', .error e) => (store', .error e)
      | (store', .ok .shutdown) => (store', return ())
      | (store', .ok .reconnect) => runLoop store' rest

/-! ## The tracker in small steps -/

/-- The database, and the intersect of the current subscription while there is one. -/
structure Tracker where
  store : Store
  request : Option (List BlockRef)

/-- A tracker that was never run. -/
def Tracker.fresh : Tracker := { store := Store.empty, request := none }

/-- What happens to a tracker. -/
inductive Input where
  | connect
  | action (a : Option Action)

/-- One input that is processed without error. -/
def Tracker.step (t : Tracker) : Input → Except TrackerError Tracker
  | .connect => do
    let intersect ← resumeIntersect cfg t.store
    return { t with request := some intersect }
  | .action a => do
    let store ← handleAction D cfg specialized t.store a
    return { t with store := store }

/-- One input: an error ends the process and leaves the database as it was. -/
def Tracker.next (t : Tracker) (i : Input) : Tracker :=
  match t.step D cfg specialized i with
  | .ok t' => t'
  | .error _ => { t with request := none }

end Model

/-! ## What a response can do to the store -/

section Store

variable {D : Deps} {cfg : Config} {specialized : List SpecializedTii}

/-- A response leaves the store alone, or is one of the two store transactions. -/
theorem handleAction_store {store store' : Store} {a : Option Action}
    (h : handleAction D cfg specialized store a = .ok store') :
    (store' = store ∧
        (∀ anyTx, a = some (.apply anyTx) → applyRows D specialized cfg.mode anyTx = .ok none) ∧
        ∀ anyTx, a = some (.undo anyTx) → anyTx.chain = none) ∨
      (∃ anyTx cursor rows, a = some (.apply anyTx) ∧
        applyRows D specialized cfg.mode anyTx = .ok (some (cursor, rows)) ∧
        store' = (store.applyBlock cursor rows).1) ∨
      ∃ anyTx cardanoTx, a = some (.undo anyTx) ∧ anyTx.chain = some cardanoTx ∧
        store' = (store.undoTx cardanoTx.hash (undoParent D.toPallas anyTx)).1 := by
  match a with
  | some (.apply anyTx) =>
    rcases applyTx_eq.mp h with ⟨hnone, heq⟩ | ⟨cursor, rows, happly, heq⟩
    · refine Or.inl ⟨heq, fun anyTx' hany => ?_, by simp⟩
      cases hany
      exact hnone
    · exact Or.inr (Or.inl ⟨anyTx, cursor, rows, rfl, happly, heq⟩)
  | some (.undo anyTx) =>
    have hs : undoTx D.toPallas store anyTx = store' := Except.ok.inj h
    rcases undoTx_eq D.toPallas store anyTx with ⟨hnone, heq⟩ | ⟨cardanoTx, hchain, heq⟩
    · refine Or.inl ⟨hs.symm.trans heq, by simp, fun anyTx' hany => ?_⟩
      cases hany
      exact hnone
    · exact Or.inr (Or.inr ⟨anyTx, cardanoTx, rfl, hchain, hs.symm.trans heq⟩)
  | some (.idle _) => exact Or.inl ⟨(Except.ok.inj h).symm, by simp, by simp⟩
  | none => exact Or.inl ⟨(Except.ok.inj h).symm, by simp, by simp⟩

theorem step_action {t t' : Tracker} {a : Option Action} :
    t.step D cfg specialized (.action a) = .ok t' ↔
      ∃ store, handleAction D cfg specialized t.store a = .ok store ∧
        t' = { t with store := store } := by
  cases h : handleAction D cfg specialized t.store a <;>
    simp [Tracker.step, h, bind, Except.bind, pure, Except.pure, eq_comm]

theorem step_connect {t t' : Tracker} :
    t.step D cfg specialized .connect = .ok t' ↔
      ∃ intersect, resumeIntersect cfg t.store = .ok intersect ∧
        t' = { t with request := some intersect } := by
  cases h : resumeIntersect cfg t.store <;>
    simp [Tracker.step, h, bind, Except.bind, pure, Except.pure, eq_comm]

/-- The responses among some inputs. -/
def actionsOf (inputs : List Input) : List (Option Action) :=
  inputs.filterMap fun i =>
    match i with
    | .connect => none
    | .action a => some a

theorem actionsOf_append (inputs inputs' : List Input) :
    actionsOf (inputs ++ inputs') = actionsOf inputs ++ actionsOf inputs' :=
  List.filterMap_append

theorem actionsOf_connect (inputs : List Input) :
    actionsOf (.connect :: inputs) = actionsOf inputs := rfl

theorem actionsOf_actions (es : List (Option Action)) : actionsOf (es.map .action) = es := by
  induction es with
  | nil => rfl
  | cons a es ih => exact congrArg (a :: ·) ih

/-- A run of the tracker is a run of its responses over the store. -/
theorem run_step_store {inputs : List Input} {t t' : Tracker}
    (h : run (Tracker.step D cfg specialized) t inputs = .ok t') :
    run (handleAction D cfg specialized) t.store (actionsOf inputs) = .ok t'.store := by
  induction inputs generalizing t with
  | nil => cases h; rfl
  | cons i inputs ih =>
    obtain ⟨mid, hmid, hrest⟩ := run_cons_ok.mp h
    cases i with
    | connect =>
      obtain ⟨intersect, -, rfl⟩ := step_connect.mp hmid
      have hsame := ih hrest
      exact hsame
    | action a =>
      obtain ⟨store, hstore, rfl⟩ := step_action.mp hmid
      exact run_cons_ok.mpr ⟨store, hstore, ih hrest⟩

/-- The stores of the small-step tracker. -/
theorem next_action_store (t : Tracker) (a : Option Action) :
    (t.next D cfg specialized (.action a)).store =
      (handleAction D cfg specialized t.store a).toOption.getD t.store := by
  cases h : handleAction D cfg specialized t.store a <;>
    simp [Tracker.next, Tracker.step, h, bind, Except.bind, pure, Except.pure, Except.toOption]

theorem next_connect_store (t : Tracker) :
    (t.next D cfg specialized .connect).store = t.store := by
  cases h : resumeIntersect cfg t.store <;>
    simp [Tracker.next, Tracker.step, h, bind, Except.bind, pure, Except.pure]

/-- The stream loop handles a prefix of its responses. -/
theorem streamLoop_reachable (ending : StreamEnd) :
    ∀ (actions : List (Option Action)) (t : Tracker), ∃ inputs : List Input,
      (streamLoop D cfg specialized t.store ending actions).1 =
        (inputs.foldl (Tracker.next D cfg specialized) t).store := by
  intro actions
  induction actions with
  | nil => intro t; exact ⟨[], by cases ending <;> rfl⟩
  | cons a actions ih =>
    intro t
    rw [streamLoop]
    have hstore : (t.next D cfg specialized (.action a)).store = _ := next_action_store t a
    cases h : handleAction D cfg specialized t.store a with
    | error e => exact ⟨[], rfl⟩
    | ok store' =>
      obtain ⟨inputs, hinputs⟩ := ih (t.next D cfg specialized (.action a))
      rw [hstore, h] at hinputs
      exact ⟨.action a :: inputs, hinputs⟩

/-- **The loop in small steps.** Whatever the upstream does, the loop leaves a store that the
    small-step tracker reaches. -/
theorem runLoop_reachable :
    ∀ (attempts : List (List BlockRef → Attempt)) (t : Tracker), ∃ inputs : List Input,
      (runLoop D cfg specialized t.store attempts).1 =
        (inputs.foldl (Tracker.next D cfg specialized) t).store := by
  intro attempts
  induction attempts with
  | nil => intro t; exact ⟨[], rfl⟩
  | cons attempt attempts ih =>
    intro t
    have hconnect : (t.next D cfg specialized .connect).store = t.store := next_connect_store t
    rw [runLoop]
    cases hr : resumeIntersect cfg t.store with
    | error e => exact ⟨[], rfl⟩
    | ok intersect =>
      have hsession : ∃ inputs : List Input,
          (streamSession D cfg specialized t.store (attempt intersect)).1 =
            ((.connect :: inputs).foldl (Tracker.next D cfg specialized) t).store := by
        rw [← hconnect]
        cases attempt intersect with
        | streamed actions ending => exact streamLoop_reachable ending actions _
        | transportError => exact ⟨[], rfl⟩
        | connectError e => exact ⟨[], rfl⟩
        | subscribeError code => exact ⟨[], rfl⟩
      obtain ⟨inputs, hinputs⟩ := hsession
      rcases hs : streamSession D cfg specialized t.store (attempt intersect) with ⟨store', outcome⟩
      rw [hs] at hinputs
      simp only [hs]
      match outcome with
      | .error e => exact ⟨.connect :: inputs, hinputs⟩
      | .ok .shutdown => exact ⟨.connect :: inputs, hinputs⟩
      | .ok .reconnect =>
        obtain ⟨more, hmore⟩ :=
          ih ((.connect :: inputs).foldl (Tracker.next D cfg specialized) t)
        refine ⟨.connect :: inputs ++ more, ?_⟩
        rw [List.foldl_append, ← hmore, ← hinputs]

end Store

end Tx3Lift
