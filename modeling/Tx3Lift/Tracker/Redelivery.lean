import Tx3Lift.Lib.Cells
import Tx3Lift.Tracker.Replay

/-!
# Repeated and reordered delivery

The tracker read cell by cell: a response fills, clears or keeps the row of one key, and sets or
keeps the cursor. Whether it is handled at all does not depend on the store.

* `handleAction_anywhere`: a response that one store handles is handled by every store.
* `redelivery_harmless`: events that the upstream sends again from any earlier point, Undos
  included, leave the tracker where one pass would have brought it.
* `failing_response_blocks`: a response that fails once is never got past.
* `order_across_txs`: the table does not depend on how the events of different transactions are
  interleaved.
-/

namespace Tx3Lift

open Lib

section Cells

variable (D : Deps) (specialized : List SpecializedTii) (mode : MatchMode)

/-- What a response does to the row of a key. -/
def rowUpdate (key : ByteBuf × String) (a : Option Action) : Update MatchesRow :=
  match changeOf D specialized mode a with
  | some change => change.update MatchesRow.key key key.1
  | none => .keep

/-- What a response does to the row of the cursor. -/
def cursorUpdate : Option Action → Update (Int64 × ByteBuf)
  | some (.apply anyTx) =>
    match applyRows D specialized mode anyTx with
    | .ok (some (cursor, _)) => .set (some cursor.toRow)
    | _ => .keep
  | some (.undo anyTx) =>
    if anyTx.chain.isSome then .set ((undoParent D.toPallas anyTx).map ChainPoint.toRow) else .keep
  | _ => .keep

end Cells

section Runs

variable {D : Deps} {cfg : Config} {specialized : List SpecializedTii} {store store' : Store}

/-! ## One response -/

/-- Whether a response is handled does not depend on the store. -/
theorem handleAction_anywhere {a : Option Action}
    (h : handleAction D cfg specialized store a = .ok store') (other : Store) :
    ∃ other', handleAction D cfg specialized other a = .ok other' := by
  match a with
  | some (.apply anyTx) =>
    rcases applyTx_eq.mp h with ⟨happly, -⟩ | ⟨cursor, rows, happly, -⟩
    · exact ⟨other, applyTx_eq.mpr (Or.inl ⟨happly, rfl⟩)⟩
    · exact ⟨_, applyTx_eq.mpr (Or.inr ⟨cursor, rows, happly, rfl⟩)⟩
  | some (.undo anyTx) => exact ⟨_, rfl⟩
  | some (.idle _) => exact ⟨_, rfl⟩
  | none => exact ⟨_, rfl⟩

/-- Whether a response fails, and with which error, does not depend on the store. -/
theorem handleAction_fails_anywhere {a : Option Action} {e : TrackerError}
    (h : handleAction D cfg specialized store a = .error e) (other : Store) :
    handleAction D cfg specialized other a = .error e :=
  handleAction_eq_error.mpr (handleAction_eq_error.mp h)

theorem handleAction_row {a : Option Action}
    (h : handleAction D cfg specialized store a = .ok store') (key : ByteBuf × String) :
    rowOf MatchesRow.key key store'.matchesTable =
      (rowUpdate D specialized cfg.mode key a).apply
        (rowOf MatchesRow.key key store.matchesTable) := by
  have hgroup : ∀ row : MatchesRow, row.key = key → row.txHash = key.1 := by
    rintro row rfl
    rfl
  rw [handleAction_matches h, replayMatches, rowUpdate]
  cases hc : changeOf D specialized cfg.mode a with
  | none =>
    rw [List.filterMap_cons_none hc]
    rfl
  | some change =>
    rw [List.filterMap_cons_some hc]
    exact rowOf_change hgroup _ change

theorem handleAction_cursorRow {a : Option Action}
    (h : handleAction D cfg specialized store a = .ok store') :
    store'.cursorRow = (cursorUpdate D specialized cfg.mode a).apply store.cursorRow := by
  match a with
  | some (.apply anyTx) =>
    rcases applyTx_eq.mp h with ⟨happly, rfl⟩ | ⟨cursor, rows, happly, rfl⟩
    · simp only [cursorUpdate, happly]
      rfl
    · simp only [cursorUpdate, happly]
      rfl
  | some (.undo anyTx) =>
    have hs : undoTx D.toPallas store anyTx = store' := Except.ok.inj h
    rcases undoTx_eq D.toPallas store anyTx with ⟨hchain, heq⟩ | ⟨cardanoTx, hchain, heq⟩
    · rw [← hs, heq, cursorUpdate, hchain]
      rfl
    · rw [← hs, heq, cursorUpdate, hchain]
      rfl
  | some (.idle _) =>
    rw [← Except.ok.inj h]
    rfl
  | none =>
    rw [← Except.ok.inj h]
    rfl

/-! ## Runs -/

theorem run_row {es : List (Option Action)}
    (h : run (handleAction D cfg specialized) store es = .ok store') (key : ByteBuf × String) :
    rowOf MatchesRow.key key store'.matchesTable =
      es.foldl (fun cell a => (rowUpdate D specialized cfg.mode key a).apply cell)
        (rowOf MatchesRow.key key store.matchesTable) := by
  induction es generalizing store with
  | nil => cases h; rfl
  | cons a es ih =>
    obtain ⟨mid, hmid, hrest⟩ := run_cons_ok.mp h
    rw [ih hrest, handleAction_row hmid, List.foldl_cons]

theorem run_cursorRow {es : List (Option Action)}
    (h : run (handleAction D cfg specialized) store es = .ok store') :
    store'.cursorRow =
      es.foldl (fun cell a => (cursorUpdate D specialized cfg.mode a).apply cell)
        store.cursorRow := by
  induction es generalizing store with
  | nil => cases h; rfl
  | cons a es ih =>
    obtain ⟨mid, hmid, hrest⟩ := run_cons_ok.mp h
    rw [ih hrest, handleAction_cursorRow hmid, List.foldl_cons]

/-- If one store handles some responses in some order, every store handles them in any order and
    any number of times. -/
theorem run_anywhere {es es' : List (Option Action)}
    (h : run (handleAction D cfg specialized) store es = .ok store')
    (hsub : ∀ a ∈ es', a ∈ es) (other : Store) :
    ∃ other', run (handleAction D cfg specialized) other es' = .ok other' := by
  refine run_of_forall (fun a ha s => ?_) other
  obtain ⟨_, _, hstep⟩ := exists_step_of_run h a (hsub a ha)
  exact handleAction_anywhere hstep s

/-- Two stores that agree on the row of every key hold the same rows. -/
theorem matches_perm {s t : Store}
    (h : ∀ key, rowOf MatchesRow.key key s.matchesTable = rowOf MatchesRow.key key t.matchesTable) :
    s.matchesTable.Perm t.matchesTable :=
  perm_of_rowOf s.unique t.unique h

/-! ## Rewinds -/

/-- The rows and the cursor at the end of a delivery with rewinds. -/
theorem run_deliveries {start : Store} {log received : List (Option Action)}
    (hdelivered : Deliveries log received log.length)
    (honce : run (handleAction D cfg specialized) start log = .ok store)
    (hrun : run (handleAction D cfg specialized) start received = .ok store') :
    store'.matchesTable.Perm store.matchesTable ∧ store'.cursorRow = store.cursorRow := by
  refine ⟨matches_perm fun key => ?_, ?_⟩
  · rw [run_row hrun, run_row honce]
    exact (Update.absorbs.comap _).deliveries _ hdelivered
  · rw [run_cursorRow hrun, run_cursorRow honce]
    exact (Update.absorbs.comap _).deliveries _ hdelivered

end Runs

/-- **Redelivery is harmless.** Whatever the upstream sends again, from whichever earlier points
    and however often, also in the middle of a rollback: once it has reached the end of its log,
    the tracker holds the rows and the cursor that one pass over the log would have left. -/
theorem redelivery_harmless (D : Deps) (cfg : Config) (specialized : List SpecializedTii)
    (start store : Store) (log received : List (Option Action))
    (hdelivered : Deliveries log received log.length)
    (honce : run (handleAction D cfg specialized) start log = .ok store) :
    ∃ store', run (handleAction D cfg specialized) start received = .ok store' ∧
      store'.matchesTable.Perm store.matchesTable ∧ store'.cursor = store.cursor := by
  obtain ⟨store', hrun⟩ := run_anywhere honce hdelivered.mem start
  obtain ⟨hrows, hcursor⟩ := run_deliveries hdelivered honce hrun
  refine ⟨store', hrun, hrows, ?_⟩
  rw [Store.cursor, Store.cursor, hcursor]

/-- The rollback of the sample history is cut after its Undo, and the upstream starts over. -/
def sampleReceived : List (Option Action) :=
  sampleHistory.take 2 ++ sampleHistory

theorem sampleReceived_delivers : Deliveries sampleHistory sampleReceived sampleHistory.length := by
  have hcut : Deliveries sampleHistory (sampleHistory.take 2) 2 :=
    .next (.next .start rfl) rfl
  have hagain : Deliveries sampleHistory (sampleHistory.take 2) 0 := .rewind hcut (by decide)
  exact .next (.next (.next hagain rfl) rfl) rfl

theorem redelivery_harmless_sample :
    ∃ store store', run (handleAction Sample.chainDeps Sample.cfg [Sample.source]) Store.empty
        sampleHistory = .ok store ∧
      run (handleAction Sample.chainDeps Sample.cfg [Sample.source]) Store.empty sampleReceived =
        .ok store' ∧
      store'.matchesTable.Perm store.matchesTable ∧ store'.cursor = store.cursor := by
  obtain ⟨store, hrun⟩ := sampleHistory_legal.run_ok
  obtain ⟨store', hrun', hsame⟩ := redelivery_harmless Sample.chainDeps Sample.cfg [Sample.source]
    Store.empty store sampleHistory sampleReceived sampleReceived_delivers hrun
  exact ⟨store, store', hrun, hrun', hsame⟩

/-- **A response that fails blocks the stream for good.** It fails in every database, so however
    often the tracker is started again and whatever is sent again, what it has handled comes from
    before that response. -/
theorem failing_response_blocks (D : Deps) (cfg : Config) (specialized : List SpecializedTii)
    (log : List (Option Action)) (k : ℕ) (a : Option Action) (hlog : log[k]? = some a)
    (tried : Store) (e : TrackerError) (hfail : handleAction D cfg specialized tried a = .error e)
    (received : List (Option Action)) (pos : ℕ) (hdelivered : Deliveries log received pos)
    (start store : Store) (hrun : run (handleAction D cfg specialized) start received = .ok store) :
    pos ≤ k ∧ (∀ b ∈ received, b ∈ log.take k) ∧
      ∀ s, handleAction D cfg specialized s a = .error e := by
  have hno : a ∉ received := by
    intro hmem
    obtain ⟨s, t, hstep⟩ := exists_step_of_run hrun a hmem
    rw [handleAction_fails_anywhere hfail s] at hstep
    cases hstep
  obtain ⟨hpos, hmem⟩ := hdelivered.blocked hlog hno
  exact ⟨hpos, hmem, handleAction_fails_anywhere hfail⟩

/-- An Apply whose hash is not of 32 bytes. -/
def sampleBroken : AnyChainTx :=
  { chain := some { hash := [0x01], inputs := [], referenceInputs := [] }
    block := some { nativeBytes := Sample.childBytes } }

/-- The sample history with the broken Apply after its Undo; the tracker is started again once. -/
def sampleBrokenLog : List (Option Action) :=
  sampleHistory.take 2 ++ some (.apply sampleBroken) :: sampleHistory.drop 2

set_option maxRecDepth 4000 in
theorem failing_response_blocks_sample :
    ∃ e store, handleAction Sample.chainDeps Sample.cfg [Sample.source] Store.empty
        (some (.apply sampleBroken)) = .error e ∧
      run (handleAction Sample.chainDeps Sample.cfg [Sample.source]) Store.empty
        (sampleHistory.take 2 ++ sampleHistory.take 2) = .ok store ∧
      2 ≤ 2 ∧
      (∀ b ∈ sampleHistory.take 2 ++ sampleHistory.take 2, b ∈ sampleBrokenLog.take 2) ∧
      ∀ s, handleAction Sample.chainDeps Sample.cfg [Sample.source] s (some (.apply sampleBroken)) =
        .error e := by
  obtain ⟨e, hfail⟩ : ∃ e, handleAction Sample.chainDeps Sample.cfg [Sample.source] Store.empty
      (some (.apply sampleBroken)) = .error e := ⟨_, rfl⟩
  obtain ⟨store, hrun⟩ : ∃ store, run (handleAction Sample.chainDeps Sample.cfg [Sample.source])
      Store.empty (sampleHistory.take 2 ++ sampleHistory.take 2) = .ok store := ⟨_, rfl⟩
  have honce : Deliveries sampleBrokenLog (sampleHistory.take 2) 2 := .next (.next .start rfl) rfl
  have htwice : Deliveries sampleBrokenLog (sampleHistory.take 2 ++ sampleHistory.take 2) 2 :=
    .next (.next (.rewind honce (Nat.zero_le 2)) rfl) rfl
  exact ⟨e, store, hfail, hrun, failing_response_blocks Sample.chainDeps Sample.cfg [Sample.source]
    sampleBrokenLog 2 _ rfl Store.empty e hfail _ 2 htwice Store.empty store hrun⟩

/-! ## Interleavings -/

/-- The transaction hash that a response names. -/
def actionTx : Option Action → Option ByteBuf
  | some (.apply anyTx) => anyTx.txHash
  | some (.undo anyTx) => anyTx.txHash
  | _ => none

/-- The responses about one transaction, in order. -/
def actionsAbout (txHash : ByteBuf) (es : List (Option Action)) : List (Option Action) :=
  es.filter fun a => decide (actionTx a = some txHash)

section Interleavings

variable {D : Deps} {cfg : Config} {specialized : List SpecializedTii} {store store' : Store}

/-- A response about another transaction keeps the row of a key. -/
theorem rowUpdate_other (hP : D.toPallas.Lawful) {mode : MatchMode} {key : ByteBuf × String}
    {a : Option Action} (h : actionTx a ≠ some key.1) :
    rowUpdate D specialized mode key a = .keep := by
  unfold rowUpdate
  cases hc : changeOf D specialized mode a with
  | none => rfl
  | some change =>
    cases change with
    | put g rows =>
      obtain ⟨anyTx, rfl, -, rfl, -⟩ := changeOf_eq_put hc
      have hno : rowOf MatchesRow.key key (rowsOf D specialized mode anyTx) = none := by
        rw [rowOf_eq_none_iff]
        intro hmem
        obtain ⟨row, hrow, rfl⟩ := List.mem_map.mp hmem
        exact h (rowsOf_txHash hP hrow)
      simp only [Change.update, hno]
    | drop g =>
      obtain ⟨anyTx, rfl, hg⟩ := changeOf_eq_drop hc
      have hne : key.1 ≠ g := by
        rintro rfl
        exact h hg
      simp only [Change.update, if_neg hne]

/-- A response that names no transaction is handled and changes nothing. -/
theorem handleAction_of_unnamed {a : Option Action} (h : actionTx a = none) (s : Store) :
    handleAction D cfg specialized s a = .ok s := by
  match a with
  | some (.apply anyTx) =>
    have hchain : anyTx.chain = none := Option.map_eq_none_iff.mp h
    refine applyTx_eq.mpr (Or.inl ⟨?_, rfl⟩)
    rw [applyRows, hchain]
    rfl
  | some (.undo anyTx) =>
    have hchain : anyTx.chain = none := Option.map_eq_none_iff.mp h
    show Except.ok (undoTx D.toPallas s anyTx) = .ok s
    rw [undoTx, hchain]
  | some (.idle _) => rfl
  | none => rfl

/-- The row of a key after a run is decided by the responses about its transaction. -/
theorem run_row_about (hP : D.toPallas.Lawful) {es : List (Option Action)}
    (h : run (handleAction D cfg specialized) store es = .ok store') (key : ByteBuf × String) :
    rowOf MatchesRow.key key store'.matchesTable =
      (actionsAbout key.1 es).foldl
        (fun cell a => (rowUpdate D specialized cfg.mode key a).apply cell)
        (rowOf MatchesRow.key key store.matchesTable) := by
  rw [run_row h, actionsAbout, foldl_apply_filter]
  intro a ha
  exact rowUpdate_other hP (of_decide_eq_false ha)

end Interleavings

/-- **The order across transactions does not matter.** Two streams with the same responses in the
    same order about each single transaction, however these are interleaved, lead to the same
    rows, and if the tracker handles one of them it handles the other. -/
theorem order_across_txs (D : Deps) (hP : D.toPallas.Lawful) (cfg : Config)
    (specialized : List SpecializedTii) (start store : Store) (es es' : List (Option Action))
    (hsame : ∀ txHash, actionsAbout txHash es' = actionsAbout txHash es)
    (hrun : run (handleAction D cfg specialized) start es = .ok store) :
    ∃ store', run (handleAction D cfg specialized) start es' = .ok store' ∧
      store'.matchesTable.Perm store.matchesTable := by
  obtain ⟨store', hrun'⟩ : ∃ store', run (handleAction D cfg specialized) start es' =
      .ok store' := by
    refine run_of_forall (fun a ha s => ?_) start
    cases htx : actionTx a with
    | none => exact ⟨s, handleAction_of_unnamed htx s⟩
    | some txHash =>
      have hmem : a ∈ actionsAbout txHash es' :=
        List.mem_filter.mpr ⟨ha, decide_eq_true htx⟩
      rw [hsame] at hmem
      obtain ⟨_, _, hstep⟩ := exists_step_of_run hrun a (List.mem_filter.mp hmem).1
      exact handleAction_anywhere hstep s
  refine ⟨store', hrun', matches_perm fun key => ?_⟩
  rw [run_row_about hP hrun', run_row_about hP hrun, hsame]

/-- Neighbours that do not name the same transaction can change places. -/
theorem actionsAbout_swap {a b : Option Action} (h : actionTx a ≠ actionTx b) (txHash : ByteBuf)
    (es : List (Option Action)) :
    actionsAbout txHash (b :: a :: es) = actionsAbout txHash (a :: b :: es) := by
  unfold actionsAbout
  by_cases ha : actionTx a = some txHash
  · have hb : actionTx b ≠ some txHash := fun hb => h (ha.trans hb.symm)
    simp [ha, hb]
  · simp [List.filter_cons, ha]

set_option maxRecDepth 4000 in
/-- The two transactions of the sample block, in either order. -/
theorem order_across_txs_sample :
    ∃ store store', run (handleAction Sample.chainDeps Sample.cfg [Sample.source]) Store.empty
        (applies [Sample.envelope Sample.childBytes Sample.scriptTx,
          Sample.envelope Sample.childBytes Sample.scriptTx']) = .ok store ∧
      run (handleAction Sample.chainDeps Sample.cfg [Sample.source]) Store.empty
        (applies [Sample.envelope Sample.childBytes Sample.scriptTx',
          Sample.envelope Sample.childBytes Sample.scriptTx]) = .ok store' ∧
      store'.matchesTable.Perm store.matchesTable := by
  obtain ⟨store, hrun⟩ : ∃ store,
      run (handleAction Sample.chainDeps Sample.cfg [Sample.source]) Store.empty
        (applies [Sample.envelope Sample.childBytes Sample.scriptTx,
          Sample.envelope Sample.childBytes Sample.scriptTx']) = .ok store := ⟨_, rfl⟩
  obtain ⟨store', hrun', hperm⟩ := order_across_txs Sample.chainDeps Sample.chainDeps_lawful
    Sample.cfg [Sample.source] Store.empty store _
    (applies [Sample.envelope Sample.childBytes Sample.scriptTx',
      Sample.envelope Sample.childBytes Sample.scriptTx])
    (fun txHash => actionsAbout_swap (by decide) txHash []) hrun
  exact ⟨store, store', hrun, hrun', hperm⟩

end Tx3Lift
