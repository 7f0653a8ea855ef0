import Tx3Lift.Tracker.Cursor
import Tx3Lift.Tracker.Resume

/-!
# Interrupted rollbacks

The upstream abandons the last blocks of its chain and sends an Undo for each of their
transactions; the session may be cut anywhere in between. An Undo drops the rows of one
transaction, but it moves the cursor past the whole block, so after the reconnect nothing
mentions the abandoned block any more.

* `Rollback.rollback_rows`: where the rows after the rollback come from.
* `rollback_canonical_iff`: all rows are of canonical blocks exactly when nothing that was
  not undone has rows.
* `Rollback.rollback_complete`: a rollback that is not cut leaves canonical rows.
-/

namespace Tx3Lift

open Lib

/-- A tracker that followed `stream`, and a rollback of the last blocks of it. -/
structure Rollback (D : Deps) (cfg : Config) (specialized : List SpecializedTii) where
  stream : ChainStream D.toPallas
  base : List (Delivery D.toPallas)
  fork : List (Delivery D.toPallas)
  split : stream.deliveries = base ++ fork
  /-- What was handled before the rollback. -/
  history : List (Option Action)
  legal : LegalHistory D cfg specialized history
  followed : liveTxs history = stream.events
  /-- The Undo events: one for each transaction of `fork`, in some order. -/
  undos : List AnyChainTx
  undone : (undos.map AnyChainTx.txHash).Perm ((eventsOf fork).map AnyChainTx.txHash)
  /-- The blocks that take the place of `fork`. -/
  next : List MultiEraBlock
  replaced : ∀ d ∈ fork, ∀ b ∈ base.map Delivery.block ++ next, b.hash ≠ d.block.hash

/-- Every row carries slot and hash of a block of the chain. -/
def RowsCanonical (chain : List MultiEraBlock) (store : Store) : Prop :=
  ∀ row ∈ store.matchesTable, ∃ b ∈ chain,
    row.blockSlot = b.slot.toInt64 ∧ row.blockHash = b.hash.bytes

namespace Rollback

variable {D : Deps} {cfg : Config} {specialized : List SpecializedTii}
  (r : Rollback D cfg specialized)

/-- The chain after the rollback. -/
def canonical : List MultiEraBlock := r.base.map Delivery.block ++ r.next

/-- The Undo events that come before the session is cut. -/
def delivered (k : ℕ) : List (Option Action) :=
  (r.undos.take k).map fun anyTx => some (Action.undo anyTx)

/-- The responses from the rollback on: the Undo events that come before the session is cut, and
    the session after it. -/
def responses (k : ℕ) (post : List (Option Action)) : List (Option Action) :=
  r.delivered k ++ post

/-- All that happens to the tracker: it follows the chain, the session is cut after `k` Undo
    events, it reconnects and handles `post`. -/
def inputs (k : ℕ) (post : List (Option Action)) : List Input :=
  .connect :: (r.history ++ r.delivered k).map .action ++ .connect :: post.map .action

/-- The transactions of the abandoned blocks that are not undone match nothing. -/
def LeftoversMatchNothing (k : ℕ) (post : List (Option Action)) : Prop :=
  ∀ e ∈ eventsOf r.fork,
    (∀ anyTx, some (.undo anyTx) ∈ r.responses k post → anyTx.txHash ≠ e.txHash) →
    rowsOf D specialized cfg.mode e = []

theorem actionsOf_inputs (k : ℕ) (post : List (Option Action)) :
    actionsOf (r.inputs k post) = r.history ++ r.responses k post := by
  rw [inputs, List.cons_append, actionsOf_connect, actionsOf_append, actionsOf_actions,
    actionsOf_connect, actionsOf_actions, responses, List.append_assoc]

variable {r} {k : ℕ} {post : List (Option Action)} {t : Tracker}

/-- The rows after the rollback are replayed over the rows of the old chain. -/
theorem matches_replay (hP : D.toPallas.Lawful)
    (h : run (Tracker.step D cfg specialized) Tracker.fresh (r.inputs k post) = .ok t) :
    t.store.matchesTable = replayMatches D specialized cfg.mode
      (r.stream.events.flatMap (rowsOf D specialized cfg.mode)) (r.responses k post) := by
  have hrun := run_step_store h
  rw [actionsOf_inputs] at hrun
  obtain ⟨mid, hmid, hrest⟩ := run_append_ok.mp hrun
  have htable := run_eq_live hP r.legal.writes r.legal.once hmid
  rw [run_matches hrest, htable, r.followed]

/-- A row of an abandoned block stays unless its transaction is undone. -/
theorem leftover_stays (hP : D.toPallas.Lawful)
    (h : run (Tracker.step D cfg specialized) Tracker.fresh (r.inputs k post) = .ok t)
    {e : AnyChainTx} (he : e ∈ eventsOf r.fork)
    (hundo : ∀ anyTx, some (.undo anyTx) ∈ r.responses k post → anyTx.txHash ≠ e.txHash)
    {row : MatchesRow} (hrow : row ∈ rowsOf D specialized cfg.mode e) :
    row ∈ t.store.matchesTable := by
  rw [matches_replay hP h]
  refine mem_replay_of_mem (List.mem_flatMap.mpr ⟨e, ?_, hrow⟩) fun hdrop => ?_
  · rw [ChainStream.events, r.split, eventsOf_append]
    exact List.mem_append_right _ he
  · obtain ⟨anyTx, hmem, hhash⟩ := drop_mem_changes.mp hdrop
    exact hundo anyTx hmem (hhash.trans (rowsOf_txHash hP hrow).symm)

/-- Where the rows after the rollback come from: a block that was kept, an abandoned block whose
    transaction is not undone, or an Apply of the session after the cut. -/
theorem rollback_rows (hP : D.toPallas.Lawful)
    (h : run (Tracker.step D cfg specialized) Tracker.fresh (r.inputs k post) = .ok t)
    {row : MatchesRow} (hrow : row ∈ t.store.matchesTable) :
    (∃ e ∈ eventsOf r.base, row ∈ rowsOf D specialized cfg.mode e) ∨
      (∃ e ∈ eventsOf r.fork, row ∈ rowsOf D specialized cfg.mode e ∧
        ∀ anyTx, some (.undo anyTx) ∈ r.responses k post → anyTx.txHash ≠ e.txHash) ∨
      ∃ e, some (.apply e) ∈ post ∧ row ∈ rowsOf D specialized cfg.mode e := by
  rw [matches_replay hP h] at hrow
  rcases mem_replay hrow with ⟨hold, hno⟩ | ⟨g, rows, hput, hin⟩
  · obtain ⟨e, he, hin⟩ := List.mem_flatMap.mp hold
    rw [ChainStream.events, r.split, eventsOf_append] at he
    rcases List.mem_append.mp he with he | he
    · exact Or.inl ⟨e, he, hin⟩
    · refine Or.inr (Or.inl ⟨e, he, hin, fun anyTx hmem heq => hno ?_⟩)
      exact drop_mem_changes.mpr ⟨anyTx, hmem, heq.trans (rowsOf_txHash hP hin)⟩
  · obtain ⟨a, ha, hc⟩ := List.mem_filterMap.mp hput
    obtain ⟨e, rfl, -, rfl, -⟩ := changeOf_eq_put hc
    refine Or.inr (Or.inr ⟨e, ?_, hin⟩)
    rcases List.mem_append.mp ha with ha | ha
    · obtain ⟨anyTx, -, hundo⟩ := List.mem_map.mp ha
      cases hundo
    · exact ha

/-- Rows of delivered blocks carry their block. -/
theorem row_block (hP : D.toPallas.Lawful) {deliveries : List (Delivery D.toPallas)}
    {e : AnyChainTx} (he : e ∈ eventsOf deliveries) {row : MatchesRow}
    (hrow : row ∈ rowsOf D specialized cfg.mode e) :
    ∃ d ∈ deliveries, row.blockSlot = d.block.slot.toInt64 ∧
      row.blockHash = d.block.hash.bytes := by
  obtain ⟨d, hd, hde⟩ := List.mem_flatMap.mp he
  obtain ⟨tx, hc⟩ := d.carries hde
  obtain ⟨block, _, hc', -, -, hslot, hhash⟩ := mem_rowsOf hP hrow
  cases hc.decodes.symm.trans hc'.decodes
  exact ⟨d, hd, hslot, hhash⟩

/-- If all rows are canonical, nothing that is left over has rows. -/
theorem leftovers_of_canonical (hP : D.toPallas.Lawful)
    (h : run (Tracker.step D cfg specialized) Tracker.fresh (r.inputs k post) = .ok t)
    (hcanonical : RowsCanonical r.canonical t.store) : r.LeftoversMatchNothing k post := by
  intro e he hundo
  refine List.eq_nil_iff_forall_not_mem.mpr fun row hrow => ?_
  obtain ⟨d, hd, -, hblock⟩ := row_block hP he hrow
  obtain ⟨b, hb, -, hhash⟩ := hcanonical row (leftover_stays hP h he hundo hrow)
  exact r.replaced d hd b hb (Hash.ext_bytes (hhash.symm.trans hblock))

/-- If nothing that is left over has rows, all rows are canonical. -/
theorem canonical_of_leftovers (hP : D.toPallas.Lawful)
    (hpost : ∀ a ∈ post, OverChain D.toPallas r.canonical a)
    (h : run (Tracker.step D cfg specialized) Tracker.fresh (r.inputs k post) = .ok t)
    (hleft : r.LeftoversMatchNothing k post) : RowsCanonical r.canonical t.store := by
  intro row hrow
  rcases rollback_rows hP h hrow with ⟨e, he, hin⟩ | ⟨e, he, hin, hundo⟩ | ⟨e, he, hin⟩
  · obtain ⟨d, hd, hblock⟩ := row_block hP he hin
    exact ⟨d.block, List.mem_append_left _ (List.mem_map_of_mem hd), hblock⟩
  · rw [hleft e he hundo] at hin
    cases hin
  · obtain ⟨block, _, hc, -, -, hblock⟩ := mem_rowsOf hP hin
    exact ⟨block, hpost _ he block hc.decodes, hblock⟩

/-- A rollback that is not cut leaves canonical rows. -/
theorem rollback_complete (hP : D.toPallas.Lawful) (hk : r.undos.length ≤ k)
    (hpost : ∀ a ∈ post, OverChain D.toPallas r.canonical a)
    (h : run (Tracker.step D cfg specialized) Tracker.fresh (r.inputs k post) = .ok t) :
    RowsCanonical r.canonical t.store := by
  refine canonical_of_leftovers hP hpost h fun e he hundo => ?_
  have hmem : e.txHash ∈ r.undos.map AnyChainTx.txHash :=
    r.undone.symm.subset (List.mem_map_of_mem he)
  obtain ⟨anyTx, hany, heq⟩ := List.mem_map.mp hmem
  refine absurd heq (hundo anyTx (List.mem_append_left _ ?_))
  rw [delivered, List.take_of_length_le hk]
  exact List.mem_map_of_mem hany

end Rollback

/-- **Interrupted rollbacks.** After a rollback that is cut anywhere, and a session over the
    chain after it, all rows are of blocks of this chain, exactly when every transaction of the
    abandoned blocks that was not undone matches nothing. -/
theorem rollback_canonical_iff (D : Deps) (cfg : Config) (specialized : List SpecializedTii)
    (hP : D.toPallas.Lawful) (r : Rollback D cfg specialized) (k : ℕ)
    (post : List (Option Action)) (hpost : ∀ a ∈ post, OverChain D.toPallas r.canonical a)
    (t : Tracker)
    (h : run (Tracker.step D cfg specialized) Tracker.fresh (r.inputs k post) = .ok t) :
    RowsCanonical r.canonical t.store ↔ r.LeftoversMatchNothing k post :=
  ⟨Rollback.leftovers_of_canonical hP h, Rollback.canonical_of_leftovers hP hpost h⟩

/-! ## A sample rollback

Block `child`, with two transactions that match, is replaced by `rival`, which holds the
first of them. -/

/-- The sample chain after the rollback. -/
def rivalStream : ChainStream Sample.chainDeps.toPallas :=
  { deliveries := [Sample.parentDelivery, Sample.rivalDelivery]
    hashes := by decide
    txs := by decide }

/-- The rollback of `child`, last transaction first. -/
def sampleFork : Rollback Sample.chainDeps Sample.cfg [Sample.source] :=
  { stream := sampleStream
    base := [Sample.parentDelivery]
    fork := [Sample.childDelivery]
    split := rfl
    history := applies sampleStream.events
    legal := legal_applies sampleStream_handled
    followed := liveTxs_applies _
    undos := (eventsOf [Sample.childDelivery]).reverse
    undone := by
      rw [List.map_reverse]
      exact List.reverse_perm _
    next := [Sample.rival]
    replaced := by
      intro d hd b hb
      rw [List.mem_singleton.mp hd]
      simp only [List.map_cons, List.map_nil, List.cons_append, List.nil_append, List.mem_cons,
        List.not_mem_nil, or_false] at hb
      rcases hb with rfl | rfl <;> decide }

/-- What the upstream sends on the new chain from the cursor of the reconnect on. -/
def samplePost : List (Option Action) :=
  applies (eventsOf (rivalStream.deliveriesFrom [Sample.parent.point.blockRef]))

theorem samplePost_eq :
    samplePost = [some (.apply (Sample.envelope Sample.rivalBytes Sample.scriptTx))] := rfl

theorem samplePost_over :
    ∀ a ∈ samplePost, OverChain Sample.chainDeps.toPallas sampleFork.canonical a := by
  intro a ha
  rw [samplePost_eq, List.mem_singleton] at ha
  subst ha
  intro block h
  cases Sample.rival_carries.decodes.symm.trans h
  simp [Rollback.canonical, sampleFork]

set_option maxRecDepth 4000 in
/-- The session is cut after the first Undo. -/
theorem sampleFork_run : ∃ t, run (Tracker.step Sample.chainDeps Sample.cfg [Sample.source])
    Tracker.fresh (sampleFork.inputs 1 samplePost) = .ok t ∧
      t.request = some [Sample.parent.point.blockRef] := ⟨_, rfl, rfl⟩

theorem rollback_canonical_sample :
    ∃ t, run (Tracker.step Sample.chainDeps Sample.cfg [Sample.source]) Tracker.fresh
        (sampleFork.inputs 1 samplePost) = .ok t ∧
      (RowsCanonical sampleFork.canonical t.store ↔
        sampleFork.LeftoversMatchNothing 1 samplePost) := by
  obtain ⟨t, h, -⟩ := sampleFork_run
  exact ⟨t, h, rollback_canonical_iff Sample.chainDeps Sample.cfg [Sample.source]
    Sample.chainDeps_lawful sampleFork 1 samplePost samplePost_over t h⟩

set_option maxRecDepth 4000 in
/-- The reconnect asks for `parent`, and the new chain is delivered from there; the row of the
    transaction that was not undone still names `child`. -/
theorem stale_row_after_rollback :
    ∃ t, run (Tracker.step Sample.chainDeps Sample.cfg [Sample.source]) Tracker.fresh
        (sampleFork.inputs 1 samplePost) = .ok t ∧
      t.request = some [Sample.parent.point.blockRef] ∧
      ¬RowsCanonical sampleFork.canonical t.store := by
  obtain ⟨t, h, hrequest⟩ := sampleFork_run
  refine ⟨t, h, hrequest, fun hcanonical => ?_⟩
  obtain ⟨row, hrow⟩ : ∃ row, rowsOf Sample.chainDeps [Sample.source] Sample.cfg.mode
      (Sample.envelope Sample.childBytes Sample.scriptTx) = [row] := ⟨_, rfl⟩
  have hleft := Rollback.leftovers_of_canonical Sample.chainDeps_lawful h hcanonical
    (Sample.envelope Sample.childBytes Sample.scriptTx) (by simp [sampleFork, eventsOf,
      Sample.childDelivery]) ?_
  · rw [hrow] at hleft
    cases hleft
  · intro anyTx hmem
    have hany : anyTx = Sample.envelope Sample.childBytes Sample.scriptTx' := by
      rw [Rollback.responses, samplePost_eq] at hmem
      simpa [Rollback.delivered, sampleFork, eventsOf, Sample.childDelivery] using hmem
    rw [hany]
    decide

end Tx3Lift
