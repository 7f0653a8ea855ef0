import Tx3Lift.Tracker.Replay

/-!
# The cursor

What `docs/tracker-database.md` says about the resume point: it is never ahead of what is
persisted, it is the point of a block, and only a fresh database has none. Each statement
fails on some runs of the code, and holds exactly on the runs described here.

* `cursor_never_ahead_iff`: the cursor moves to a block with the first transaction of it,
  so the statement holds iff later transactions of a block match nothing.
* `cursor_real_iff`: an Undo writes the slot before its block, so the statement holds iff
  the parent is in that slot.
* `cursor_kept_iff`: an Undo without a parent deletes the cursor.
-/

namespace Tx3Lift

open Lib

/-! ## Never ahead of what is persisted -/

/-- If the stored cursor is the point of a block of the chain, the rows of all transactions of
    this block and of the blocks before it are stored. -/
def CursorCovered (D : Deps) (specialized : List SpecializedTii) (mode : MatchMode)
    (stream : ChainStream D.toPallas) (store : Store) : Prop :=
  ∀ before d after, stream.deliveries = before ++ d :: after →
    store.cursor = some d.block.point →
    ∀ e ∈ eventsOf before ++ d.events, ∀ row ∈ rowsOf D specialized mode e,
      row ∈ store.matchesTable

/-- In every block whose first transaction was handled, no later transaction has rows. -/
def OnlyFirstMatches (D : Deps) (specialized : List SpecializedTii) (mode : MatchMode)
    (stream : ChainStream D.toPallas) : Prop :=
  ∀ before d after first later, stream.deliveries = before ++ d :: after →
    d.events = first :: later →
    (∃ store,
      run (applyTx D specialized mode) Store.empty (eventsOf before ++ [first]) = .ok store) →
    ∀ e ∈ later, rowsOf D specialized mode e = []

section Covered

variable {D : Deps} {specialized : List SpecializedTii} {mode : MatchMode}
  {stream : ChainStream D.toPallas}

/-- If the cursor is never ahead, later transactions of a block have no rows. -/
theorem onlyFirst_of_covered (hP : D.toPallas.Lawful)
    (h : ∀ pre store, pre <+: stream.events →
      run (applyTx D specialized mode) Store.empty pre = .ok store →
      CursorCovered D specialized mode stream store) :
    OnlyFirstMatches D specialized mode stream := by
  intro before d after first later hsplit hevents ⟨store, hrun⟩ e he
  have hpre : eventsOf before ++ [first] <+: stream.events := by
    rw [eventsOf_split hsplit, hevents, List.prefix_append_right_inj]
    exact List.prefix_append [first] _
  obtain ⟨tx, hc⟩ : ∃ tx, Carries D.toPallas first d.block tx := d.carries (by simp [hevents])
  have hcursor := cursor_of_row (cursorRow_of_run hc hrun)
  -- a stored row of a later transaction would be of one of the transactions handled so far
  refine List.eq_nil_iff_forall_not_mem.mpr fun row hrow => ?_
  have hmem := h _ store hpre hrun before d after hsplit hcursor e (by simp [hevents, he]) row hrow
  rw [stream_matches hP hpre hrun] at hmem
  obtain ⟨e', he', hrow'⟩ := List.mem_flatMap.mp hmem
  have hsame : e'.txHash = e.txHash := (rowsOf_txHash hP hrow').trans (rowsOf_txHash hP hrow).symm
  have hnodup := stream.events_txHash
  rw [eventsOf_split hsplit, hevents, List.cons_append, List.append_cons,
    List.map_append] at hnodup
  exact (List.nodup_append.mp hnodup).2.2 _ (List.mem_map_of_mem he') _
    (List.mem_map_of_mem (List.mem_append_left _ he)) hsame

/-- If later transactions of a block have no rows, the cursor is never ahead. -/
theorem covered_of_onlyFirst (hP : D.toPallas.Lawful)
    (h : OnlyFirstMatches D specialized mode stream) {pre : List AnyChainTx} {store : Store}
    (hpre : pre <+: stream.events)
    (hrun : run (applyTx D specialized mode) Store.empty pre = .ok store) :
    CursorCovered D specialized mode stream store := by
  intro before d after hsplit hcursor e he row hrow
  rw [stream_matches hP hpre hrun]
  rcases stream_cursor hpre hrun with ⟨-, rfl⟩ | ⟨before', d', after', part, hsplit', hne, rfl,
    hpart, hcursor'⟩
  · cases hcursor
  · have hpoint : d.block.point = d'.block.point :=
      Option.some.inj (hcursor.symm.trans (cursor_of_row hcursor'))
    obtain ⟨rfl, rfl⟩ := split_unique hsplit hsplit' (congrArg ChainPoint.hash hpoint)
    rw [List.flatMap_append]
    rcases List.mem_append.mp he with he | he
    · exact List.mem_append_left _ (List.mem_flatMap.mpr ⟨e, he, hrow⟩)
    · obtain ⟨first, rest, rfl⟩ := List.exists_cons_of_ne_nil hne
      obtain ⟨later, hlater⟩ := hpart
      rw [← hlater, List.cons_append] at he
      rcases List.mem_cons.mp he with rfl | he
      · exact List.mem_append_right _ (List.mem_flatMap.mpr ⟨e, by simp, hrow⟩)
      · have hfirst : eventsOf before ++ [first] <+: eventsOf before ++ first :: rest :=
          (List.prefix_append_right_inj _).mpr (List.prefix_append [first] rest)
        rw [h before d after first (rest ++ later) hsplit hlater.symm
          (run_passes hrun hfirst) e he] at hrow
        cases hrow

end Covered

/-- **The cursor and what is persisted.** While a chain is delivered, the cursor is never ahead
    of the rows, exactly when no block has a row for another transaction than its first. -/
theorem cursor_never_ahead_iff (D : Deps) (specialized : List SpecializedTii) (mode : MatchMode)
    (stream : ChainStream D.toPallas) (hP : D.toPallas.Lawful) :
    (∀ pre store, pre <+: stream.events →
      run (applyTx D specialized mode) Store.empty pre = .ok store →
      CursorCovered D specialized mode stream store) ↔
    OnlyFirstMatches D specialized mode stream :=
  ⟨onlyFirst_of_covered hP, fun h _ _ hpre hrun => covered_of_onlyFirst hP h hpre hrun⟩

theorem cursor_never_ahead_sample :
    (∀ pre store, pre <+: sampleStream.events →
      run (applyTx Sample.chainDeps [Sample.source] .all) Store.empty pre = .ok store →
      CursorCovered Sample.chainDeps [Sample.source] .all sampleStream store) ↔
    OnlyFirstMatches Sample.chainDeps [Sample.source] .all sampleStream :=
  cursor_never_ahead_iff Sample.chainDeps [Sample.source] .all sampleStream
    Sample.chainDeps_lawful

set_option maxRecDepth 4000 in
/-- After the first transaction of the second block the cursor is on this block, and the row of
    the second transaction is missing. -/
theorem cursor_ahead_of_matches :
    ¬∀ pre store, pre <+: sampleStream.events →
      run (applyTx Sample.chainDeps [Sample.source] .all) Store.empty pre = .ok store →
      CursorCovered Sample.chainDeps [Sample.source] .all sampleStream store := by
  intro h
  have hinit : [Sample.envelope Sample.childBytes Sample.scriptTx] <+: sampleStream.events :=
    List.prefix_append [_] _
  obtain ⟨store, hrun⟩ : ∃ store, run (applyTx Sample.chainDeps [Sample.source] .all) Store.empty
      [Sample.envelope Sample.childBytes Sample.scriptTx] = .ok store := ⟨_, rfl⟩
  obtain ⟨row, hrow⟩ : ∃ row, rowsOf Sample.chainDeps [Sample.source] .all
      (Sample.envelope Sample.childBytes Sample.scriptTx') = [row] := ⟨_, rfl⟩
  have hcursor : store.cursorRow = some Sample.child.point.toRow :=
    cursorRow_of_run Sample.child_carries (by rwa [List.nil_append])
  have hmem := h _ store hinit hrun [Sample.parentDelivery] Sample.childDelivery [] rfl
    (cursor_of_row hcursor)
    (Sample.envelope Sample.childBytes Sample.scriptTx') (by simp [Sample.childDelivery]) row
    (by simp [hrow])
  rw [stream_matches Sample.chainDeps_lawful hinit hrun, List.flatMap_singleton] at hmem
  have hfirst := rowsOf_txHash Sample.chainDeps_lawful hmem
  have hsecond := rowsOf_txHash Sample.chainDeps_lawful (hrow ▸ List.mem_singleton_self row)
  exact absurd (hfirst.trans hsecond.symm) (by decide)

/-! ## Always the point of a block -/

/-- The block an event carries, if any, is on the chain. -/
def OverChain (P : Pallas) (chain : List MultiEraBlock) : Option Action → Prop
  | some (.apply anyTx) => ∀ block, anyTx.decodedBlock P = some block → block ∈ chain
  | some (.undo anyTx) => ∀ block, anyTx.decodedBlock P = some block → block ∈ chain
  | _ => True

/-- After the events `pre`, a stored cursor is the point of a block of the chain; if the last of
    them undid a transaction of a block, of the parent of that block. -/
structure CursorReal (P : Pallas) (chain : List MultiEraBlock) (pre : List (Option Action))
    (store : Store) : Prop where
  onChain : ∀ point, store.cursor = some point → ∃ b ∈ chain, point = b.point
  parent : ∀ init anyTx block, pre = init ++ [some (.undo anyTx)] → anyTx.chain ≠ none →
    anyTx.decodedBlock P = some block → ∀ point, store.cursor = some point →
    ∃ b ∈ chain, point = b.point ∧ block.header.previousHash = some b.hash

/-- Every Undo that is handled is of a block whose parent is on the chain, in the slot just
    before it. -/
def ParentInSlotBefore (D : Deps) (cfg : Config) (specialized : List SpecializedTii)
    (chain : List MultiEraBlock) (es : List (Option Action)) : Prop :=
  ∀ init anyTx block hash, init ++ [some (.undo anyTx)] <+: es →
    (∃ store, run (handleAction D cfg specialized) Store.empty (init ++ [some (.undo anyTx)]) =
      .ok store) →
    anyTx.chain ≠ none → anyTx.decodedBlock D.toPallas = some block →
    block.header.previousHash = some hash →
    ∃ b ∈ chain, b.hash = hash ∧ b.slot = satPred block.header.slot

theorem undoParent_eq_some {P : Pallas} {anyTx : AnyChainTx} {point : ChainPoint} :
    undoParent P anyTx = some point ↔ ∃ block hash, anyTx.decodedBlock P = some block ∧
      block.header.previousHash = some hash ∧
      point = { slot := satPred block.header.slot, hash := hash } := by
  simp only [undoParent, Option.bind_eq_some_iff, Option.map_eq_some_iff]
  constructor
  · rintro ⟨block, hblock, hash, hhash, rfl⟩
    exact ⟨block, hash, hblock, hhash, rfl⟩
  · rintro ⟨block, hash, hblock, hhash, rfl⟩
    exact ⟨block, hblock, hash, hhash, rfl⟩

/-- The cursor that one response leaves. -/
theorem handleAction_cursor {D : Deps} {cfg : Config} {specialized : List SpecializedTii}
    {store store' : Store} {a : Option Action}
    (h : handleAction D cfg specialized store a = .ok store') :
    (store'.cursor = store.cursor ∧ ∀ anyTx, a = some (.undo anyTx) → anyTx.chain = none) ∨
      (∃ anyTx block tx, a = some (.apply anyTx) ∧ Carries D.toPallas anyTx block tx ∧
        store'.cursor = some block.point) ∨
      ∃ anyTx, a = some (.undo anyTx) ∧ anyTx.chain ≠ none ∧
        store'.cursor = undoParent D.toPallas anyTx := by
  rcases handleAction_store h with ⟨rfl, -, hundo⟩ | ⟨anyTx, cursor, rows, rfl, happly, rfl⟩ |
    ⟨anyTx, cardanoTx, rfl, hchain, rfl⟩
  · exact Or.inl ⟨rfl, hundo⟩
  · obtain ⟨block, tx, hw⟩ := applyRows_spec happly
    refine Or.inr (Or.inl ⟨anyTx, block, tx, rfl, hw.carries, ?_⟩)
    rw [cursor_applyBlock, hw.cursor]
  · exact Or.inr (Or.inr ⟨anyTx, rfl, by simp [hchain], by rw [cursor_undoTx]⟩)

section Real

variable {D : Deps} {cfg : Config} {specialized : List SpecializedTii} {chain : List MultiEraBlock}

/-- An Undo that writes a cursor writes the point of the parent, if the parent is in the slot
    before its block. -/
theorem undoParent_real {anyTx : AnyChainTx} {point : ChainPoint}
    (h : undoParent D.toPallas anyTx = some point)
    (hparent : ∀ block hash, anyTx.decodedBlock D.toPallas = some block →
      block.header.previousHash = some hash →
      ∃ b ∈ chain, b.hash = hash ∧ b.slot = satPred block.header.slot) :
    ∃ block, anyTx.decodedBlock D.toPallas = some block ∧
      ∃ b ∈ chain, point = b.point ∧ block.header.previousHash = some b.hash := by
  obtain ⟨block, hash, hblock, hhash, rfl⟩ := undoParent_eq_some.mp h
  obtain ⟨b, hb, rfl, hslot⟩ := hparent block hash hblock hhash
  exact ⟨block, hblock, b, hb, by rw [MultiEraBlock.point, hslot], hhash⟩

/-- One response keeps the cursor real. -/
theorem cursorReal_step {pre : List (Option Action)} {a : Option Action} {mid store : Store}
    (hmid : CursorReal D.toPallas chain pre mid) (hover : OverChain D.toPallas chain a)
    (hstep : handleAction D cfg specialized mid a = .ok store)
    (hparent : ∀ anyTx block hash, a = some (.undo anyTx) → anyTx.chain ≠ none →
      anyTx.decodedBlock D.toPallas = some block → block.header.previousHash = some hash →
      ∃ b ∈ chain, b.hash = hash ∧ b.slot = satPred block.header.slot) :
    CursorReal D.toPallas chain (pre ++ [a]) store := by
  rcases handleAction_cursor hstep with ⟨hsame, hnone⟩ | ⟨anyTx, block, tx, rfl, hc, hcursor⟩ |
    ⟨anyTx, rfl, hchain, hcursor⟩
  · refine ⟨fun point hpoint => hmid.onChain point (hsame ▸ hpoint), ?_⟩
    intro init anyTx block heq hchain
    obtain ⟨-, rfl⟩ := List.append_singleton_inj.mp heq
    exact absurd (hnone anyTx rfl) hchain
  · refine ⟨fun point hpoint => ?_, ?_⟩
    · rw [hcursor, Option.some.injEq] at hpoint
      exact ⟨block, hover block hc.decodes, hpoint.symm⟩
    · intro init anyTx' block' heq
      obtain ⟨-, heq⟩ := List.append_singleton_inj.mp heq
      cases heq
  · have hreal : ∀ point, store.cursor = some point →
        ∃ block, anyTx.decodedBlock D.toPallas = some block ∧
          ∃ b ∈ chain, point = b.point ∧ block.header.previousHash = some b.hash :=
      fun point hpoint => undoParent_real (hcursor ▸ hpoint)
        fun block hash => hparent anyTx block hash rfl hchain
    refine ⟨fun point hpoint => ?_, ?_⟩
    · obtain ⟨_, -, b, hb, hpt, -⟩ := hreal point hpoint
      exact ⟨b, hb, hpt⟩
    · intro init anyTx' block heq _ hblock point hpoint
      obtain ⟨-, heq⟩ := List.append_singleton_inj.mp heq
      cases heq
      obtain ⟨block', hblock', hpoint⟩ := hreal point hpoint
      cases hblock.symm.trans hblock'
      exact hpoint

/-- If the cursor is real after an Undo, the parent is in the slot before. -/
theorem parentInSlotBefore_of_real {es : List (Option Action)}
    (h : ∀ pre store, pre <+: es →
      run (handleAction D cfg specialized) Store.empty pre = .ok store →
      CursorReal D.toPallas chain pre store) :
    ParentInSlotBefore D cfg specialized chain es := by
  intro init anyTx block hash hpre ⟨store, hrun⟩ hchain hblock hhash
  obtain ⟨mid, -, hlast⟩ := run_concat.mp hrun
  rcases handleAction_cursor hlast with ⟨-, hnone⟩ | ⟨_, _, _, heq, -⟩ | ⟨anyTx', heq, -, hcursor⟩
  · exact absurd (hnone anyTx rfl) hchain
  · cases heq
  · cases heq
    rw [undoParent_eq_some.mpr ⟨block, hash, hblock, hhash, rfl⟩] at hcursor
    obtain ⟨b, hb, hpoint, hparent⟩ :=
      (h _ store hpre hrun).parent init anyTx block rfl hchain hblock _ hcursor
    rw [hhash, Option.some.injEq] at hparent
    exact ⟨b, hb, hparent.symm, (congrArg ChainPoint.slot hpoint).symm⟩

end Real

/-- **The resume point is a real block.** In a run over a chain the cursor is always the point of
    a block of it, and after an Undo the point of the parent block, exactly when every Undo that
    is handled is of a block whose parent is in the slot just before. -/
theorem cursor_real_iff (D : Deps) (cfg : Config) (specialized : List SpecializedTii)
    (chain : List MultiEraBlock) (es : List (Option Action))
    (hover : ∀ a ∈ es, OverChain D.toPallas chain a) :
    (∀ pre store, pre <+: es →
      run (handleAction D cfg specialized) Store.empty pre = .ok store →
      CursorReal D.toPallas chain pre store) ↔
    ParentInSlotBefore D cfg specialized chain es := by
  constructor
  · exact parentInSlotBefore_of_real
  · intro h
    refine run_induction (fun pre store => CursorReal D.toPallas chain pre store) ?_ ?_
    · exact ⟨by simp, fun init anyTx block heq => by simp at heq⟩
    · intro pre a mid store hpre hrun hmid hstep
      refine cursorReal_step hmid (hover a (hpre.subset (by simp))) hstep ?_
      rintro anyTx block hash rfl hchain hblock hhash
      exact h pre anyTx block hash hpre ⟨store, run_concat.mpr ⟨mid, hrun, hstep⟩⟩ hchain
        hblock hhash

/-- The rival block is applied and rolled back; its parent is five slots before it. -/
def sampleRollback : List (Option Action) :=
  [some (.apply (Sample.envelope Sample.rivalBytes Sample.scriptTx)),
   some (.undo (Sample.envelope Sample.rivalBytes Sample.scriptTx))]

theorem sampleRollback_over :
    ∀ a ∈ sampleRollback, OverChain Sample.chainDeps.toPallas [Sample.parent, Sample.rival] a := by
  have hrival : ∀ block, (Sample.envelope Sample.rivalBytes Sample.scriptTx).decodedBlock
      Sample.chainDeps.toPallas = some block → block ∈ [Sample.parent, Sample.rival] := by
    intro block h
    cases Sample.rival_carries.decodes.symm.trans h
    simp
  intro a ha
  simp only [sampleRollback, List.mem_cons, List.not_mem_nil, or_false] at ha
  rcases ha with rfl | rfl
  · exact hrival
  · exact hrival

theorem cursor_real_sample :
    (∀ pre store, pre <+: sampleRollback →
      run (handleAction Sample.chainDeps Sample.cfg [Sample.source]) Store.empty pre = .ok store →
      CursorReal Sample.chainDeps.toPallas [Sample.parent, Sample.rival] pre store) ↔
    ParentInSlotBefore Sample.chainDeps Sample.cfg [Sample.source] [Sample.parent, Sample.rival]
      sampleRollback :=
  cursor_real_iff Sample.chainDeps Sample.cfg [Sample.source] [Sample.parent, Sample.rival]
    sampleRollback sampleRollback_over

set_option maxRecDepth 4000 in
/-- The Undo leaves the hash of the parent with the slot 104, in which there is no block. -/
theorem cursor_not_a_block :
    ¬∀ pre store, pre <+: sampleRollback →
      run (handleAction Sample.chainDeps Sample.cfg [Sample.source]) Store.empty pre = .ok store →
      CursorReal Sample.chainDeps.toPallas [Sample.parent, Sample.rival] pre store := by
  intro h
  obtain ⟨store, hrun, hcursor⟩ : ∃ store,
      run (handleAction Sample.chainDeps Sample.cfg [Sample.source]) Store.empty sampleRollback =
        .ok store ∧ store.cursor = some { slot := 104, hash := Sample.parentHash } := ⟨_, rfl, rfl⟩
  obtain ⟨b, hb, hpoint⟩ := (h _ store List.prefix_rfl hrun).onChain _ hcursor
  have hslot : b.slot = 104 := (congrArg ChainPoint.slot hpoint).symm
  simp only [List.mem_cons, List.not_mem_nil, or_false] at hb
  rcases hb with rfl | rfl
  · exact absurd hslot (by decide)
  · exact absurd hslot (by decide)

/-! ## Never lost -/

section Kept

variable (D : Deps) (cfg : Config) (specialized : List SpecializedTii)

/-- The tracker after some inputs, from a fresh database. -/
def trackerAfter (inputs : List Input) : Tracker :=
  inputs.foldl (Tracker.next D cfg specialized) Tracker.fresh

/-- Once a cursor is stored, one stays stored, and every later (re)connect asks for it. -/
structure CursorKept (inputs : List Input) : Prop where
  stored : ∀ earlier later, earlier <+: later → later <+: inputs →
    (trackerAfter D cfg specialized earlier).store.cursor ≠ none →
    (trackerAfter D cfg specialized later).store.cursor ≠ none
  requested : ∀ earlier later, earlier <+: later → later ++ [.connect] <+: inputs →
    (trackerAfter D cfg specialized earlier).store.cursor ≠ none →
    ∃ point, (trackerAfter D cfg specialized later).store.cursor = some point ∧
      (trackerAfter D cfg specialized (later ++ [.connect])).request = some [point.blockRef]

/-- No Undo of a transaction that comes while a cursor is stored lacks a decodable block with a
    predecessor. -/
def UndosHaveParent (inputs : List Input) : Prop :=
  ∀ before anyTx, before ++ [.action (some (.undo anyTx))] <+: inputs → anyTx.chain ≠ none →
    (trackerAfter D cfg specialized before).store.cursor ≠ none →
    ∃ block hash, anyTx.decodedBlock D.toPallas = some block ∧
      block.header.previousHash = some hash

variable {D cfg specialized}

theorem trackerAfter_concat (inputs : List Input) (i : Input) :
    trackerAfter D cfg specialized (inputs ++ [i]) =
      (trackerAfter D cfg specialized inputs).next D cfg specialized i := by
  rw [trackerAfter, List.foldl_append]
  rfl

/-- One input keeps a stored cursor, unless it is an Undo without a parent. -/
theorem next_cursor {t : Tracker} {i : Input} (hstored : t.store.cursor ≠ none)
    (hparent : ∀ anyTx, i = .action (some (.undo anyTx)) → anyTx.chain ≠ none →
      undoParent D.toPallas anyTx ≠ none) :
    (t.next D cfg specialized i).store.cursor ≠ none := by
  cases i with
  | connect => rwa [next_connect_store]
  | action a =>
    rw [next_action_store]
    cases h : handleAction D cfg specialized t.store a with
    | error e => exact hstored
    | ok store' =>
      rcases handleAction_cursor h with ⟨hsame, -⟩ | ⟨_, block, _, -, -, hcursor⟩ |
        ⟨anyTx, rfl, hchain, hcursor⟩
      · show store'.cursor ≠ none
        rwa [hsame]
      · show store'.cursor ≠ none
        rw [hcursor]
        simp
      · show store'.cursor ≠ none
        rw [hcursor]
        exact hparent anyTx rfl hchain

/-- A connect asks for the stored cursor. -/
theorem next_connect_request {t : Tracker} {point : ChainPoint}
    (h : t.store.cursor = some point) :
    (t.next D cfg specialized .connect).request = some [point.blockRef] := by
  have hresume : resumeIntersect cfg t.store = .ok [point.blockRef] := by
    simp only [resumeIntersect, h]
    rfl
  have hstep : t.step D cfg specialized .connect =
      .ok { t with request := some [point.blockRef] } := step_connect.mpr ⟨_, hresume, rfl⟩
  rw [Tracker.next, hstep]

/-- If a stored cursor is kept, no Undo lacked a parent. -/
theorem undosHaveParent_of_kept {inputs : List Input} (h : CursorKept D cfg specialized inputs) :
    UndosHaveParent D cfg specialized inputs := by
  intro before anyTx hpre hchain hstored
  have hafter := h.stored before _ (List.prefix_append _ _) hpre hstored
  have hundo : handleAction D cfg specialized (trackerAfter D cfg specialized before).store
      (some (.undo anyTx)) = .ok (undoTx D.toPallas _ anyTx) := rfl
  rw [trackerAfter_concat, next_action_store, hundo, Except.toOption, Option.getD_some] at hafter
  rcases undoTx_eq D.toPallas (trackerAfter D cfg specialized before).store anyTx with
    ⟨hnone, -⟩ | ⟨_, -, heq⟩
  · exact absurd hnone hchain
  · rw [heq, cursor_undoTx] at hafter
    obtain ⟨point, hpoint⟩ := Option.ne_none_iff_exists'.mp hafter
    obtain ⟨block, hash, hblock, hhash, -⟩ := undoParent_eq_some.mp hpoint
    exact ⟨block, hash, hblock, hhash⟩

/-- If no Undo lacks a parent, a stored cursor stays stored. -/
theorem stored_of_undosHaveParent {inputs : List Input}
    (h : UndosHaveParent D cfg specialized inputs) {earlier later : List Input}
    (hle : earlier <+: later) (hpre : later <+: inputs)
    (hearlier : (trackerAfter D cfg specialized earlier).store.cursor ≠ none) :
    (trackerAfter D cfg specialized later).store.cursor ≠ none := by
  obtain ⟨rest, rfl⟩ := hle
  induction rest using List.reverseRecOn with
  | nil => rwa [List.append_nil]
  | append_singleton rest i ih =>
    rw [← List.append_assoc] at hpre ⊢
    have hmid := ih ((List.prefix_append _ _).trans hpre)
    rw [trackerAfter_concat]
    refine next_cursor hmid ?_
    rintro anyTx rfl hchain
    obtain ⟨block, hash, hblock, hhash⟩ := h _ anyTx hpre hchain hmid
    rw [undoParent_eq_some.mpr ⟨block, hash, hblock, hhash, rfl⟩]
    simp

end Kept

/-- **The resume point is never lost**, exactly when no Undo that comes while a cursor is stored
    lacks a decodable block with a predecessor. -/
theorem cursor_kept_iff (D : Deps) (cfg : Config) (specialized : List SpecializedTii)
    (inputs : List Input) :
    CursorKept D cfg specialized inputs ↔ UndosHaveParent D cfg specialized inputs := by
  refine ⟨undosHaveParent_of_kept, fun h => ⟨fun _ _ => stored_of_undosHaveParent h, ?_⟩⟩
  intro earlier later hle hpre hearlier
  have hlater := stored_of_undosHaveParent h hle ((List.prefix_append _ _).trans hpre) hearlier
  obtain ⟨point, hpoint⟩ := Option.ne_none_iff_exists'.mp hlater
  exact ⟨point, hpoint, by rw [trackerAfter_concat]; exact next_connect_request hpoint⟩

/-- A transaction is applied, and its Undo comes without the bytes of its block. -/
def sampleBareUndo : List Input :=
  [.connect, .action (some (.apply (Sample.envelope Sample.childBytes Sample.scriptTx))),
   .action (some (.undo (Sample.envelope [] Sample.scriptTx)))]

set_option maxRecDepth 4000 in
/-- The Undo deletes the cursor, so the next connect falls back to the configured intersect. -/
theorem cursor_lost :
    ¬CursorKept Sample.chainDeps Sample.cfg [Sample.source] sampleBareUndo := by
  intro h
  have hearlier : (trackerAfter Sample.chainDeps Sample.cfg [Sample.source]
      [.connect, .action (some (.apply (Sample.envelope Sample.childBytes Sample.scriptTx)))]
      ).store.cursor = some Sample.child.point := rfl
  have hlater : (trackerAfter Sample.chainDeps Sample.cfg [Sample.source]
      sampleBareUndo).store.cursor = none := rfl
  exact h.stored [.connect, .action (some (.apply (Sample.envelope Sample.childBytes
    Sample.scriptTx)))] _ (List.prefix_append [_, _] _) List.prefix_rfl (by rw [hearlier]; simp)
    hlater

end Tx3Lift
