import Tx3Lift.Lib.View
import Tx3Lift.Tracker.Chain
import Tx3Lift.Tracker.Session

/-!
# The table `matches` over a run

Each response changes the table as one `Lib.Change`, whose groups are the transactions:
an Apply puts its rows, an Undo drops the rows of its transaction.

* `run_matches`: the table after a run is the replay of its changes.
* `run_eq_live`: on a legal history the table consists of the rows of the transactions
  that were applied and not undone.
* `matches_eq_live`: the same for every moment of a run from an empty database.
* `stream_matches`, `stream_cursor`: table and cursor while a chain is delivered.
-/

namespace Tx3Lift

open Lib

/-- The rows of table `matches` that handling an Apply produces. -/
def rowsOf (D : Deps) (specialized : List SpecializedTii) (mode : MatchMode)
    (anyTx : AnyChainTx) : List MatchesRow :=
  match applyRows D specialized mode anyTx with
  | .ok (some (_, rows)) => rows.map OwnedMatchRow.toRow
  | _ => []

/-- The change that a response makes to the table. -/
def changeOf (D : Deps) (specialized : List SpecializedTii) (mode : MatchMode) :
    Option Action → Option (Change MatchesRow ByteBuf)
  | some (.apply anyTx) =>
    match applyRows D specialized mode anyTx with
    | .ok (some _) => some (.put (anyTx.txHash.getD []) (rowsOf D specialized mode anyTx))
    | _ => none
  | some (.undo anyTx) => anyTx.txHash.map .drop
  | _ => none

/-- The table after the changes of some responses. -/
def replayMatches (D : Deps) (specialized : List SpecializedTii) (mode : MatchMode)
    (table : List MatchesRow) (es : List (Option Action)) : List MatchesRow :=
  replay MatchesRow.key MatchesRow.txHash table (es.filterMap (changeOf D specialized mode))

/-! ## Changes -/

section Changes

variable {D : Deps} {specialized : List SpecializedTii} {mode : MatchMode} {anyTx : AnyChainTx}

theorem rowsOf_eq {cursor : ChainPoint} {rows : List OwnedMatchRow}
    (h : applyRows D specialized mode anyTx = .ok (some (cursor, rows))) :
    rowsOf D specialized mode anyTx = rows.map OwnedMatchRow.toRow := by
  rw [rowsOf, h]

theorem changeOf_apply {cursor : ChainPoint} {rows : List OwnedMatchRow}
    (h : applyRows D specialized mode anyTx = .ok (some (cursor, rows))) :
    changeOf D specialized mode (some (.apply anyTx)) =
      some (.put (anyTx.txHash.getD []) (rowsOf D specialized mode anyTx)) := by
  simp only [changeOf, h]

theorem changeOf_undo {cardanoTx : U5cTx} (h : anyTx.chain = some cardanoTx) :
    changeOf D specialized mode (some (.undo anyTx)) = some (.drop cardanoTx.hash) := by
  simp [changeOf, AnyChainTx.txHash, h]

theorem changeOf_eq_none {a : Option Action}
    (happly : ∀ anyTx, a = some (.apply anyTx) → applyRows D specialized mode anyTx = .ok none)
    (hundo : ∀ anyTx, a = some (.undo anyTx) → anyTx.chain = none) :
    changeOf D specialized mode a = none := by
  match a with
  | some (.apply anyTx) => simp only [changeOf, happly anyTx rfl]
  | some (.undo anyTx) => simp only [changeOf, AnyChainTx.txHash, hundo anyTx rfl, Option.map_none]
  | some (.idle _) => rfl
  | none => rfl

theorem changeOf_eq_put {a : Option Action} {g : ByteBuf} {rows : List MatchesRow}
    (h : changeOf D specialized mode a = some (.put g rows)) :
    ∃ anyTx, a = some (.apply anyTx) ∧ g = anyTx.txHash.getD [] ∧
      rows = rowsOf D specialized mode anyTx ∧
      ∃ cr, applyRows D specialized mode anyTx = .ok (some cr) := by
  match a with
  | some (.apply anyTx) =>
    simp only [changeOf] at h
    split at h
    · rename_i cr happly
      cases h
      exact ⟨anyTx, rfl, rfl, rfl, cr, happly⟩
    · cases h
  | some (.undo anyTx) => cases ht : anyTx.txHash <;> simp [changeOf, ht] at h
  | some (.idle _) => cases h
  | none => cases h

theorem changeOf_eq_drop {a : Option Action} {g : ByteBuf}
    (h : changeOf D specialized mode a = some (.drop g)) :
    ∃ anyTx, a = some (.undo anyTx) ∧ anyTx.txHash = some g := by
  match a with
  | some (.apply anyTx) =>
    simp only [changeOf] at h
    split at h <;> cases h
  | some (.undo anyTx) =>
    cases ht : anyTx.txHash with
    | none => simp [changeOf, ht] at h
    | some hash =>
      simp only [changeOf, ht, Option.map_some, Option.some.injEq, Change.drop.injEq] at h
      exact ⟨anyTx, rfl, by rw [ht, h]⟩
  | some (.idle _) => cases h
  | none => cases h

/-- The transactions that a history drops. -/
theorem drop_mem_changes {es : List (Option Action)} {g : ByteBuf} :
    .drop g ∈ es.filterMap (changeOf D specialized mode) ↔
      ∃ anyTx, some (.undo anyTx) ∈ es ∧ anyTx.txHash = some g := by
  rw [List.mem_filterMap]
  constructor
  · rintro ⟨a, ha, hc⟩
    obtain ⟨anyTx, rfl, hhash⟩ := changeOf_eq_drop hc
    exact ⟨anyTx, ha, hhash⟩
  · rintro ⟨anyTx, ha, hhash⟩
    exact ⟨_, ha, by simp [changeOf, hhash]⟩

/-- What a row written for an Apply carries. -/
theorem mem_rowsOf (hP : D.toPallas.Lawful) {row : MatchesRow}
    (h : row ∈ rowsOf D specialized mode anyTx) :
    ∃ block tx, Carries D.toPallas anyTx block tx ∧ anyTx.txHash = some row.txHash ∧
      row.txHash = tx.hash.bytes ∧ row.blockSlot = block.slot.toInt64 ∧
      row.blockHash = block.hash.bytes := by
  cases happly : applyRows D specialized mode anyTx with
  | error e => simp [rowsOf, happly] at h
  | ok r =>
    cases r with
    | none => simp [rowsOf, happly] at h
    | some cr =>
      obtain ⟨cursor, rows⟩ := cr
      rw [rowsOf_eq happly] at h
      obtain ⟨row, hrow, rfl⟩ := List.mem_map.mp h
      obtain ⟨block, tx, hw⟩ := applyRows_spec happly
      obtain ⟨cardanoTx, hchain, hhash⟩ := hw.carries.chain
      have htx := hw.txHash hP row hrow
      refine ⟨block, tx, hw.carries, ?_, htx, ?_, (hw.block row hrow).2⟩
      · rw [AnyChainTx.txHash, hchain, Option.map_some, hhash]
        exact congrArg some htx.symm
      · show row.blockSlot.toInt64 = _
        rw [(hw.block row hrow).1]

theorem rowsOf_txHash (hP : D.toPallas.Lawful) {row : MatchesRow}
    (h : row ∈ rowsOf D specialized mode anyTx) : anyTx.txHash = some row.txHash := by
  obtain ⟨_, _, _, hhash, _⟩ := mem_rowsOf hP h
  exact hhash

/-- The rows of one transaction have distinct keys. -/
theorem rowsOf_keys :
    ((rowsOf D specialized mode anyTx).map MatchesRow.key).Nodup := by
  cases happly : applyRows D specialized mode anyTx with
  | error e => simp [rowsOf, happly]
  | ok r =>
    cases r with
    | none => simp [rowsOf, happly]
    | some cr =>
      obtain ⟨cursor, rows⟩ := cr
      obtain ⟨block, tx, hw⟩ := applyRows_spec happly
      rw [rowsOf_eq happly, List.map_map]
      refine List.Nodup.of_map Prod.snd ?_
      rw [List.map_map]
      exact hw.sources

theorem changeOf_wellFormed (hP : D.toPallas.Lawful) {a : Option Action}
    {c : Change MatchesRow ByteBuf} (h : changeOf D specialized mode a = some c) :
    c.WellFormed MatchesRow.key MatchesRow.txHash := by
  constructor
  · rintro g rows rfl row hrow
    obtain ⟨anyTx, -, rfl, rfl, -⟩ := changeOf_eq_put h
    rw [rowsOf_txHash hP hrow]
    rfl
  · rintro g rows rfl
    obtain ⟨anyTx, -, -, rfl, -⟩ := changeOf_eq_put h
    exact rowsOf_keys

/-- The transaction hash is part of the key. -/
theorem txHash_of_key (row row' : MatchesRow) (h : row.key = row'.key) :
    row.txHash = row'.txHash :=
  congrArg Prod.fst h

end Changes

/-! ## Runs -/

section Runs

variable {D : Deps} {cfg : Config} {specialized : List SpecializedTii}

/-- Only an Apply fails, and whether it does is decided before the store is touched. -/
theorem handleAction_eq_error {store : Store} {a : Option Action} {e : TrackerError} :
    handleAction D cfg specialized store a = .error e ↔
      ∃ anyTx, a = some (.apply anyTx) ∧ applyRows D specialized cfg.mode anyTx = .error e := by
  match a with
  | some (.apply anyTx) =>
    simp only [handleAction, applyTx, Option.some.injEq, Action.apply.injEq, exists_eq_left']
    cases applyRows D specialized cfg.mode anyTx with
    | error e' => simp [bind, Except.bind]
    | ok r => cases r <;> simp [bind, Except.bind, pure, Except.pure]
  | some (.undo anyTx) => simp [handleAction, pure, Except.pure]
  | some (.idle _) => simp [handleAction, pure, Except.pure]
  | none => simp [handleAction, pure, Except.pure]

theorem handleAction_matches {store store' : Store} {a : Option Action}
    (h : handleAction D cfg specialized store a = .ok store') :
    store'.matchesTable = replayMatches D specialized cfg.mode store.matchesTable [a] := by
  rcases handleAction_store h with ⟨rfl, happly, hundo⟩ | ⟨anyTx, cursor, rows, rfl, happly, rfl⟩ |
    ⟨anyTx, cardanoTx, rfl, hchain, rfl⟩
  · rw [replayMatches, List.filterMap_cons_none (changeOf_eq_none happly hundo)]
    rfl
  · rw [replayMatches, List.filterMap_cons_some (changeOf_apply happly), rowsOf_eq happly]
    rfl
  · rw [replayMatches, List.filterMap_cons_some (changeOf_undo hchain)]
    rfl

/-- The table after a run is the replay of its changes. -/
theorem run_matches {store store' : Store} {es : List (Option Action)}
    (h : run (handleAction D cfg specialized) store es = .ok store') :
    store'.matchesTable = replayMatches D specialized cfg.mode store.matchesTable es := by
  induction es generalizing store with
  | nil => cases h; rfl
  | cons a es ih =>
    obtain ⟨mid, hmid, hrest⟩ := run_cons_ok.mp h
    rw [ih hrest, handleAction_matches hmid, replayMatches, replayMatches, replayMatches,
      ← replay_append, ← List.filterMap_append]
    rfl

end Runs

/-! ## Runs of Applies -/

/-- Apply responses. -/
def applies (es : List AnyChainTx) : List (Option Action) := es.map fun e => some (.apply e)

theorem run_applies (D : Deps) (cfg : Config) (specialized : List SpecializedTii) (store : Store)
    (es : List AnyChainTx) :
    run (handleAction D cfg specialized) store (applies es) =
      run (applyTx D specialized cfg.mode) store es := by
  rw [run, run, applies, List.foldlM_map]
  rfl

/-- In a run that passes, every Apply was handled. -/
theorem applyRows_of_run {D : Deps} {specialized : List SpecializedTii} {mode : MatchMode}
    {es : List AnyChainTx} {store store' : Store}
    (h : run (applyTx D specialized mode) store es = .ok store') :
    ∀ e ∈ es, ∃ r, applyRows D specialized mode e = .ok r := by
  induction es generalizing store with
  | nil => simp
  | cons e es ih =>
    obtain ⟨mid, hmid, hrest⟩ := run_cons_ok.mp h
    intro e' he'
    rcases List.mem_cons.mp he' with rfl | he'
    · rcases applyTx_eq.mp hmid with ⟨happly, -⟩ | ⟨cursor, rows, happly, -⟩
      · exact ⟨_, happly⟩
      · exact ⟨_, happly⟩
    · exact ih hrest e' he'

/-- The cursor after an Apply that carries its block. -/
theorem cursorRow_of_run {D : Deps} {specialized : List SpecializedTii} {mode : MatchMode}
    {es : List AnyChainTx} {e : AnyChainTx} {block : MultiEraBlock} {tx : MultiEraTx}
    (hc : Carries D.toPallas e block tx) {store store' : Store}
    (h : run (applyTx D specialized mode) store (es ++ [e]) = .ok store') :
    store'.cursorRow = some block.point.toRow := by
  obtain ⟨mid, -, hlast⟩ := run_concat.mp h
  rcases applyTx_eq.mp hlast with ⟨happly, -⟩ | ⟨cursor, rows, happly, rfl⟩
  · obtain ⟨rows, hr⟩ := applyRows_of_carries hc happly
    cases hr
  · obtain ⟨rows', hr⟩ := applyRows_of_carries hc happly
    cases hr
    rfl

/-! ## Live transactions -/

/-- The Applies that were not undone since, in the order they came. -/
def liveTxs (es : List (Option Action)) : List AnyChainTx :=
  es.foldl (fun live a =>
    match a with
    | some (.apply anyTx) => live ++ [anyTx]
    | some (.undo anyTx) => live.filter fun e => decide (e.txHash ≠ anyTx.txHash)
    | _ => live) []

/-- Histories in which every Apply carries its block and is handled without error, no
    transaction is applied twice without an undo in between, and every Undo follows an Apply
    of the same transaction not undone since. -/
structure LegalHistory (D : Deps) (cfg : Config) (specialized : List SpecializedTii)
    (es : List (Option Action)) : Prop where
  carries : ∀ anyTx, some (.apply anyTx) ∈ es → ∃ block tx, Carries D.toPallas anyTx block tx
  succeeds : ∀ anyTx, some (.apply anyTx) ∈ es →
    ∃ r, applyRows D specialized cfg.mode anyTx = .ok r
  once : ∀ pre anyTx, pre ++ [some (.apply anyTx)] <+: es →
    anyTx.txHash ∉ (liveTxs pre).map AnyChainTx.txHash
  undone : ∀ pre anyTx, pre ++ [some (.undo anyTx)] <+: es →
    anyTx.txHash ∈ (liveTxs pre).map AnyChainTx.txHash

section Live

variable {D : Deps} {cfg : Config} {specialized : List SpecializedTii}

theorem liveTxs_concat (es : List (Option Action)) (a : Option Action) :
    liveTxs (es ++ [a]) =
      match a with
      | some (.apply anyTx) => liveTxs es ++ [anyTx]
      | some (.undo anyTx) => (liveTxs es).filter fun e => decide (e.txHash ≠ anyTx.txHash)
      | _ => liveTxs es := by
  rw [liveTxs, List.foldl_append]
  rfl

theorem mem_liveTxs {anyTx : AnyChainTx} {es : List (Option Action)} (h : anyTx ∈ liveTxs es) :
    some (.apply anyTx) ∈ es := by
  induction es using List.reverseRecOn with
  | nil => simp [liveTxs] at h
  | append_singleton es a ih =>
    rw [liveTxs_concat] at h
    split at h
    · rcases List.mem_append.mp h with h | h
      · exact List.mem_append_left _ (ih h)
      · rw [List.mem_singleton.mp h]
        simp
    · exact List.mem_append_left _ (ih (List.mem_filter.mp h).1)
    · exact List.mem_append_left _ (ih h)

/-- The live groups of the changes are the live transactions. -/
theorem live_eq_liveTxs {es : List (Option Action)}
    (hwrites : ∀ anyTx, some (.apply anyTx) ∈ es →
      (∃ hash, anyTx.txHash = some hash) ∧
        ∃ cr, applyRows D specialized cfg.mode anyTx = .ok (some cr)) :
    live (es.filterMap (changeOf D specialized cfg.mode)) =
      (liveTxs es).map fun e => (e.txHash.getD [], rowsOf D specialized cfg.mode e) := by
  induction es using List.reverseRecOn with
  | nil => rfl
  | append_singleton es a ih =>
    have ih := ih fun anyTx hmem => hwrites anyTx (List.mem_append_left _ hmem)
    rw [List.filterMap_append, liveTxs_concat]
    match a with
    | some (.apply anyTx) =>
      obtain ⟨-, cr, happly⟩ := hwrites anyTx (by simp)
      rw [List.filterMap_cons_some (changeOf_apply happly), List.filterMap_nil, live_put, ih,
        List.map_append]
      rfl
    | some (.undo anyTx) =>
      cases ht : anyTx.txHash with
      | none =>
        -- an Undo without a transaction drops nothing, and every live transaction has a hash
        have hall : (liveTxs es).filter (fun e => decide (e.txHash ≠ none)) = liveTxs es := by
          refine List.filter_eq_self.mpr fun e he => ?_
          obtain ⟨⟨hash, hhash⟩, -⟩ := hwrites e (List.mem_append_left _ (mem_liveTxs he))
          simp [hhash]
        have hc : changeOf D specialized cfg.mode (some (.undo anyTx)) = none := by
          simp [changeOf, ht]
        simp only [ht]
        rw [List.filterMap_cons_none hc, List.filterMap_nil, List.append_nil, ih, hall]
      | some hash =>
        have hc : changeOf D specialized cfg.mode (some (.undo anyTx)) = some (.drop hash) := by
          simp [changeOf, ht]
        rw [List.filterMap_cons_some hc, List.filterMap_nil, live_concat, Change.track, ih,
          List.filter_map]
        congr 1
        refine List.filter_congr fun e he => ?_
        obtain ⟨⟨hash', hhash'⟩, -⟩ := hwrites e (List.mem_append_left _ (mem_liveTxs he))
        simp [ht, hhash']
    | some (.idle _) => rw [List.filterMap_cons_none rfl, List.filterMap_nil, List.append_nil, ih]
    | none => rw [List.filterMap_cons_none rfl, List.filterMap_nil, List.append_nil, ih]

/-- On a legal history the table consists of the rows of the live transactions. -/
theorem run_eq_live (hP : D.toPallas.Lawful) {es : List (Option Action)}
    (hwrites : ∀ anyTx, some (.apply anyTx) ∈ es →
      (∃ hash, anyTx.txHash = some hash) ∧
        ∃ cr, applyRows D specialized cfg.mode anyTx = .ok (some cr))
    (honce : ∀ pre anyTx, pre ++ [some (.apply anyTx)] <+: es →
      anyTx.txHash ∉ (liveTxs pre).map AnyChainTx.txHash)
    {store : Store} (h : run (handleAction D cfg specialized) Store.empty es = .ok store) :
    store.matchesTable = (liveTxs es).flatMap (rowsOf D specialized cfg.mode) := by
  have hreplay := run_matches h
  rw [replayMatches, matches_empty, replay_eq_live txHash_of_key,
    live_eq_liveTxs hwrites] at hreplay
  · rw [hreplay, List.flatMap_map]
  · intro c hc
    obtain ⟨a, -, ha⟩ := List.mem_filterMap.mp hc
    exact changeOf_wellFormed hP ha
  · intro p g rows hp
    obtain ⟨pre, a, hpre, rfl, ha⟩ := prefix_filterMap_concat hp
    obtain ⟨anyTx, rfl, rfl, rfl, -⟩ := changeOf_eq_put ha
    have hinit : pre <+: es := (List.prefix_append _ _).trans hpre
    rw [live_eq_liveTxs fun e he => hwrites e (hinit.subset he), List.map_map]
    intro hmem
    obtain ⟨e, he, heq⟩ := List.mem_map.mp hmem
    obtain ⟨⟨hash, hhash⟩, -⟩ := hwrites e (hinit.subset (mem_liveTxs he))
    obtain ⟨⟨hash', hhash'⟩, -⟩ := hwrites anyTx (hpre.subset (by simp))
    refine honce pre anyTx hpre (List.mem_map.mpr ⟨e, he, ?_⟩)
    simp only [Function.comp_apply, hhash, hhash', Option.getD_some] at heq
    rw [hhash, hhash', heq]

theorem liveTxs_applies (es : List AnyChainTx) : liveTxs (applies es) = es := by
  induction es using List.reverseRecOn with
  | nil => rfl
  | append_singleton es e ih =>
    rw [applies, List.map_append, List.map_singleton, liveTxs_concat, ← applies, ih]

/-- Distinct transactions are applied once. -/
theorem once_applies {es : List AnyChainTx} (hnodup : (es.map AnyChainTx.txHash).Nodup)
    (pre : List (Option Action)) (anyTx : AnyChainTx)
    (hpre : pre ++ [some (.apply anyTx)] <+: applies es) :
    anyTx.txHash ∉ (liveTxs pre).map AnyChainTx.txHash := by
  obtain ⟨rest, heq⟩ := hpre
  obtain ⟨start, after, rfl, hstart, -⟩ := List.map_eq_append_iff.mp heq.symm
  obtain ⟨before, last, rfl, hbefore, hlast⟩ := List.map_eq_append_iff.mp hstart
  obtain ⟨e, rfl⟩ : ∃ e, last = [e] :=
    List.length_eq_one_iff.mp (by simpa using congrArg List.length hlast)
  cases hlast
  rw [← hbefore, ← applies, liveTxs_applies]
  rw [List.map_append, List.map_append, List.map_singleton] at hnodup
  exact fun hmem => (List.nodup_append.mp (List.nodup_append.mp hnodup).1).2.2 _ hmem _
    (by simp) rfl

/-- The table after the Applies of distinct transactions. -/
theorem run_applies_matches (hP : D.toPallas.Lawful) {mode : MatchMode} {es : List AnyChainTx}
    (hcarries : ∀ e ∈ es, ∃ block tx, Carries D.toPallas e block tx)
    (hnodup : (es.map AnyChainTx.txHash).Nodup) {store : Store}
    (h : run (applyTx D specialized mode) Store.empty es = .ok store) :
    store.matchesTable = es.flatMap (rowsOf D specialized mode) := by
  have hrun :=
    (run_applies D { intersect := .tip, mode := mode } specialized Store.empty es).trans h
  have hlive := run_eq_live hP ?_ (once_applies hnodup) hrun
  · rwa [liveTxs_applies] at hlive
  · intro anyTx hmem
    have he : anyTx ∈ es := by simpa [applies] using hmem
    obtain ⟨block, tx, hc⟩ := hcarries anyTx he
    obtain ⟨r, hr⟩ := applyRows_of_run h anyTx he
    obtain ⟨rows, rfl⟩ := applyRows_of_carries hc hr
    exact ⟨⟨_, txHash_of_carries hc⟩, _, hr⟩

/-- Every Apply of a legal history names a transaction and writes. -/
theorem LegalHistory.writes {es : List (Option Action)} (h : LegalHistory D cfg specialized es)
    (anyTx : AnyChainTx) (hmem : some (.apply anyTx) ∈ es) :
    (∃ hash, anyTx.txHash = some hash) ∧
      ∃ cr, applyRows D specialized cfg.mode anyTx = .ok (some cr) := by
  obtain ⟨block, tx, hc⟩ := h.carries anyTx hmem
  obtain ⟨r, hr⟩ := h.succeeds anyTx hmem
  obtain ⟨rows, rfl⟩ := applyRows_of_carries hc hr
  exact ⟨⟨_, txHash_of_carries hc⟩, _, hr⟩

theorem LegalHistory.of_initial {pre es : List (Option Action)}
    (h : LegalHistory D cfg specialized es) (hp : pre <+: es) :
    LegalHistory D cfg specialized pre :=
  ⟨fun e he => h.carries e (hp.subset he), fun e he => h.succeeds e (hp.subset he),
    fun p e hpe => h.once p e (hpe.trans hp), fun p e hpe => h.undone p e (hpe.trans hp)⟩

/-- A legal history is handled without error. -/
theorem LegalHistory.run_ok {es : List (Option Action)} (h : LegalHistory D cfg specialized es) :
    ∃ store, run (handleAction D cfg specialized) Store.empty es = .ok store := by
  refine run_of_forall (fun a ha store => ?_) Store.empty
  match a with
  | some (.apply anyTx) =>
    obtain ⟨r, hr⟩ := h.succeeds anyTx ha
    simp only [handleAction, applyTx, hr, bind, Except.bind]
    cases r <;> exact ⟨_, rfl⟩
  | some (.undo anyTx) => exact ⟨_, rfl⟩
  | some (.idle _) => exact ⟨_, rfl⟩
  | none => exact ⟨_, rfl⟩

/-- **The table is a function of the current chain.** At every moment of a legal run from an
    empty database the table consists of the rows of the transactions that were applied and
    not undone, each in the block it was last applied in. -/
theorem matches_eq_live (D : Deps) (cfg : Config) (specialized : List SpecializedTii)
    (hP : D.toPallas.Lawful) (es : List (Option Action)) (h : LegalHistory D cfg specialized es) :
    ∀ pre, pre <+: es → ∃ store,
      run (handleAction D cfg specialized) Store.empty pre = .ok store ∧
      store.matchesTable = (liveTxs pre).flatMap (rowsOf D specialized cfg.mode) := by
  intro pre hp
  have hpre := h.of_initial hp
  obtain ⟨store, hrun⟩ := hpre.run_ok
  exact ⟨store, hrun, run_eq_live hP hpre.writes hpre.once hrun⟩

end Live

/-- A transaction is applied, rolled back, and applied again in a competing block. -/
def sampleHistory : List (Option Action) :=
  [some (.apply (Sample.envelope Sample.childBytes Sample.scriptTx)),
   some (.undo (Sample.envelope Sample.childBytes Sample.scriptTx)),
   some (.apply (Sample.envelope Sample.rivalBytes Sample.scriptTx))]

theorem apply_mem_sampleHistory {anyTx : AnyChainTx} (h : some (.apply anyTx) ∈ sampleHistory) :
    anyTx = Sample.envelope Sample.childBytes Sample.scriptTx ∨
      anyTx = Sample.envelope Sample.rivalBytes Sample.scriptTx := by
  simpa [sampleHistory] using h

set_option maxRecDepth 4000 in
theorem sampleHistory_legal :
    LegalHistory Sample.chainDeps Sample.cfg [Sample.source] sampleHistory := by
  refine ⟨?_, ?_, ?_, ?_⟩
  · intro anyTx h
    rcases apply_mem_sampleHistory h with rfl | rfl
    · exact ⟨_, _, Sample.child_carries⟩
    · exact ⟨_, _, Sample.rival_carries⟩
  · intro anyTx h
    rcases apply_mem_sampleHistory h with rfl | rfl
    · exact ⟨_, rfl⟩
    · exact ⟨_, rfl⟩
  · rintro pre anyTx ⟨rest, h⟩
    match pre, h with
    | [], h => simp [liveTxs]
    | [a], h => simp [sampleHistory] at h
    | [a, b], h =>
      simp only [sampleHistory, List.cons_append, List.nil_append, List.cons.injEq] at h
      obtain ⟨rfl, rfl, -⟩ := h
      simp [liveTxs]
    | a :: b :: c :: pre, h => simp [sampleHistory] at h
  · rintro pre anyTx ⟨rest, h⟩
    match pre, h with
    | [], h => simp [sampleHistory] at h
    | [a], h =>
      simp only [sampleHistory, List.cons_append, List.nil_append, List.cons.injEq,
        Option.some.injEq, Action.undo.injEq] at h
      obtain ⟨rfl, rfl, -⟩ := h
      simp [liveTxs]
    | [a, b], h => simp [sampleHistory] at h
    | a :: b :: c :: pre, h => simp [sampleHistory] at h

theorem matches_eq_live_sample :
    ∃ store, run (handleAction Sample.chainDeps Sample.cfg [Sample.source]) Store.empty
        sampleHistory = .ok store ∧
      store.matchesTable =
        (liveTxs sampleHistory).flatMap (rowsOf Sample.chainDeps [Sample.source] Sample.cfg.mode) :=
  matches_eq_live Sample.chainDeps Sample.cfg [Sample.source] Sample.chainDeps_lawful sampleHistory
    sampleHistory_legal sampleHistory List.prefix_rfl

/-! ## Runs over a chain -/

section Stream

variable {D : Deps} {specialized : List SpecializedTii} {mode : MatchMode}
  {stream : ChainStream D.toPallas}

theorem eventsOf_split {before after : List (Delivery D.toPallas)} {d : Delivery D.toPallas}
    (h : stream.deliveries = before ++ d :: after) :
    stream.events = eventsOf before ++ (d.events ++ eventsOf after) := by
  rw [ChainStream.events, h, eventsOf_append, eventsOf_cons]

/-- Delivering a chain whose events are handled is a legal history. -/
theorem legal_applies {cfg : Config}
    (hhandled : ∀ e ∈ stream.events, ∃ r, applyRows D specialized cfg.mode e = .ok r) :
    LegalHistory D cfg specialized (applies stream.events) := by
  have hmem : ∀ anyTx, some (.apply anyTx) ∈ applies stream.events → anyTx ∈ stream.events := by
    simp [applies]
  refine ⟨fun anyTx h => ?_, fun anyTx h => hhandled anyTx (hmem anyTx h),
    once_applies stream.events_txHash, fun pre anyTx hpre => ?_⟩
  · obtain ⟨d, -, hd⟩ := List.mem_flatMap.mp (hmem anyTx h)
    obtain ⟨tx, hc⟩ := d.carries hd
    exact ⟨_, tx, hc⟩
  · have hundo : some (Action.undo anyTx) ∈ applies stream.events := hpre.subset (by simp)
    simp [applies] at hundo

/-- The table after a prefix of the events. -/
theorem stream_matches (hP : D.toPallas.Lawful) {pre : List AnyChainTx} (hp : pre <+: stream.events)
    {store : Store} (h : run (applyTx D specialized mode) Store.empty pre = .ok store) :
    store.matchesTable = pre.flatMap (rowsOf D specialized mode) := by
  refine run_applies_matches hP (fun e he => ?_) ?_ h
  · obtain ⟨d, -, hd⟩ := List.mem_flatMap.mp (hp.subset he)
    obtain ⟨tx, hc⟩ := d.carries hd
    exact ⟨_, tx, hc⟩
  · exact stream.events_txHash.sublist (hp.sublist.map _)

/-- Where the cursor of a run over deliveries is. -/
theorem stream_cursor {deliveries : List (Delivery D.toPallas)} {pre : List AnyChainTx}
    (hp : pre <+: eventsOf deliveries) {store : Store}
    (h : run (applyTx D specialized mode) Store.empty pre = .ok store) :
    (pre = [] ∧ store = Store.empty) ∨
      ∃ before d after part, deliveries = before ++ d :: after ∧ part ≠ [] ∧
        pre = eventsOf before ++ part ∧ part <+: d.events ∧
        store.cursorRow = some d.block.point.toRow := by
  induction pre using List.reverseRecOn with
  | nil => exact Or.inl ⟨rfl, (Except.ok.inj h).symm⟩
  | append_singleton pre e _ =>
    obtain ⟨before, d, after, part, hsplit, rfl, hpart⟩ := prefix_flatMap_concat hp
    have he : e ∈ d.events := hpart.subset (List.mem_append_right _ (List.mem_singleton_self e))
    obtain ⟨tx, hc⟩ := d.carries he
    exact Or.inr ⟨before, d, after, part ++ [e], hsplit, by simp, by rw [List.append_assoc]; rfl,
      hpart, cursorRow_of_run hc h⟩

/-- A delivery of the chain is at one position only. -/
theorem split_unique {before before' after after' : List (Delivery D.toPallas)}
    {d d' : Delivery D.toPallas} (h : stream.deliveries = before ++ d :: after)
    (h' : stream.deliveries = before' ++ d' :: after') (hhash : d.block.hash = d'.block.hash) :
    before = before' ∧ d = d' := by
  have hd : d = d' := stream.eq_of_hash (by simp [h]) (by simp [h']) hhash
  subst hd
  have hnodup : stream.deliveries.Nodup := List.Nodup.of_map _ stream.hashes
  rw [h] at hnodup
  have hnot : d ∉ before := fun hmem =>
    (List.nodup_append.mp hnodup).2.2 d hmem d (by simp) rfl
  have hnot' : d ∉ after := (List.nodup_cons.mp (List.nodup_append.mp hnodup).2.1).1
  exact ⟨((List.append_cons_inj_of_notMem hnot hnot').mp (h.symm.trans h')).1, rfl⟩

end Stream

end Tx3Lift
