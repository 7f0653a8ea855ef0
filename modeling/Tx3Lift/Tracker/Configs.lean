import Tx3Lift.Tracker.Provenance
import Tx3Lift.Tracker.Redelivery

/-!
# One stream, two configurations

Two trackers handle the same responses with different sources or modes. Each key of the table is
followed through both runs.

* `best_is_rank_one`: mode `Best` stores the rows of rank 1 of mode `All`.
* `source_rows_independent`: in mode `All` the rows of a source do not depend on the other sources,
  their rank apart.
-/

namespace Tx3Lift

open Lib

/-! ## One response -/

section Responses

variable {D : Deps} {specs specs' : List SpecializedTii} {mode mode' : MatchMode}
  {anyTx : AnyChainTx}

/-- What two configurations make of one Apply. -/
theorem applyRows_two {r r' : Option (ChainPoint × List OwnedMatchRow)}
    (h : applyRows D specs mode anyTx = .ok r) (h' : applyRows D specs' mode' anyTx = .ok r') :
    (r = none ∧ r' = none) ∨
      ∃ (block : MultiEraBlock) (payload : CardanoPayload) (tx : MultiEraTx)
          (rows rows' : List OwnedMatchRow), payload.parsed D.toPallas = .ok tx ∧
        r = some (block.point, rows) ∧ r' = some (block.point, rows') ∧
        runSpecializations D specs payload block.slot block.hash.bytes mode = .ok rows ∧
        runSpecializations D specs' payload block.slot block.hash.bytes mode' = .ok rows' := by
  cases r with
  | none =>
    cases r' with
    | none => exact Or.inl ⟨rfl, rfl⟩
    | some cr =>
      obtain ⟨cursor, rows⟩ := cr
      obtain ⟨block, payload, tx, hp, -, -⟩ := applyRows_eq_ok.mp h'
      obtain ⟨cardanoTx, -, -, hchain, -⟩ := hp.target
      obtain ⟨rows', hsome⟩ := applyRows_of_decoded hchain hp.decodes h
      cases hsome
  | some cr =>
    obtain ⟨cursor, rows⟩ := cr
    obtain ⟨block, payload, tx, hp, rfl, hrows⟩ := applyRows_eq_ok.mp h
    obtain ⟨cardanoTx, -, -, hchain, -⟩ := hp.target
    obtain ⟨rows', rfl⟩ := applyRows_of_decoded hchain hp.decodes h'
    obtain ⟨block', payload', tx', hp', -, hrows'⟩ := applyRows_eq_ok.mp h'
    obtain ⟨rfl, rfl, rfl⟩ := hp.unique hp'
    exact Or.inr ⟨_, _, _, rows, rows', hp.parses, rfl, rfl, hrows, hrows'⟩

/-- The cursor does not depend on the sources and the mode. -/
theorem cursorUpdate_two {cfg cfg' : Config} {a : Option Action} {s t s' t' : Store}
    (h : handleAction D cfg specs s a = .ok t) (h' : handleAction D cfg' specs' s' a = .ok t') :
    cursorUpdate D specs' cfg'.mode a = cursorUpdate D specs cfg.mode a := by
  match a with
  | some (.apply anyTx) =>
    obtain ⟨r, hr, -⟩ := Except.bind_eq_ok h
    obtain ⟨r', hr', -⟩ := Except.bind_eq_ok h'
    rcases applyRows_two hr hr' with ⟨rfl, rfl⟩ | ⟨_, _, _, _, _, -, rfl, rfl, -, -⟩
    · simp only [cursorUpdate, hr, hr']
    · simp only [cursorUpdate, hr, hr']
  | some (.undo anyTx) => rfl
  | some (.idle _) => rfl
  | none => rfl

theorem run_cursor_two {cfg cfg' : Config} {es : List (Option Action)} {start s s' : Store}
    (h : run (handleAction D cfg specs) start es = .ok s)
    (h' : run (handleAction D cfg' specs') start es = .ok s') : s'.cursor = s.cursor := by
  have hrow : s'.cursorRow = s.cursorRow := by
    rw [run_cursorRow h, run_cursorRow h']
    refine List.foldl_ext _ _ _ fun cell a ha => ?_
    obtain ⟨_, _, hstep⟩ := exists_step_of_run h a ha
    obtain ⟨_, _, hstep'⟩ := exists_step_of_run h' a ha
    rw [cursorUpdate_two hstep hstep']
  rw [Store.cursor, Store.cursor, hrow]

/-- The row of a key after a run, as one run of its cell. -/
theorem run_row_updates {cfg : Config} {es : List (Option Action)} {start s : Store}
    (h : run (handleAction D cfg specs) start es = .ok s) (key : ByteBuf × String) :
    rowOf MatchesRow.key key s.matchesTable =
      (es.map (rowUpdate D specs cfg.mode key)).foldl Update.apply
        (rowOf MatchesRow.key key start.matchesTable) := by
  rw [run_row h, List.foldl_map]

end Responses

/-! ## The two modes -/

/-- The rows that mode `Best` keeps. -/
def MatchesRow.best (row : MatchesRow) : Bool := decide (row.matchRank = 1)

/-- An Apply that comes again without an Undo in between ranks its rows as before. -/
def SteadyRanks (D : Deps) (specs : List SpecializedTii) (es : List (Option Action)) : Prop :=
  ∀ pre x mid y post, es = pre ++ some (.apply x) :: mid ++ some (.apply y) :: post →
    ∀ r ∈ rowsOf D specs .all x, ∀ r' ∈ rowsOf D specs .all y, r.key = r'.key →
      NotUndone r.txHash mid → r.matchRank = r'.matchRank

section Modes

variable {D : Deps} {specs : List SpecializedTii} {anyTx : AnyChainTx}

theorem runSpecializations_best {payload : CardanoPayload} {slot : UInt64} {hash : ByteBuf}
    {rows : List OwnedMatchRow} (h : runSpecializations D specs payload slot hash .all = .ok rows) :
    runSpecializations D specs payload slot hash .best =
      .ok (rows.filter fun row => decide (row.matchRank = 1)) := by
  obtain ⟨tx, hparse, hrows⟩ := runSpecializations_eq_ok.mp h
  refine runSpecializations_eq_ok.mpr ⟨tx, hparse, ?_⟩
  rw [selectMatches_best]
  refine forall₂_filter hrows fun r row _ hlift => ?_
  rw [(liftSurvivor_score hlift).2]

/-- If mode `All` handles an Apply, mode `Best` does, and keeps the rows of rank 1. -/
theorem applyRows_best {r : Option (ChainPoint × List OwnedMatchRow)}
    (h : applyRows D specs .all anyTx = .ok r) :
    applyRows D specs .best anyTx =
      .ok (r.map fun cr => (cr.1, cr.2.filter fun row => decide (row.matchRank = 1))) := by
  cases r with
  | none =>
    unfold applyRows at h ⊢
    split at h
    · split_ifs at h with hempty
      · simp only [hempty, if_true]
        rfl
      · obtain ⟨_, -, h⟩ := Except.bind_eq_ok h
        obtain ⟨_, -, h⟩ := Except.bind_eq_ok h
        obtain ⟨_, -, h⟩ := Except.bind_eq_ok h
        obtain ⟨_, -, h⟩ := Except.bind_eq_ok h
        obtain ⟨_, -, h⟩ := Except.bind_eq_ok h
        cases h
    · rfl
  | some cr =>
    obtain ⟨cursor, rows⟩ := cr
    obtain ⟨block, payload, tx, hp, rfl, hrows⟩ := applyRows_eq_ok.mp h
    exact applyRows_eq_ok.mpr ⟨block, payload, tx, hp, rfl, runSpecializations_best hrows⟩

theorem handleAction_best {cfg : Config} {a : Option Action} {s t : Store}
    (h : handleAction D { cfg with mode := .all } specs s a = .ok t) (other : Store) :
    ∃ other', handleAction D { cfg with mode := .best } specs other a = .ok other' := by
  match a with
  | some (.apply anyTx) =>
    obtain ⟨r, hr, -⟩ := Except.bind_eq_ok h
    have hbest : applyRows D specs .best anyTx = _ := applyRows_best hr
    cases r with
    | none => exact ⟨other, applyTx_eq.mpr (Or.inl ⟨hbest, rfl⟩)⟩
    | some cr => exact ⟨_, applyTx_eq.mpr (Or.inr ⟨_, _, hbest, rfl⟩)⟩
  | some (.undo anyTx) => exact ⟨_, rfl⟩
  | some (.idle _) => exact ⟨_, rfl⟩
  | none => exact ⟨_, rfl⟩

theorem rowsOf_best (h : ∃ r, applyRows D specs .all anyTx = .ok r) :
    rowsOf D specs .best anyTx = (rowsOf D specs .all anyTx).filter MatchesRow.best := by
  obtain ⟨r, hr⟩ := h
  have hbest := applyRows_best hr
  cases r with
  | none =>
    rw [rowsOf, rowsOf, hr, hbest]
    rfl
  | some cr =>
    rw [rowsOf_eq hr, rowsOf_eq hbest, List.filter_map]
    rfl

/-- One response: the row of a key in mode `Best`. -/
theorem rowUpdate_best {cfg : Config} {a : Option Action} {s t : Store}
    (h : handleAction D { cfg with mode := .all } specs s a = .ok t) (key : ByteBuf × String) :
    rowUpdate D specs .best key a = (rowUpdate D specs .all key a).filter MatchesRow.best := by
  match a with
  | some (.apply anyTx) =>
    obtain ⟨r, hr, -⟩ := Except.bind_eq_ok h
    have hbest : applyRows D specs .best anyTx = _ := applyRows_best hr
    cases r with
    | none =>
      simp only [rowUpdate, changeOf, hr, hbest]
      rfl
    | some cr =>
      have hrows : rowsOf D specs .best anyTx = _ := rowsOf_best ⟨_, hr⟩
      simp only [rowUpdate, changeOf_apply hr, changeOf_apply hbest, Change.update, hrows]
      rw [rowOf_filter rowsOf_keys]
      cases rowOf MatchesRow.key key (rowsOf D specs .all anyTx) with
      | none => rfl
      | some row =>
        cases hrank : row.best with
        | true => simp [Option.filter, Update.filter, hrank]
        | false => simp [Option.filter, Update.filter, hrank]
  | some (.undo anyTx) =>
    cases htx : anyTx.txHash with
    | none =>
      simp only [rowUpdate, changeOf, htx]
      rfl
    | some txHash =>
      simp only [rowUpdate, changeOf, htx, Option.map_some, Change.update]
      split_ifs
      · rfl
      · rfl
  | some (.idle _) => rfl
  | none => rfl

/-- A row that is stored when an Apply brings one of its key. -/
theorem SteadyRanks.stored {cfg : Config} {es pre post : List (Option Action)} {a : Option Action}
    (h : SteadyRanks D specs es) (hsplit : es = pre ++ a :: post) {s : Store}
    (hrun : run (handleAction D { cfg with mode := .all } specs) Store.empty pre = .ok s)
    {key : ByteBuf × String} {r r' : MatchesRow}
    (hr : rowOf MatchesRow.key key s.matchesTable = some r)
    (hr' : rowUpdate D specs .all key a = .fill r') : r.best = r'.best := by
  have hmem := List.mem_of_find?_eq_some hr
  have hkey : r.key = key := by simpa using List.find?_some hr
  rw [run_matches hrun] at hmem
  obtain ⟨before, g, rows, after, hput, hrow, hdrop⟩ := exists_put_of_mem_replay hmem
  obtain ⟨first, x, mid, rfl, rfl, rfl, -⟩ := split_at_put hput
  unfold rowUpdate at hr'
  cases hc : changeOf D specs .all a with
  | none =>
    simp only [hc] at hr'
    cases hr'
  | some change =>
    simp only [hc] at hr'
    cases change with
    | drop g' =>
      rw [Change.update] at hr'
      split_ifs at hr'
    | put g' rows' =>
      obtain ⟨y, rfl, -, rfl, -⟩ := changeOf_eq_put hc
      rw [Change.update] at hr'
      cases hfound : rowOf MatchesRow.key key (rowsOf D specs .all y) with
      | none =>
        simp only [hfound] at hr'
        cases hr'
      | some row =>
        simp only [hfound] at hr'
        cases hr'
        have hkey' : r'.key = key := by simpa using List.find?_some hfound
        have hrank := h first x mid y post hsplit r hrow r' (List.mem_of_find?_eq_some hfound)
          (hkey.trans hkey'.symm) (notUndone_iff.mpr hdrop)
        rw [MatchesRow.best, MatchesRow.best, hrank]

end Modes

/-- **Mode `Best` is a view of mode `All`.** On every stream on which mode `All` runs, mode `Best`
    runs and stores exactly the rows that have rank 1 in mode `All`, with the same cursor, also when
    transactions are undone, applied again and delivered again. -/
theorem best_is_rank_one (D : Deps) (cfg : Config) (specs : List SpecializedTii)
    (es : List (Option Action)) (hsteady : SteadyRanks D specs es) (store : Store)
    (hrun : run (handleAction D { cfg with mode := .all } specs) Store.empty es = .ok store) :
    ∃ store', run (handleAction D { cfg with mode := .best } specs) Store.empty es = .ok store' ∧
      store'.matchesTable.Perm (store.matchesTable.filter MatchesRow.best) ∧
      store'.cursor = store.cursor := by
  obtain ⟨store', hrun'⟩ : ∃ store', run (handleAction D { cfg with mode := .best } specs)
      Store.empty es = .ok store' := by
    refine run_of_forall (fun a ha s => ?_) Store.empty
    obtain ⟨_, _, hstep⟩ := exists_step_of_run hrun a ha
    exact handleAction_best hstep s
  refine ⟨store', hrun', ?_, run_cursor_two hrun hrun'⟩
  have hnodup : ((store.matchesTable.filter MatchesRow.best).map MatchesRow.key).Nodup :=
    store.unique.sublist (List.filter_sublist.map MatchesRow.key)
  refine perm_of_rowOf store'.unique hnodup fun key => ?_
  rw [rowOf_filter store.unique, run_row_updates hrun, run_row_updates hrun', foldl_apply_contents]
  · rw [List.map_map]
    congr 1
    refine List.map_congr_left fun a ha => ?_
    obtain ⟨_, _, hstep⟩ := exists_step_of_run hrun a ha
    exact rowUpdate_best hstep key
  · intro us b vs hsplit c hc
    obtain ⟨pre, rest, rfl, rfl, hrest⟩ := List.map_eq_append_iff.mp hsplit
    obtain ⟨a, post, rfl, ha, rfl⟩ := List.map_eq_cons_iff.mp hrest
    obtain ⟨mid, hpre, -⟩ := run_append_ok.mp hrun
    refine hsteady.stored rfl hpre ?_ ha
    rw [run_row_updates hpre]
    exact hc

/-- An Apply that is delivered twice. -/
def Sample.repeated : List (Option Action) :=
  [some (.apply (Sample.envelope Sample.childBytes Sample.scriptTx)),
   some (.apply (Sample.envelope Sample.childBytes Sample.scriptTx))]

theorem Sample.repeated_steady :
    SteadyRanks Sample.chainDeps [Sample.source] Sample.repeated := by
  intro pre x mid y post hsplit r hr r' hr' hkey _
  have hall : ∀ z, some (.apply z) ∈ Sample.repeated →
      z = Sample.envelope Sample.childBytes Sample.scriptTx := by
    intro z hz
    simpa [Sample.repeated] using hz
  rw [hall x (by rw [hsplit]; simp)] at hr
  rw [hall y (by rw [hsplit]; simp)] at hr'
  rw [List.inj_on_of_nodup_map rowsOf_keys hr hr' hkey]

set_option maxRecDepth 4000 in
theorem best_is_rank_one_sample :
    ∃ store, run (handleAction Sample.chainDeps { Sample.cfg with mode := .all } [Sample.source])
        Store.empty Sample.repeated = .ok store ∧
      ∃ store', run (handleAction Sample.chainDeps { Sample.cfg with mode := .best }
          [Sample.source]) Store.empty Sample.repeated = .ok store' ∧
        store'.matchesTable.Perm (store.matchesTable.filter MatchesRow.best) ∧
        store'.cursor = store.cursor := by
  obtain ⟨store, hrun⟩ : ∃ store, run (handleAction Sample.chainDeps
      { Sample.cfg with mode := .all } [Sample.source]) Store.empty Sample.repeated =
        .ok store := ⟨_, rfl⟩
  exact ⟨store, hrun, best_is_rank_one Sample.chainDeps Sample.cfg [Sample.source] Sample.repeated
    Sample.repeated_steady store hrun⟩

/-! ## The rows of one source -/

/-- What a row says without its rank. -/
def MatchesRow.unranked (row : MatchesRow) : MatchesRow := { row with matchRank := 0 }

/-- The configured sources of a name. -/
def named (name : String) (specs : List SpecializedTii) : List SpecializedTii :=
  specs.filter fun spec => decide (spec.name = name)

section Sources

variable {D : Deps} {specs specs' : List SpecializedTii} {name : String}

theorem candidates_named (payload : CardanoPayload) (tx : MultiEraTx) :
    ((specs.flatMap (candidatesOf D payload tx)).filter fun c => decide (c.sourceName = name)) =
      (named name specs).flatMap (candidatesOf D payload tx) := by
  rw [named]
  induction specs with
  | nil => rfl
  | cons spec specs ih =>
    rw [List.flatMap_cons, List.filter_append, ih, List.filter_cons]
    by_cases hname : spec.name = name
    · have hkeep : (candidatesOf D payload tx spec).filter
          (fun c => decide (c.sourceName = name)) = candidatesOf D payload tx spec := by
        refine List.filter_eq_self.mpr fun c hc => ?_
        rw [(candidatesOf_spec hc).1]
        exact decide_eq_true hname
      simp [hname, hkeep]
    · have hdrop : (candidatesOf D payload tx spec).filter
          (fun c => decide (c.sourceName = name)) = [] := by
        refine List.filter_eq_nil_iff.mpr fun c hc => ?_
        simp [(candidatesOf_spec hc).1, hname]
      simp [hname, hdrop]

/-- The survivor of a source does not depend on the other sources. -/
theorem mem_survivors_named (hsame : named name specs = named name specs')
    {payload : CardanoPayload} {tx : MultiEraTx} {c : Candidate LiftInputs}
    (hname : c.sourceName = name)
    (hc : c ∈ survivors (specs.flatMap (candidatesOf D payload tx))) :
    c ∈ survivors (specs'.flatMap (candidatesOf D payload tx)) := by
  rw [mem_survivors, bestPerSource_eq] at hc ⊢
  refine (mem_bestPerKey_congr replaces_preference ?_).mp hc
  rw [hname, candidates_named, candidates_named, hsame]

/-- One payload: the row of a source with other sources next to it. -/
theorem rows_named (hsame : named name specs = named name specs') {payload : CardanoPayload}
    {slot : UInt64} {hash : ByteBuf} {rows rows' : List OwnedMatchRow}
    (h : runSpecializations D specs payload slot hash .all = .ok rows)
    (h' : runSpecializations D specs' payload slot hash .all = .ok rows') {row : OwnedMatchRow}
    (hrow : row ∈ rows) (hname : row.sourceName = name) : ∃ row' ∈ rows', SameButRank row row' := by
  obtain ⟨tx, hparse, hrows⟩ := rows_of_survivors h
  obtain ⟨tx', hparse', hrows'⟩ := rows_of_survivors h'
  cases hparse.symm.trans hparse'
  obtain ⟨c, hc, hsource, -, -, hlift⟩ := exists_left_of_forall₂ hrows hrow
  have hc' := mem_survivors_named hsame (hsource.symm.trans hname) hc
  obtain ⟨row', hrow', -, -, -, hlift'⟩ := exists_right_of_forall₂ hrows' hc'
  exact ⟨row', hrow', liftSurvivor_sameButRank hlift hlift'⟩

/-- One Apply. -/
theorem rowsOf_named (hsame : named name specs = named name specs') {anyTx : AnyChainTx}
    (h : ∃ r, applyRows D specs .all anyTx = .ok r)
    (h' : ∃ r, applyRows D specs' .all anyTx = .ok r)
    {row : MatchesRow} (hrow : row ∈ rowsOf D specs .all anyTx) (hname : row.sourceName = name) :
    ∃ row' ∈ rowsOf D specs' .all anyTx, row'.unranked = row.unranked := by
  obtain ⟨r, hr⟩ := h
  obtain ⟨r', hr'⟩ := h'
  rcases applyRows_two hr hr' with ⟨rfl, rfl⟩ | ⟨block, payload, tx, rows, rows', -, rfl, rfl, hrun,
    hrun'⟩
  · simp [rowsOf, hr] at hrow
  · rw [rowsOf_eq hr] at hrow
    rw [rowsOf_eq hr']
    obtain ⟨owned, howned, rfl⟩ := List.mem_map.mp hrow
    obtain ⟨owned', howned', hrank⟩ := rows_named hsame hrun hrun' howned hname
    refine ⟨owned'.toRow, List.mem_map_of_mem howned', ?_⟩
    rw [hrank]
    rfl

/-- The row of a key of the source, up to its rank. -/
theorem rowOf_named (hsame : named name specs = named name specs') {anyTx : AnyChainTx}
    (h : ∃ r, applyRows D specs .all anyTx = .ok r)
    (h' : ∃ r, applyRows D specs' .all anyTx = .ok r)
    {key : ByteBuf × String} (hname : key.2 = name) :
    (rowOf MatchesRow.key key (rowsOf D specs .all anyTx)).map MatchesRow.unranked =
      (rowOf MatchesRow.key key (rowsOf D specs' .all anyTx)).map MatchesRow.unranked := by
  have hstep : ∀ {sp sp' : List SpecializedTii}, named name sp = named name sp' →
      (∃ r, applyRows D sp .all anyTx = .ok r) → (∃ r, applyRows D sp' .all anyTx = .ok r) →
      ∀ row, rowOf MatchesRow.key key (rowsOf D sp .all anyTx) = some row →
        ∃ row', rowOf MatchesRow.key key (rowsOf D sp' .all anyTx) = some row' ∧
          row'.unranked = row.unranked := by
    intro sp sp' hsp hok hok' row hrow
    have hkey : row.key = key := by simpa using List.find?_some hrow
    obtain ⟨row', hmem, hrank⟩ := rowsOf_named hsp hok hok' (List.mem_of_find?_eq_some hrow)
      ((congrArg Prod.snd hkey).trans hname)
    have hkey' : row'.key = key := (congrArg MatchesRow.key hrank).trans hkey
    exact ⟨row', hkey' ▸ (mem_iff_rowOf MatchesRow.key rowsOf_keys).mp hmem, hrank⟩
  cases hrow : rowOf MatchesRow.key key (rowsOf D specs .all anyTx) with
  | some row =>
    obtain ⟨row', hrow', hrank⟩ := hstep hsame h h' row hrow
    rw [hrow', Option.map_some, Option.map_some, hrank]
  | none =>
    cases hrow' : rowOf MatchesRow.key key (rowsOf D specs' .all anyTx) with
    | none => rfl
    | some row' =>
      obtain ⟨row, hsome, -⟩ := hstep hsame.symm h' h row' hrow'
      cases hrow.symm.trans hsome

/-- One response: the row of a key of the source. -/
theorem rowUpdate_named {cfg cfg' : Config} (hsame : named name specs = named name specs')
    {a : Option Action} {s t s' t' : Store}
    (h : handleAction D { cfg with mode := .all } specs s a = .ok t)
    (h' : handleAction D { cfg' with mode := .all } specs' s' a = .ok t') {key : ByteBuf × String}
    (hname : key.2 = name) :
    (rowUpdate D specs .all key a).map MatchesRow.unranked =
      (rowUpdate D specs' .all key a).map MatchesRow.unranked := by
  match a with
  | some (.apply anyTx) =>
    obtain ⟨r, hr, -⟩ := Except.bind_eq_ok h
    obtain ⟨r', hr', -⟩ := Except.bind_eq_ok h'
    have hrows := rowOf_named hsame ⟨r, hr⟩ ⟨r', hr'⟩ hname
    rcases applyRows_two hr hr' with ⟨rfl, rfl⟩ | ⟨_, _, _, _, _, -, rfl, rfl, -, -⟩
    · have hnone : applyRows D specs .all anyTx = .ok none := hr
      have hnone' : applyRows D specs' .all anyTx = .ok none := hr'
      simp only [rowUpdate, changeOf, hnone, hnone']
    · simp only [rowUpdate, changeOf_apply hr, changeOf_apply hr', Change.update]
      cases hfound : rowOf MatchesRow.key key (rowsOf D specs .all anyTx) with
      | none =>
        rw [hfound] at hrows
        rw [Option.map_eq_none_iff.mp hrows.symm]
      | some row =>
        rw [hfound] at hrows
        obtain ⟨row', hfound', hrank⟩ := Option.map_eq_some_iff.mp hrows.symm
        rw [hfound']
        simp only [Update.map, hrank]
  | some (.undo anyTx) => rfl
  | some (.idle _) => rfl
  | none => rfl

end Sources

/-- The rows of a source in a database, without their ranks. -/
def Store.ownRows (store : Store) (name : String) : List MatchesRow :=
  (store.matchesTable.filter fun row => decide (row.sourceName = name)).map MatchesRow.unranked

theorem unranked_key (row : MatchesRow) : row.unranked.key = row.key := rfl

theorem ownRows_nodup (store : Store) (name : String) :
    ((store.ownRows name).map MatchesRow.key).Nodup := by
  rw [Store.ownRows, List.map_map]
  exact store.unique.sublist (List.filter_sublist.map MatchesRow.key)

theorem rowOf_ownRows (store : Store) (name : String) (key : ByteBuf × String) :
    rowOf MatchesRow.key key (store.ownRows name) =
      if key.2 = name then (rowOf MatchesRow.key key store.matchesTable).map MatchesRow.unranked
      else none := by
  rw [Store.ownRows, rowOf_map unranked_key, rowOf_filter store.unique]
  cases hrow : rowOf MatchesRow.key key store.matchesTable with
  | none => simp
  | some row =>
    have hkey : row.key = key := by simpa using List.find?_some hrow
    have hname : row.sourceName = key.2 := congrArg Prod.snd hkey
    split_ifs with h
    · simp [Option.filter, hname, h]
    · simp [Option.filter, hname, h]

/-- **The rows of a source are its own.** Take two trackers in mode `All` on the same stream and in
    databases with the same rows at the start. If they have the same configuration of the sources
    of one name, they store the same rows of that name, apart from the rank, whatever other sources
    they have and wherever these stand, and the same cursor. -/
theorem source_rows_independent (D : Deps) (cfg cfg' : Config) (specs specs' : List SpecializedTii)
    (name : String) (hsame : named name specs = named name specs') (start s s' : Store)
    (es : List (Option Action))
    (hrun : run (handleAction D { cfg with mode := .all } specs) start es = .ok s)
    (hrun' : run (handleAction D { cfg' with mode := .all } specs') start es = .ok s') :
    (s'.ownRows name).Perm (s.ownRows name) ∧ s'.cursor = s.cursor := by
  refine ⟨?_, run_cursor_two hrun hrun'⟩
  have hcell : ∀ key : ByteBuf × String, key.2 = name →
      (rowOf MatchesRow.key key s'.matchesTable).map MatchesRow.unranked =
        (rowOf MatchesRow.key key s.matchesTable).map MatchesRow.unranked := by
    intro key hname
    rw [run_row_updates hrun, run_row_updates hrun', foldl_apply_map, foldl_apply_map, List.map_map,
      List.map_map]
    congr 1
    refine List.map_congr_left fun a ha => ?_
    obtain ⟨_, _, hstep⟩ := exists_step_of_run hrun a ha
    obtain ⟨_, _, hstep'⟩ := exists_step_of_run hrun' a ha
    exact (rowUpdate_named hsame hstep hstep' hname).symm
  refine perm_of_rowOf (ownRows_nodup s' name) (ownRows_nodup s name) fun key => ?_
  rw [rowOf_ownRows, rowOf_ownRows]
  split_ifs with hname
  · exact hcell key hname
  · rfl

/-- A second source next to the first. -/
def Sample.otherSource : SpecializedTii := { Sample.source with name := "other" }

set_option maxRecDepth 4000 in
theorem source_rows_independent_sample :
    ∃ s s', run (handleAction Sample.chainDeps { Sample.cfg with mode := .all } [Sample.source])
        Store.empty sampleHistory = .ok s ∧
      run (handleAction Sample.chainDeps { Sample.cfg with mode := .all }
        [Sample.otherSource, Sample.source]) Store.empty sampleHistory = .ok s' ∧
      (s'.ownRows Sample.source.name).Perm (s.ownRows Sample.source.name) ∧
      s'.cursor = s.cursor := by
  obtain ⟨s, hrun⟩ : ∃ s, run (handleAction Sample.chainDeps { Sample.cfg with mode := .all }
      [Sample.source]) Store.empty sampleHistory = .ok s := ⟨_, rfl⟩
  obtain ⟨s', hrun'⟩ : ∃ s', run (handleAction Sample.chainDeps { Sample.cfg with mode := .all }
      [Sample.otherSource, Sample.source]) Store.empty sampleHistory = .ok s' := ⟨_, rfl⟩
  exact ⟨s, s', hrun, hrun', source_rows_independent Sample.chainDeps Sample.cfg Sample.cfg
    [Sample.source] [Sample.otherSource, Sample.source] Sample.source.name rfl Store.empty s s'
    sampleHistory hrun hrun'⟩

end Tx3Lift
