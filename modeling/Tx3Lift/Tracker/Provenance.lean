import Tx3Lift.Lib.History
import Tx3Lift.Tracker.Cursor
import Tx3Lift.Tracker.Sources

/-!
# Where the rows come from

Every row of the database is traced back to the response that brought it and to everything that
response had to pass: the block, the transaction in it, the gate of a source, the pre-filter and
the matcher for one of its templates, and the lift whose result is stored.

* `applyRows_eq_ok`: an Apply that is written, as one run of `run_specializations` on what its
  envelope presents.
* `stored_row_explained`: every row of every reachable database is explained by an Apply that was
  not undone since.
* `stored_keys_exact`: in mode `All` the stored pairs of transaction and source are exactly the
  matches of the Applies not undone since.
-/

namespace Tx3Lift

open Lib

/-! ## What an envelope presents -/

/-- What `apply_tx` reads from an envelope before it matches (lines 29–74): the block, and the
    payload of the named transaction with what it parses to. -/
structure Presents (P : Pallas) (anyTx : AnyChainTx) (block : MultiEraBlock)
    (payload : CardanoPayload) (tx : MultiEraTx) : Prop where
  decodes : anyTx.decodedBlock P = some block
  target : ∃ cardanoTx targetHash target, anyTx.chain = some cardanoTx ∧
    Hash.ofBytes? 32 cardanoTx.hash = some targetHash ∧
    block.txs.find? (fun t => t.hash = targetHash) = some target ∧
    payload = CardanoPayload.withResolvedInputs { raw := target.cbor }
      (collectResolvedInputs cardanoTx block.era)
  parses : payload.parsed P = .ok tx

section Presents

variable {D : Deps} {specialized : List SpecializedTii} {mode : MatchMode} {anyTx : AnyChainTx}

/-- The steps of an Apply that is written. -/
theorem applyRows_eq_ok {cursor : ChainPoint} {rows : List OwnedMatchRow} :
    applyRows D specialized mode anyTx = .ok (some (cursor, rows)) ↔
      ∃ block payload tx, Presents D.toPallas anyTx block payload tx ∧ cursor = block.point ∧
        runSpecializations D specialized payload block.slot block.hash.bytes mode = .ok rows := by
  constructor
  · intro h
    obtain ⟨cardanoTx, block, targetHash, target, raw, hchain, hdecoded, hhash, hfind, hraw,
      hcursor, hrows⟩ := applyRows_eq_some h
    exact ⟨block, _, raw,
      ⟨hdecoded, ⟨cardanoTx, targetHash, target, hchain, hhash, hfind, rfl⟩, hraw⟩, hcursor, hrows⟩
  · rintro ⟨block, payload, tx, hp, rfl, hrows⟩
    obtain ⟨cardanoTx, targetHash, target, hchain, hhash, hfind, rfl⟩ := hp.target
    obtain ⟨b, hblock, hne, hdecode⟩ := decodedBlock_eq_some.mp hp.decodes
    have hempty : b.nativeBytes.isEmpty = false := by simpa using hne
    have hparse : pallasResult (D.decodeTx target.cbor) = .ok tx := hp.parses
    have hpayload : liftCardano (CardanoPayload.fromCbor D.toPallas target.cbor) =
        .ok { raw := target.cbor } := by
      rw [CardanoPayload.fromCbor, hparse]
      rfl
    simp only [applyRows, hchain, hblock, hempty, Bool.false_eq_true, if_false, hdecode,
      Except.mapError, okOr_eq_ok.mpr hhash, okOr_eq_ok.mpr hfind, hpayload, hrows, Except.ok_bind]
    rfl

/-- An envelope presents one payload only. -/
theorem Presents.unique {P : Pallas} {block block' : MultiEraBlock}
    {payload payload' : CardanoPayload} {tx tx' : MultiEraTx}
    (h : Presents P anyTx block payload tx) (h' : Presents P anyTx block' payload' tx') :
    block' = block ∧ payload' = payload ∧ tx' = tx := by
  obtain ⟨cardanoTx, targetHash, target, hchain, hhash, hfind, rfl⟩ := h.target
  obtain ⟨cardanoTx', targetHash', target', hchain', hhash', hfind', rfl⟩ := h'.target
  cases h.decodes.symm.trans h'.decodes
  cases hchain.symm.trans hchain'
  cases hhash.symm.trans hhash'
  cases hfind.symm.trans hfind'
  cases h.parses.symm.trans h'.parses
  exact ⟨rfl, rfl, rfl⟩

end Presents

/-! ## Explained rows -/

/-- Everything that one row says: the source gates the payload, the named template is one of its
    own, passes the pre-filter and the matcher, and the row holds the lift of that match. No
    template of a source of this name that passes both has a higher score. -/
structure Explains (D : Deps) (specialized : List SpecializedTii) (block : MultiEraBlock)
    (payload : CardanoPayload) (tx : MultiEraTx) (spec : SpecializedTii) (tir : Tir.Tx)
    (fp : Fingerprint) (a : MatchAssignment) (lifted : Lifted) (row : MatchesRow) : Prop where
  source : spec ∈ specialized
  gates : (spec.anchors.hits (summarizeTx D.toPallas payload tx)).gates = true
  cached : spec.txs[row.txName]? = some (tir, fp)
  admitted : fp.matchesSummary (summarizeTx D.toPallas payload tx) = true
  matched : matchTx D.toPallas tir payload "" "" = .ok (some a)
  lifts : lift D.toPallas D.bech32 spec.tii row.txName spec.profileName tir payload a = .ok lifted
  stored : D.toJson lifted = .ok row.lifted
  txHash : row.txHash = tx.hash.bytes
  blockSlot : row.blockSlot = block.slot.toInt64
  blockHash : row.blockHash = block.hash.bytes
  sourceName : row.sourceName = spec.name
  protocolName : row.protocolName = spec.tii.protocolName
  profileName : row.profileName = spec.profileName
  score : row.score = spec.score (summarizeTx D.toPallas payload tx) fp
  best : ∀ other ∈ specialized, other.name = spec.name →
    (other.anchors.hits (summarizeTx D.toPallas payload tx)).gates = true →
    ∀ (txName : String) (tir' : Tir.Tx) (fp' : Fingerprint),
      other.txs[txName]? = some (tir', fp') → Accepted D.toPallas payload tx tir' fp' →
      other.score (summarizeTx D.toPallas payload tx) fp' ≤ row.score

section Rows

variable {D : Deps} {specialized : List SpecializedTii} {mode : MatchMode} {block : MultiEraBlock}
  {payload : CardanoPayload} {tx : MultiEraTx} {rows : List OwnedMatchRow}

/-- Every row of `run_specializations` is explained. -/
theorem runSpecializations_explained (hparse : payload.parsed D.toPallas = .ok tx)
    (h : runSpecializations D specialized payload block.slot block.hash.bytes mode = .ok rows) :
    ∀ row ∈ rows, ∃ spec tir fp a lifted,
      Explains D specialized block payload tx spec tir fp a lifted row.toRow := by
  obtain ⟨tx', hparse', hrows⟩ := runSpecializations_eq_ok.mp h
  cases hparse.symm.trans hparse'
  intro row hrow
  obtain ⟨r, hr, hlift⟩ := exists_left_of_forall₂ hrows hrow
  have hall := (selectMatches_sublist _ mode).subset hr
  have hbest := (selectMatches_all_spec _).1 r hall
  obtain ⟨spec, hspec, hc⟩ := List.mem_flatMap.mp hbest.mem
  obtain ⟨hgates, tir, fp, a, hcached, hadmitted, hmatch, hcand⟩ := mem_candidatesOf.mp hc
  obtain ⟨lifted, json, hlifted, hjson, rfl⟩ := liftSurvivor_eq_ok.mp hlift
  have hname := (candidatesOf_spec hc).1
  have hown := (candidatesOf_spec hc).2
  have htir : r.candidate.payload.tir = tir := by rw [hcand]
  have hassignment : r.candidate.payload.assignment = a := by rw [hcand]
  have hscore : r.candidate.score = spec.score (summarizeTx D.toPallas payload tx) fp := by
    rw [hcand]
  rw [hown, htir, hassignment] at hlifted
  obtain ⟨tx', hparse', hid, hprotocol, htxName, hprofile⟩ := lift_parsed hlifted
  cases hparse.symm.trans hparse'
  rw [← htxName] at hcached hlifted
  refine ⟨spec, tir, fp, a, lifted, ⟨hspec, hgates, hcached, hadmitted, hmatch, hlifted, hjson, hid,
    rfl, rfl, congrArg SpecializedTii.name hown, hprotocol, hprofile, hscore, ?_⟩⟩
  rintro other hother hsame hgates' txName tir' fp' hcached' ⟨hadmitted', a', hmatch'⟩
  have hcandidate := mk_mem_candidatesOf (D := D) hgates' hcached' hadmitted' hmatch'
  have hnot := hbest.best _ (List.mem_flatMap.mpr ⟨other, hother, hcandidate⟩)
    (hsame.trans hname.symm)
  rcases replaces_eq_false_iff.mp hnot with hlt | ⟨heq, -⟩
  · exact hlt.le
  · exact heq.le

end Rows

/-! ## Reachable databases -/

section Reachable

variable {D : Deps} {cfg : Config} {specialized : List SpecializedTii}

/-- The table after any inputs, also such as end in an error, is the replay of the responses. -/
theorem trackerAfter_matches (inputs : List Input) :
    (trackerAfter D cfg specialized inputs).store.matchesTable =
      replay MatchesRow.key MatchesRow.txHash []
        ((actionsOf inputs).filterMap (changeOf D specialized cfg.mode)) := by
  induction inputs using List.reverseRecOn with
  | nil => rfl
  | append_singleton inputs i ih =>
    rw [trackerAfter_concat, actionsOf_append, List.filterMap_append, replay_append, ← ih]
    cases i with
    | connect =>
      rw [next_connect_store]
      rfl
    | action a =>
      rw [next_action_store]
      cases h : handleAction D cfg specialized (trackerAfter D cfg specialized inputs).store a with
      | ok store => exact handleAction_matches h
      | error e =>
        -- only an Apply can fail, and then it changes nothing
        obtain ⟨anyTx, rfl, happly⟩ := handleAction_eq_error.mp h
        have hnone : changeOf D specialized cfg.mode (some (.apply anyTx)) = none := by
          simp only [changeOf, happly]
        show _ = replay _ _ _ ([some (Action.apply anyTx)].filterMap _)
        rw [List.filterMap_cons_none hnone]
        rfl

/-- The Apply that a put of the history stands for. -/
theorem split_at_put {es : List (Option Action)} {before after : List (Change MatchesRow ByteBuf)}
    {g : ByteBuf} {rows : List MatchesRow}
    (h : es.filterMap (changeOf D specialized cfg.mode) = before ++ .put g rows :: after) :
    ∃ pre anyTx post, es = pre ++ some (.apply anyTx) :: post ∧
      rows = rowsOf D specialized cfg.mode anyTx ∧
      post.filterMap (changeOf D specialized cfg.mode) = after ∧
      ∃ cr, applyRows D specialized cfg.mode anyTx = .ok (some cr) := by
  obtain ⟨pre, rest, rfl, -, hrest⟩ := List.filterMap_eq_append_iff.mp h
  obtain ⟨skipped, a, post, rfl, hskip, ha, hpost⟩ := List.filterMap_eq_cons_iff.mp hrest
  obtain ⟨anyTx, rfl, -, hrows, happly⟩ := changeOf_eq_put ha
  exact ⟨pre ++ skipped, anyTx, post, by simp, hrows, hpost, happly⟩

/-- No Undo of the transaction is among the responses. -/
def NotUndone (txHash : ByteBuf) (es : List (Option Action)) : Prop :=
  ∀ anyTx, some (.undo anyTx) ∈ es → anyTx.txHash ≠ some txHash

theorem notUndone_iff {txHash : ByteBuf} {es : List (Option Action)} {mode : MatchMode} :
    NotUndone txHash es ↔ .drop txHash ∉ es.filterMap (changeOf D specialized mode) := by
  rw [drop_mem_changes]
  constructor
  · rintro h ⟨anyTx, hmem, htx⟩
    exact h anyTx hmem htx
  · exact fun h anyTx hmem htx => h ⟨anyTx, hmem, htx⟩

/-- A stored row was brought by an Apply that was not undone since. -/
theorem mem_matches_trackerAfter {inputs : List Input} {row : MatchesRow}
    (hrow : row ∈ (trackerAfter D cfg specialized inputs).store.matchesTable) :
    ∃ before anyTx after block payload tx spec tir fp a lifted,
      actionsOf inputs = before ++ some (.apply anyTx) :: after ∧
      NotUndone row.txHash after ∧ Presents D.toPallas anyTx block payload tx ∧
      (∃ rows, runSpecializations D specialized payload block.slot block.hash.bytes cfg.mode =
        .ok rows) ∧
      Explains D specialized block payload tx spec tir fp a lifted row := by
  rw [trackerAfter_matches] at hrow
  obtain ⟨before, g, rows, after, hsplit, hmem, hdrop⟩ := exists_put_of_mem_replay hrow
  obtain ⟨pre, anyTx, post, hes, rfl, rfl, ⟨cursor, written⟩, happly⟩ := split_at_put hsplit
  obtain ⟨block, payload, tx, hpresents, -, hrun⟩ := applyRows_eq_ok.mp happly
  rw [rowsOf_eq happly] at hmem
  obtain ⟨r, hr, rfl⟩ := List.mem_map.mp hmem
  obtain ⟨spec, tir, fp, a, lifted, hexplains⟩ :=
    runSpecializations_explained hpresents.parses hrun r hr
  exact ⟨pre, anyTx, post, block, payload, tx, spec, tir, fp, a, lifted, hes,
    notUndone_iff.mpr hdrop, hpresents, ⟨written, hrun⟩, hexplains⟩

/-- What an Apply wrote is stored under its key as long as its transaction is not undone. -/
theorem key_mem_of_written {inputs : List Input} {before after : List (Option Action)}
    {anyTx : AnyChainTx} (hsplit : actionsOf inputs = before ++ some (.apply anyTx) :: after)
    {cursor : ChainPoint} {rows : List OwnedMatchRow}
    (happly : applyRows D specialized cfg.mode anyTx = .ok (some (cursor, rows)))
    {r : OwnedMatchRow} (hr : r ∈ rows) (hkept : NotUndone r.txHash after) :
    r.toRow.key ∈
      (trackerAfter D cfg specialized inputs).store.matchesTable.map MatchesRow.key := by
  have hgroup : ∀ row : MatchesRow, row.key = r.toRow.key → row.txHash = r.txHash := fun row h =>
    congrArg Prod.fst h
  have hwritten : r.toRow ∈ writtenSince r.txHash
      ((actionsOf inputs).filterMap (changeOf D specialized cfg.mode)) := by
    rw [hsplit, List.filterMap_append, List.filterMap_cons_some (changeOf_apply happly)]
    refine mem_writtenSince ?_ (notUndone_iff.mp hkept)
    rw [rowsOf_eq happly]
    exact List.mem_map_of_mem hr
  rw [trackerAfter_matches]
  by_contra hno
  rw [← rowOf_eq_none_iff, rowOf_replay hgroup, rowOf_eq_none_iff] at hno
  exact hno (List.mem_map_of_mem hwritten)

/-- In mode `All` an Apply that was handled stores its transaction for each source that matches. -/
theorem key_mem_of_matches (hmode : cfg.mode = .all) {inputs : List Input}
    {before after : List (Option Action)} {anyTx : AnyChainTx} {block : MultiEraBlock}
    {payload : CardanoPayload} {tx : MultiEraTx} {rows : List OwnedMatchRow} {spec : SpecializedTii}
    (hsplit : actionsOf inputs = before ++ some (.apply anyTx) :: after)
    (hkept : NotUndone tx.hash.bytes after)
    (hpresents : Presents D.toPallas anyTx block payload tx)
    (hrun : runSpecializations D specialized payload block.slot block.hash.bytes cfg.mode =
      .ok rows)
    (hspec : spec ∈ specialized) (hmatches : spec.Matches D.toPallas payload) :
    (tx.hash.bytes, spec.name) ∈
      (trackerAfter D cfg specialized inputs).store.matchesTable.map MatchesRow.key := by
  have happly : applyRows D specialized cfg.mode anyTx = .ok (some (block.point, rows)) :=
    applyRows_eq_ok.mpr ⟨block, payload, tx, hpresents, rfl, hrun⟩
  rw [hmode] at hrun
  obtain ⟨row, hrow, hname⟩ := (rows_of_all hrun).2.2 spec hspec hmatches
  have hhash := ((runSpecializations_spec hpresents.parses hrun).1 row hrow).txHash
  have hkey := key_mem_of_written hsplit happly hrow (by rwa [hhash])
  have heq : row.toRow.key = (tx.hash.bytes, spec.name) := Prod.ext hhash hname
  rwa [heq] at hkey

end Reachable

/-- A transaction is applied, rolled back, and applied again in a competing block. -/
def sampleInputs : List Input := .connect :: sampleHistory.map .action

/-- **The stored pairs are the matches.** In mode `All` a transaction is stored for a source name
    exactly when some Apply of it, not undone since, was handled and a source of this name
    matches what that Apply presents. -/
theorem stored_keys_exact (D : Deps) (cfg : Config) (hmode : cfg.mode = .all)
    (specialized : List SpecializedTii) (inputs : List Input) (txHash : ByteBuf)
    (sourceName : String) :
    (txHash, sourceName) ∈
        (trackerAfter D cfg specialized inputs).store.matchesTable.map MatchesRow.key ↔
      ∃ before anyTx after block payload tx, ∃ spec ∈ specialized,
        actionsOf inputs = before ++ some (.apply anyTx) :: after ∧ NotUndone txHash after ∧
        Presents D.toPallas anyTx block payload tx ∧ tx.hash.bytes = txHash ∧
        (∃ rows, runSpecializations D specialized payload block.slot block.hash.bytes cfg.mode =
          .ok rows) ∧
        spec.name = sourceName ∧ spec.Matches D.toPallas payload := by
  constructor
  · intro hmem
    obtain ⟨row, hrow, hkey⟩ := List.mem_map.mp hmem
    obtain ⟨rfl, rfl⟩ : row.txHash = txHash ∧ row.sourceName = sourceName := Prod.mk.inj hkey
    obtain ⟨before, anyTx, after, block, payload, tx, spec, tir, fp, a, lifted, hsplit, hkept,
      hpresents, hrun, hexplains⟩ := mem_matches_trackerAfter hrow
    exact ⟨before, anyTx, after, block, payload, tx, spec, hexplains.source, hsplit, hkept,
      hpresents, hexplains.txHash.symm, hrun, hexplains.sourceName.symm, tx, hpresents.parses,
      hexplains.gates,
      row.txName, tx, tir, fp, hpresents.parses, hexplains.cached, hexplains.admitted, a,
      hexplains.matched⟩
  · rintro ⟨before, anyTx, after, block, payload, tx, spec, hspec, hsplit, hkept, hpresents, rfl,
      ⟨rows, hrun⟩, rfl, hmatches⟩
    exact key_mem_of_matches hmode hsplit hkept hpresents hrun hspec hmatches

theorem stored_keys_exact_sample :
    (Sample.scriptTx.hash.bytes, "sample") ∈ (trackerAfter Sample.chainDeps Sample.cfg
        [Sample.source] sampleInputs).store.matchesTable.map MatchesRow.key ↔
      ∃ before anyTx after block payload tx, ∃ spec ∈ [Sample.source],
        actionsOf sampleInputs = before ++ some (.apply anyTx) :: after ∧
        NotUndone Sample.scriptTx.hash.bytes after ∧
        Presents Sample.chainDeps.toPallas anyTx block payload tx ∧
        tx.hash.bytes = Sample.scriptTx.hash.bytes ∧
        (∃ rows, runSpecializations Sample.chainDeps [Sample.source] payload block.slot
          block.hash.bytes Sample.cfg.mode = .ok rows) ∧
        spec.name = "sample" ∧ spec.Matches Sample.chainDeps.toPallas payload :=
  stored_keys_exact Sample.chainDeps Sample.cfg rfl [Sample.source] sampleInputs
    Sample.scriptTx.hash.bytes "sample"

end Tx3Lift
