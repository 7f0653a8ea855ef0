import Tx3Lift.Tracker.Specialization

/-!
# Rows and sources

What `run_specializations` returns, source by source.

* `runSpecializations_eq_ok`, `rows_survivors`: the rows are the lifted survivors among the
  candidates of all sources.
* `mem_candidatesOf`: the candidates of one source.
* `row_per_source_iff`: every matching source has its row exactly when the matching sources
  have different names.
* `sources_independent`: sources of different names do not disturb each other.
-/

namespace Tx3Lift

open Lib

/-! ## The candidates of a source -/

/-- The score of a transaction of the source (lines 175–177). -/
def SpecializedTii.score (spec : SpecializedTii) (summary : PayloadSummary) (fp : Fingerprint) :
    ℕ :=
  u32TryFrom ((spec.anchors.hits summary).total + fp.informationScore)

section Candidates

variable (D : Deps) (payload : CardanoPayload) (tx : MultiEraTx)

/-- The candidate that a transaction of the source gives, if it passes both tests. -/
def SpecializedTii.candidateAt (spec : SpecializedTii) (entry : String × Tir.Tx × Fingerprint) :
    Option (Candidate LiftInputs) :=
  if entry.2.2.matchesSummary (summarizeTx D.toPallas payload tx) then
    match matchTx D.toPallas entry.2.1 payload "" "" with
    | .ok (some a) => some
      { sourceName := spec.name
        txName := entry.1
        score := spec.score (summarizeTx D.toPallas payload tx) entry.2.2
        payload := { spec := spec, tir := entry.2.1, assignment := a } }
    | _ => none
  else none

/-- The candidates of one source. -/
def candidatesOf (spec : SpecializedTii) : List (Candidate LiftInputs) :=
  if (spec.anchors.hits (summarizeTx D.toPallas payload tx)).gates then
    spec.txs.toList.filterMap (spec.candidateAt D payload tx)
  else []

end Candidates

section Run

variable {D : Deps} {payload : CardanoPayload} {tx : MultiEraTx} {spec : SpecializedTii}

theorem sourceCandidates_parsed (hparse : payload.parsed D.toPallas = .ok tx)
    (txs : List (String × Tir.Tx × Fingerprint)) :
    sourceCandidates D spec (spec.anchors.hits (summarizeTx D.toPallas payload tx))
      (summarizeTx D.toPallas payload tx) payload txs =
        .ok (txs.filterMap (spec.candidateAt D payload tx)) := by
  induction txs with
  | nil => rfl
  | cons entry txs ih =>
    obtain ⟨txName, tir, fp⟩ := entry
    rw [sourceCandidates]
    by_cases hadmitted : fp.matchesSummary (summarizeTx D.toPallas payload tx) = true
    · obtain ⟨r, hr⟩ := matchTx_total hparse tir "" ""
      cases r with
      | none =>
        have hskip : spec.candidateAt D payload tx (txName, tir, fp) = none := by
          simp [SpecializedTii.candidateAt, hr]
        rw [if_pos hadmitted, hr, ih, List.filterMap_cons_none hskip]
        rfl
      | some a =>
        have hkeep : spec.candidateAt D payload tx (txName, tir, fp) = some
            { sourceName := spec.name
              txName := txName
              score := spec.score (summarizeTx D.toPallas payload tx) fp
              payload := { spec := spec, tir := tir, assignment := a } } := by
          simp [SpecializedTii.candidateAt, hr, hadmitted]
        rw [if_pos hadmitted, hr, ih, List.filterMap_cons_some hkeep]
        rfl
    · have hskip : spec.candidateAt D payload tx (txName, tir, fp) = none := by
        simp [SpecializedTii.candidateAt, hadmitted]
      rw [if_neg hadmitted, ih, List.filterMap_cons_none hskip]

theorem collectCandidates_parsed (hparse : payload.parsed D.toPallas = .ok tx)
    (specialized : List SpecializedTii) :
    collectCandidates D (summarizeTx D.toPallas payload tx) payload specialized =
      .ok (specialized.flatMap (candidatesOf D payload tx)) := by
  induction specialized with
  | nil => rfl
  | cons spec specs ih =>
    rw [List.flatMap_cons]
    simp only [collectCandidates, candidatesOf]
    split_ifs
    · rw [sourceCandidates_parsed hparse, ih]
      rfl
    · rw [ih, List.nil_append]

/-- **The rows** are the lifted survivors among the candidates of all sources. -/
theorem runSpecializations_eq_ok {specialized : List SpecializedTii} {blockSlot : UInt64}
    {blockHash : ByteBuf} {mode : MatchMode} {rows : List OwnedMatchRow} :
    runSpecializations D specialized payload blockSlot blockHash mode = .ok rows ↔
      ∃ tx, payload.parsed D.toPallas = .ok tx ∧
        List.Forall₂ (fun r row => liftSurvivor D payload blockSlot blockHash r = .ok row)
          (selectMatches (specialized.flatMap (candidatesOf D payload tx)) mode) rows := by
  constructor
  · intro h
    obtain ⟨summary, hsummary, h⟩ := Except.bind_eq_ok h
    obtain ⟨tx, hparse, -⟩ := Except.bind_eq_ok (liftCardano_eq_ok.mp hsummary)
    cases (summarize_eq hparse).symm.trans (liftCardano_eq_ok.mp hsummary)
    rw [collectCandidates_parsed hparse, Except.ok_bind] at h
    exact ⟨tx, hparse, mapM_eq_ok.mp h⟩
  · rintro ⟨tx, hparse, h⟩
    rw [runSpecializations, summarize_eq hparse, liftCardano, Except.ok_bind,
      collectCandidates_parsed hparse, Except.ok_bind]
    exact mapM_eq_ok.mpr h

theorem candidateAt_eq_some {entry : String × Tir.Tx × Fingerprint} {c : Candidate LiftInputs} :
    spec.candidateAt D payload tx entry = some c ↔
      entry.2.2.matchesSummary (summarizeTx D.toPallas payload tx) = true ∧
        ∃ a, matchTx D.toPallas entry.2.1 payload "" "" = .ok (some a) ∧
          c = { sourceName := spec.name
                txName := entry.1
                score := spec.score (summarizeTx D.toPallas payload tx) entry.2.2
                payload := { spec := spec, tir := entry.2.1, assignment := a } } := by
  unfold SpecializedTii.candidateAt
  by_cases hadmitted : entry.2.2.matchesSummary (summarizeTx D.toPallas payload tx) = true
  · rw [if_pos hadmitted]
    rcases matchTx D.toPallas entry.2.1 payload "" "" with e | (_ | a)
    · simp
    · simp
    · simp [hadmitted, eq_comm]
  · simp [hadmitted]

/-- The candidates of a source: its transactions that pass both tests, if it gates. -/
theorem mem_candidatesOf {c : Candidate LiftInputs} :
    c ∈ candidatesOf D payload tx spec ↔
      (spec.anchors.hits (summarizeTx D.toPallas payload tx)).gates = true ∧
        ∃ tir fp a, spec.txs[c.txName]? = some (tir, fp) ∧
          fp.matchesSummary (summarizeTx D.toPallas payload tx) = true ∧
          matchTx D.toPallas tir payload "" "" = .ok (some a) ∧
          c = { sourceName := spec.name
                txName := c.txName
                score := spec.score (summarizeTx D.toPallas payload tx) fp
                payload := { spec := spec, tir := tir, assignment := a } } := by
  unfold candidatesOf
  split_ifs with hgates
  · simp only [List.mem_filterMap, candidateAt_eq_some, Prod.exists,
      Std.ExtTreeMap.mem_toList_iff_getElem?_eq_some, hgates, true_and]
    constructor
    · rintro ⟨txName, tir, fp, hget, hadmitted, a, ha, hc⟩
      subst hc
      exact ⟨tir, fp, a, hget, hadmitted, ha, rfl⟩
    · rintro ⟨tir, fp, a, hget, hadmitted, ha, hc⟩
      exact ⟨c.txName, tir, fp, hget, hadmitted, a, ha, hc⟩
  · simp [hgates]

theorem mk_mem_candidatesOf
    (hgates : (spec.anchors.hits (summarizeTx D.toPallas payload tx)).gates = true)
    {txName : String} {tir : Tir.Tx} {fp : Fingerprint} {a : MatchAssignment}
    (hcached : spec.txs[txName]? = some (tir, fp))
    (hadmitted : fp.matchesSummary (summarizeTx D.toPallas payload tx) = true)
    (ha : matchTx D.toPallas tir payload "" "" = .ok (some a)) :
    ⟨spec.name, txName, spec.score (summarizeTx D.toPallas payload tx) fp, ⟨spec, tir, a⟩⟩ ∈
      candidatesOf D payload tx spec :=
  mem_candidatesOf.mpr ⟨hgates, tir, fp, a, hcached, hadmitted, ha, rfl⟩

theorem candidatesOf_spec {c : Candidate LiftInputs} (h : c ∈ candidatesOf D payload tx spec) :
    c.sourceName = spec.name ∧ c.payload.spec = spec := by
  obtain ⟨-, tir, fp, a, -, -, -, hc⟩ := mem_candidatesOf.mp h
  rw [hc]
  exact ⟨rfl, rfl⟩

/-- A source without anchors has no candidates. -/
theorem candidatesOf_of_isEmpty (h : spec.anchors.isEmpty = true) :
    candidatesOf D payload tx spec = [] := by
  unfold candidatesOf
  refine if_neg fun hgates => ?_
  obtain ⟨x, hx, -⟩ := (gates_iff _ _).mp hgates
  simp only [ProtocolAnchors.isEmpty, Bool.and_eq_true, Std.ExtTreeSet.isEmpty_iff] at h
  obtain ⟨⟨haddresses, hrefs⟩, hpolicies⟩ := h
  cases x <;> simp [ProtocolAnchors.Has, haddresses, hrefs, hpolicies] at hx

/-- What lifting a survivor writes into its row. -/
theorem liftSurvivor_eq_ok {blockSlot : UInt64} {blockHash : ByteBuf} {r : Ranked LiftInputs}
    {row : OwnedMatchRow} :
    liftSurvivor D payload blockSlot blockHash r = .ok row ↔
      ∃ lifted json, lift D.toPallas D.bech32 r.candidate.payload.spec.tii r.candidate.txName
          r.candidate.payload.spec.profileName r.candidate.payload.tir payload
          r.candidate.payload.assignment = .ok lifted ∧ D.toJson lifted = .ok json ∧
        row = { txHash := lifted.txId
                blockSlot := blockSlot
                blockHash := blockHash
                sourceName := r.candidate.payload.spec.name
                protocolName := lifted.protocolName
                txName := lifted.txName
                profileName := lifted.profileName
                liftedJson := json
                score := r.candidate.score
                matchRank := r.matchRank } := by
  constructor
  · intro h
    obtain ⟨lifted, hlifted, h⟩ := Except.bind_eq_ok h
    obtain ⟨json, hjson, h⟩ := Except.bind_eq_ok h
    cases h
    exact ⟨lifted, json, liftCardano_eq_ok.mp hlifted, Except.mapError_eq_ok.mp hjson, rfl⟩
  · rintro ⟨lifted, json, hlifted, hjson, rfl⟩
    rw [liftSurvivor, hlifted, liftCardano, Except.ok_bind, hjson]
    rfl

/-- What a survivor and its row have in common. -/
theorem liftSurvivor_score {blockSlot : UInt64} {blockHash : ByteBuf}
    {r : Ranked LiftInputs} {row : OwnedMatchRow}
    (h : liftSurvivor D payload blockSlot blockHash r = .ok row) :
    row.score = r.candidate.score ∧ row.matchRank = r.matchRank := by
  obtain ⟨_, _, -, -, rfl⟩ := liftSurvivor_eq_ok.mp h
  exact ⟨rfl, rfl⟩

/-- The rows of a run, survivor by survivor. -/
theorem rows_survivors {specs : List SpecializedTii} {blockSlot : UInt64} {blockHash : ByteBuf}
    {mode : MatchMode} {rows : List OwnedMatchRow}
    (h : runSpecializations D specs payload blockSlot blockHash mode = .ok rows) :
    ∃ tx, payload.parsed D.toPallas = .ok tx ∧
      List.Forall₂ (fun r row => row.txHash = tx.hash.bytes ∧
          row.sourceName = r.candidate.sourceName ∧ row.score = r.candidate.score ∧
          row.matchRank = r.matchRank ∧ liftSurvivor D payload blockSlot blockHash r = .ok row)
        (selectMatches (specs.flatMap (candidatesOf D payload tx)) mode) rows := by
  obtain ⟨tx, hparse, hrows⟩ := runSpecializations_eq_ok.mp h
  refine ⟨tx, hparse, forall₂_imp_mem hrows fun r row hr _ hlift => ?_⟩
  obtain ⟨⟨tx', hparse', hid⟩, -, -, hsource⟩ := liftSurvivor_spec hlift
  cases hparse.symm.trans hparse'
  obtain ⟨hscore, hrank⟩ := liftSurvivor_score hlift
  obtain ⟨spec, -, hcand⟩ := List.mem_flatMap.mp (mem_selectMatches hr)
  refine ⟨hid, ?_, hscore, hrank, hlift⟩
  rw [hsource, (candidatesOf_spec hcand).2, (candidatesOf_spec hcand).1]

end Run

/-! ## One row for each source -/

/-- The source gates the payload and has a transaction that accepts it. -/
def SpecializedTii.Matches (spec : SpecializedTii) (P : Pallas) (payload : CardanoPayload) : Prop :=
  ∃ tx, payload.parsed P = .ok tx ∧ (spec.anchors.hits (summarizeTx P payload tx)).gates = true ∧
    ∃ txName, spec.Accepts P payload txName

/-- The row is of this source: its transaction is one of the source's own that accept the
    payload, and none of these has a higher score. -/
structure RowFor (D : Deps) (payload : CardanoPayload) (spec : SpecializedTii)
    (row : OwnedMatchRow) : Prop where
  sourceName : row.sourceName = spec.name
  protocolName : row.protocolName = spec.tii.protocolName
  profileName : row.profileName = spec.profileName
  best : ∃ tx tir fp, payload.parsed D.toPallas = .ok tx ∧
    spec.txs[row.txName]? = some (tir, fp) ∧ Accepted D.toPallas payload tx tir fp ∧
    row.score = spec.score (summarizeTx D.toPallas payload tx) fp ∧
    ∀ (txName : String) (tir' : Tir.Tx) (fp' : Fingerprint),
      spec.txs[txName]? = some (tir', fp') →
      Accepted D.toPallas payload tx tir' fp' →
      spec.score (summarizeTx D.toPallas payload tx) fp' ≤ row.score

section RowFor

variable {D : Deps} {payload : CardanoPayload} {tx : MultiEraTx} {spec : SpecializedTii}
  {specs : List SpecializedTii} {blockSlot : UInt64} {blockHash : ByteBuf} {r : Ranked LiftInputs}
  {row : OwnedMatchRow}

/-- A source matches when it has candidates. -/
theorem matches_iff (hparse : payload.parsed D.toPallas = .ok tx) :
    spec.Matches D.toPallas payload ↔ ∃ c, c ∈ candidatesOf D payload tx spec := by
  constructor
  · rintro ⟨tx', hparse', hgates, txName, tx'', tir, fp, hparse'', hcached, hadmitted, a, ha⟩
    cases hparse.symm.trans hparse'
    cases hparse.symm.trans hparse''
    exact ⟨_, mk_mem_candidatesOf hgates hcached hadmitted ha⟩
  · rintro ⟨c, hc⟩
    obtain ⟨hgates, tir, fp, a, hcached, hadmitted, ha, -⟩ := mem_candidatesOf.mp hc
    exact ⟨tx, hparse, hgates, c.txName, tx, tir, fp, hparse, hcached, hadmitted, a, ha⟩

/-- The row of a survivor is of the source that the survivor comes from. -/
theorem rowFor_of_survivor (hparse : payload.parsed D.toPallas = .ok tx) (hmem : spec ∈ specs)
    (hr : r.candidate ∈ candidatesOf D payload tx spec)
    (hbest : BestOf Candidate.sourceName Candidate.replaces
      (specs.flatMap (candidatesOf D payload tx)) r.candidate)
    (hrow : liftSurvivor D payload blockSlot blockHash r = .ok row) :
    RowFor D payload spec row := by
  obtain ⟨lifted, json, hlift, -, rfl⟩ := liftSurvivor_eq_ok.mp hrow
  obtain ⟨-, -, -, hprotocol, htxName, hprofile⟩ := lift_parsed hlift
  obtain ⟨hgates, tir, fp, a, hcached, hadmitted, ha, hc⟩ := mem_candidatesOf.mp hr
  have hspec := (candidatesOf_spec hr).2
  refine ⟨by rw [hspec], by rw [hprotocol, hspec], by rw [hprofile, hspec], ?_⟩
  refine ⟨tx, tir, fp, hparse, by rw [htxName]; exact hcached, ⟨hadmitted, a, ha⟩,
    by rw [hc], ?_⟩
  rintro txName tir' fp' hcached' ⟨hadmitted', a', ha'⟩
  have hother := mk_mem_candidatesOf (D := D) hgates hcached' hadmitted' ha'
  have hnot := hbest.best _ (List.mem_flatMap.mpr ⟨spec, hmem, hother⟩)
    (candidatesOf_spec hr).1.symm
  rcases replaces_eq_false_iff.mp hnot with h | ⟨h, -⟩
  · exact h.le
  · exact h.le

/-- The rows of a run in mode `All`: each is of a source that matches, no two have one source
    name, and every source that matches has a row under its name. -/
theorem rows_of_all {rows : List OwnedMatchRow}
    (h : runSpecializations D specs payload blockSlot blockHash .all = .ok rows) :
    (∀ row ∈ rows, ∃ spec ∈ specs, spec.Matches D.toPallas payload ∧ RowFor D payload spec row) ∧
      (rows.map OwnedMatchRow.sourceName).Nodup ∧
      ∀ spec ∈ specs, spec.Matches D.toPallas payload →
        ∃ row ∈ rows, row.sourceName = spec.name := by
  obtain ⟨tx, hparse, hrows⟩ := runSpecializations_eq_ok.mp h
  obtain ⟨hbest, hnames⟩ := selectMatches_all_spec (specs.flatMap (candidatesOf D payload tx))
  refine ⟨fun row hrow => ?_, (runSpecializations_spec hparse h).2, fun spec hmem hmatch => ?_⟩
  · obtain ⟨r, hr, hlift⟩ := exists_left_of_forall₂ hrows hrow
    obtain ⟨spec, hmem, hc⟩ := List.mem_flatMap.mp (hbest r hr).mem
    exact ⟨spec, hmem, (matches_iff hparse).mpr ⟨_, hc⟩,
      rowFor_of_survivor hparse hmem hc (hbest r hr) hlift⟩
  · obtain ⟨c, hc⟩ := (matches_iff hparse).mp hmatch
    obtain ⟨r, hr, hname⟩ := hnames c (List.mem_flatMap.mpr ⟨spec, hmem, hc⟩)
    obtain ⟨row, hrow, hlift⟩ := exists_right_of_forall₂ hrows hr
    obtain ⟨spec', -, hc'⟩ := List.mem_flatMap.mp (hbest r hr).mem
    obtain ⟨-, -, -, hsource⟩ := liftSurvivor_spec hlift
    refine ⟨row, hrow, ?_⟩
    rw [hsource, (candidatesOf_spec hc').2, ← (candidatesOf_spec hc').1, hname,
      (candidatesOf_spec hc).1]

end RowFor

/-! ## One row for each list position -/

section Positions

variable (T : Tx3) (D : Deps) (readTii : String → Except TrackerError TiiFile)
  (sources : List SourceConfig) (payload : CardanoPayload)

/-- The source configured at a list position, specialized. -/
def SourceAt (i : ℕ) (spec : SpecializedTii) : Prop :=
  ∃ src, sources[i]? = some src ∧ specializeOne T D.bech32 readTii src = .ok spec

/-- The rows stand for the list positions whose sources match, one for one. -/
def RowPerSource (rows : List OwnedMatchRow) : Prop :=
  ∃ positions : List ℕ, positions.Nodup ∧
    (∀ i, i ∈ positions ↔
      ∃ spec, SourceAt T D readTii sources i spec ∧ spec.Matches D.toPallas payload) ∧
    List.Forall₂ (fun i row => ∃ spec, SourceAt T D readTii sources i spec ∧
      RowFor D payload spec row) positions rows

/-- The sources that match have different names. -/
def MatchingNamesDiffer : Prop :=
  ∀ i j spec spec', SourceAt T D readTii sources i spec → SourceAt T D readTii sources j spec' →
    spec.Matches D.toPallas payload → spec'.Matches D.toPallas payload →
    spec.name = spec'.name → i = j

/-- The name configured at a list position. -/
def nameAt (i : ℕ) : Option String := sources[i]?.map SourceConfig.name

variable {T D readTii sources payload} {specs specialized : List SpecializedTii} {i : ℕ}
  {spec : SpecializedTii}

theorem SourceAt.name (h : SourceAt T D readTii sources i spec) :
    nameAt sources i = some spec.name := by
  obtain ⟨src, hsrc, hspec⟩ := h
  obtain ⟨-, -, -, hname, -⟩ := specializeOne_eq_ok hspec
  rw [nameAt, hsrc, hname]
  rfl

theorem sourceAt_iff (h : List.Forall₂ (fun src spec =>
    specializeOne T D.bech32 readTii src = .ok spec) sources specs) :
    SourceAt T D readTii sources i spec ↔ specs[i]? = some spec := by
  constructor
  · rintro ⟨src, hsrc, hspec⟩
    have hlt : i < specs.length := by
      rw [← h.length_eq]
      exact (List.getElem?_eq_some_iff.mp hsrc).1
    obtain ⟨spec', hspec'⟩ : ∃ spec', specs[i]? = some spec' := ⟨_, List.getElem?_eq_getElem hlt⟩
    cases hspec.symm.trans (forall₂_getElem? h hsrc hspec')
    exact hspec'
  · intro hspec
    have hlt : i < sources.length := by
      rw [h.length_eq]
      exact (List.getElem?_eq_some_iff.mp hspec).1
    obtain ⟨src, hsrc⟩ : ∃ src, sources[i]? = some src := ⟨_, List.getElem?_eq_getElem hlt⟩
    exact ⟨src, hsrc, forall₂_getElem? h hsrc hspec⟩

/-- The sources that `specialize_all` leaves out have no rows. -/
theorem runSpecializations_filter {blockSlot : UInt64} {blockHash : ByteBuf} {mode : MatchMode}
    {rows : List OwnedMatchRow}
    (h : runSpecializations D (specs.filter fun spec => !spec.anchors.isEmpty) payload blockSlot
      blockHash mode = .ok rows) :
    runSpecializations D specs payload blockSlot blockHash mode = .ok rows := by
  obtain ⟨tx, hparse, hrows⟩ := runSpecializations_eq_ok.mp h
  refine runSpecializations_eq_ok.mpr ⟨tx, hparse, ?_⟩
  have hsame : ∀ xs : List SpecializedTii,
      (xs.filter fun spec => !spec.anchors.isEmpty).flatMap (candidatesOf D payload tx) =
        xs.flatMap (candidatesOf D payload tx) := by
    intro xs
    induction xs with
    | nil => rfl
    | cons spec xs ih =>
      cases hempty : spec.anchors.isEmpty with
      | true => simp [hempty, ih, candidatesOf_of_isEmpty hempty]
      | false => simp [hempty, ih]
  rwa [hsame] at hrows

/-- The names of the positions are those of their rows. -/
theorem nameAt_nodup {rows : List OwnedMatchRow}
    (hnodup : (rows.map OwnedMatchRow.sourceName).Nodup)
    {positions : List ℕ} (h : List.Forall₂ (fun i row =>
      ∃ spec, SourceAt T D readTii sources i spec ∧ RowFor D payload spec row) positions rows) :
    (positions.map (nameAt sources)).Nodup := by
  have heq : (rows.map OwnedMatchRow.sourceName).map some = positions.map (nameAt sources) := by
    rw [List.map_map]
    refine map_eq_of_forall₂ h fun i row _ hir => ?_
    obtain ⟨spec, hat, hfor⟩ := hir
    rw [hat.name, Function.comp_apply, hfor.sourceName]
  rw [← heq]
  exact hnodup.map (Option.some_injective _)

theorem matchingNamesDiffer_of_rows {rows : List OwnedMatchRow}
    (hnodup : (rows.map OwnedMatchRow.sourceName).Nodup)
    (h : RowPerSource T D readTii sources payload rows) :
    MatchingNamesDiffer T D readTii sources payload := by
  obtain ⟨positions, -, hmem, hforall⟩ := h
  intro i j spec spec' hi hj hmatch hmatch' hname
  have hi' := (hmem i).mpr ⟨spec, hi, hmatch⟩
  have hj' := (hmem j).mpr ⟨spec', hj, hmatch'⟩
  refine List.inj_on_of_nodup_map (nameAt_nodup hnodup hforall) hi' hj' ?_
  rw [hi.name, hj.name, hname]

end Positions

/-! ## Samples

Sources of one party, the sample script address, and one template `touch` that asks for
nothing; the sample transaction pays to that address, with a datum. -/

/-- A payload of which all candidates can be lifted and written down has its rows. -/
theorem exists_rows {D : Deps} {payload : CardanoPayload} {tx : MultiEraTx}
    {specs : List SpecializedTii} (hparse : payload.parsed D.toPallas = .ok tx)
    (hlift : ∀ spec ∈ specs, spec.Liftable D.toPallas D.bech32 payload)
    (hjson : ∀ lifted, ∃ json, D.toJson lifted = .ok json) (blockSlot : UInt64)
    (blockHash : ByteBuf) (mode : MatchMode) :
    ∃ rows, runSpecializations D specs payload blockSlot blockHash mode = .ok rows := by
  have hrow : ∀ r ∈ selectMatches (specs.flatMap (candidatesOf D payload tx)) mode,
      ∃ row, liftSurvivor D payload blockSlot blockHash r = .ok row := by
    intro r hr
    obtain ⟨spec, hmem, hc⟩ := List.mem_flatMap.mp (mem_selectMatches hr)
    obtain ⟨-, tir, fp, a, hcached, hadmitted, ha, hcand⟩ := mem_candidatesOf.mp hc
    obtain ⟨lifted, hlifted⟩ := hlift spec hmem tx _ tir fp a hparse hcached hadmitted ha
    obtain ⟨json, hjson⟩ := hjson lifted
    refine ⟨_, liftSurvivor_eq_ok.mpr ⟨lifted, json, ?_, hjson, rfl⟩⟩
    rw [hcand]
    exact hlifted
  obtain ⟨rows, hrows⟩ := exists_forall₂ (R := fun row r =>
    liftSurvivor D payload blockSlot blockHash r = .ok row) hrow
  exact ⟨rows, runSpecializations_eq_ok.mpr ⟨tx, hparse, hrows.flip⟩⟩

namespace Sample

set_option maxRecDepth 4000 in
/-- Such a source matches the sample transaction, and its candidate can be lifted. -/
theorem matches_touch (name : String) :
    (touchSource name).Matches (pallas []) scriptPayload ∧
      (touchSource name).Liftable (pallas []) bech32 scriptPayload := by
  have h := specializeOne_touch name
  have hmatch : matchTx (pallas []) touchTir scriptPayload "" "" =
    .ok (some ⟨"", "", [], [], [], [], [], []⟩) := rfl
  constructor
  · obtain ⟨tir, fp, hcached⟩ := exists_cached h (List.mem_singleton_self "touch")
    obtain ⟨-, hspec, hfp⟩ := (cached_iff h).mp hcached
    cases hspec.symm.trans specialize_touch
    have hextract := fingerprintFor_eq (lookupProfile_eq_ok.mpr rfl) argsFromProfile_vault
      (lookupTx_eq_ok.mpr rfl) specialize_touch
    cases hfp.symm.trans hextract
    exact ⟨scriptTx, parsed_scriptPayload, rfl, "touch", scriptTx, _, _, parsed_scriptPayload,
      hcached, rfl, _, hmatch⟩
  · intro tx txName tir fp a hparse hcached _ ha
    obtain ⟨htx, hspec, -⟩ := (cached_iff h).mp hcached
    cases List.mem_singleton.mp htx
    cases hspec.symm.trans specialize_touch
    cases hmatch.symm.trans ha
    exact ⟨_, rfl⟩

/-- Such sources, of any names, are all accepted. -/
theorem specializeAll_touch (names : List String) :
    specializeAll touchTx3 bech32 readTouch (names.map sourceNamed) =
      .ok (names.map touchSource) := by
  induction names with
  | nil => rfl
  | cons name names ih =>
    have hanchors : (touchSource name).anchors.isEmpty = false := by
      show vaultAnchors.isEmpty = false
      decide +kernel
    rw [List.map_cons, specializeAll, specializeOne_touch, Except.ok_bind, ih, Except.ok_bind,
      hanchors]
    rfl

/-- They have rows for the sample transaction. -/
theorem rows_touch (names : List String) (mode : MatchMode) :
    ∃ rows, runSpecializations (deps []) (names.map touchSource) scriptPayload 100 [0xcc] mode =
      .ok rows := by
  have hparse : scriptPayload.parsed (deps []).toPallas = .ok scriptTx := parsed_scriptPayload
  refine exists_rows hparse (fun spec hmem => ?_) (fun lifted => ⟨_, rfl⟩) 100 [0xcc] mode
  obtain ⟨name, -, rfl⟩ := List.mem_map.mp hmem
  exact (matches_touch name).2

end Sample

/-- **Every matching source has its row** exactly when the matching sources have different
    names. -/
theorem row_per_source_iff (T : Tx3) (D : Deps) (readTii : String → Except TrackerError TiiFile)
    (sources : List SourceConfig) (specialized : List SpecializedTii) (payload : CardanoPayload)
    (blockSlot : UInt64) (blockHash : ByteBuf) (rows : List OwnedMatchRow)
    (hspec : specializeAll T D.bech32 readTii sources = .ok specialized)
    (hrun : runSpecializations D specialized payload blockSlot blockHash .all = .ok rows) :
    RowPerSource T D readTii sources payload rows ↔
      MatchingNamesDiffer T D readTii sources payload := by
  obtain ⟨specs, hspecs, rfl⟩ := specializeAll_eq_ok.mp hspec
  obtain ⟨hrow, hnodup, hfound⟩ := rows_of_all (runSpecializations_filter hrun)
  refine ⟨matchingNamesDiffer_of_rows hnodup, fun hdiffer => ?_⟩
  have hpartner : ∀ row ∈ rows, ∃ i, ∃ spec, SourceAt T D readTii sources i spec ∧
      spec.Matches D.toPallas payload ∧ RowFor D payload spec row := by
    intro row hr
    obtain ⟨spec, hmem, hmatch, hfor⟩ := hrow row hr
    obtain ⟨i, hi⟩ := List.mem_iff_getElem?.mp hmem
    exact ⟨i, spec, (sourceAt_iff hspecs).mpr hi, hmatch, hfor⟩
  obtain ⟨positions, hpositions⟩ := exists_forall₂ hpartner
  have hforall : List.Forall₂ (fun i row => ∃ spec, SourceAt T D readTii sources i spec ∧
      RowFor D payload spec row) positions rows :=
    hpositions.imp fun i row ⟨spec, hat, _, hfor⟩ => ⟨spec, hat, hfor⟩
  refine ⟨positions, (nameAt_nodup hnodup hforall).of_map, fun i => ⟨fun hi => ?_, ?_⟩, hforall⟩
  · obtain ⟨row, -, spec, hat, hmatch, -⟩ := exists_right_of_forall₂ hpositions hi
    exact ⟨spec, hat, hmatch⟩
  · rintro ⟨spec, hat, hmatch⟩
    obtain ⟨row, hr, hname⟩ := hfound spec
      (List.mem_of_getElem? ((sourceAt_iff hspecs).mp hat)) hmatch
    obtain ⟨j, hj, spec', hat', hmatch', hfor⟩ := exists_left_of_forall₂ hpositions hr
    rwa [hdiffer i j spec spec' hat hat' hmatch hmatch' (hname.symm.trans hfor.sourceName)]

theorem row_per_source_iff_two :
    ∃ specialized rows, specializeAll Sample.touchTx3 Sample.bech32 Sample.readTouch
        [Sample.sourceNamed "first", Sample.sourceNamed "second"] = .ok specialized ∧
      runSpecializations (Sample.deps []) specialized Sample.scriptPayload 100 [0xcc] .all =
        .ok rows ∧
      (RowPerSource Sample.touchTx3 (Sample.deps []) Sample.readTouch
          [Sample.sourceNamed "first", Sample.sourceNamed "second"] Sample.scriptPayload rows ↔
        MatchingNamesDiffer Sample.touchTx3 (Sample.deps []) Sample.readTouch
          [Sample.sourceNamed "first", Sample.sourceNamed "second"] Sample.scriptPayload) := by
  have hspecs := Sample.specializeAll_touch ["first", "second"]
  obtain ⟨rows, hrows⟩ := Sample.rows_touch ["first", "second"] .all
  exact ⟨_, rows, hspecs, hrows, row_per_source_iff Sample.touchTx3 (Sample.deps [])
    Sample.readTouch _ _ Sample.scriptPayload 100 [0xcc] rows hspecs hrows⟩

/-- Two configured sources of one name, both accepted at startup, share one row. -/
theorem shared_name_loses_row :
    checkSources [Sample.sourceNamed "vault", Sample.sourceNamed "vault"] =
        .ok [Sample.sourceNamed "vault", Sample.sourceNamed "vault"] ∧
      ∃ specialized rows, specializeAll Sample.touchTx3 Sample.bech32 Sample.readTouch
          [Sample.sourceNamed "vault", Sample.sourceNamed "vault"] = .ok specialized ∧
        runSpecializations (Sample.deps []) specialized Sample.scriptPayload 100 [0xcc] .all =
          .ok rows ∧
        ¬RowPerSource Sample.touchTx3 (Sample.deps []) Sample.readTouch
          [Sample.sourceNamed "vault", Sample.sourceNamed "vault"] Sample.scriptPayload rows := by
  obtain ⟨rows, hrows⟩ := Sample.rows_touch ["vault", "vault"] .all
  refine ⟨rfl, _, rows, Sample.specializeAll_touch ["vault", "vault"], hrows, fun hper => ?_⟩
  have hnodup := (runSpecializations_spec Sample.parsed_scriptPayload hrows).2
  have hmatch := (Sample.matches_touch "vault").1
  have hat : ∀ i < 2, SourceAt Sample.touchTx3 (Sample.deps []) Sample.readTouch
      [Sample.sourceNamed "vault", Sample.sourceNamed "vault"] i (Sample.touchSource "vault") := by
    intro i hi
    refine ⟨Sample.sourceNamed "vault", ?_, Sample.specializeOne_touch "vault"⟩
    interval_cases i <;> rfl
  have heq := matchingNamesDiffer_of_rows hnodup hper 0 1 _ _ (hat 0 (by decide)) (hat 1 (by decide))
    hmatch hmatch rfl
  cases heq

/-! ## Sources of different names -/

section Independent

variable {D : Deps} {payload : CardanoPayload} {tx : MultiEraTx} {specs : List SpecializedTii}
  {blockSlot : UInt64} {blockHash : ByteBuf} {rows : List OwnedMatchRow}

/-- Sources of different names give candidates that differ in source or transaction. -/
theorem distinctCandidates (hnames : (specs.map SpecializedTii.name).Nodup) :
    DistinctCandidates (specs.flatMap (candidatesOf D payload tx)) := by
  rw [DistinctCandidates, List.map_flatMap, List.nodup_flatMap]
  constructor
  · intro spec _
    unfold candidatesOf
    split_ifs
    · rw [List.Nodup, List.pairwise_map, List.pairwise_filterMap]
      refine (Std.ExtTreeMap.distinct_keys_toList (t := spec.txs)).imp ?_
      intro entry entry' hne c hc c' hc' heq
      obtain ⟨-, a, -, rfl⟩ := candidateAt_eq_some.mp hc
      obtain ⟨-, a', -, rfl⟩ := candidateAt_eq_some.mp hc'
      exact hne (Std.compare_eq_iff_eq.mpr (Prod.ext_iff.mp heq).2)
    · simp
  · refine (List.pairwise_map.mp hnames).imp fun {spec spec'} hne => ?_
    refine List.disjoint_left.mpr fun pair hpair hpair' => ?_
    obtain ⟨c, hc, rfl⟩ := List.mem_map.mp hpair
    obtain ⟨c', hc', heq⟩ := List.mem_map.mp hpair'
    have hname := (Prod.ext_iff.mp heq).1
    rw [(candidatesOf_spec hc).1, (candidatesOf_spec hc').1] at hname
    exact hne hname.symm

/-- The order of the sources does not matter. -/
theorem runSpecializations_perm (hnames : (specs.map SpecializedTii.name).Nodup)
    {specs' : List SpecializedTii} (hperm : specs'.Perm specs) {mode : MatchMode}
    (h : runSpecializations D specs payload blockSlot blockHash mode = .ok rows) :
    runSpecializations D specs' payload blockSlot blockHash mode = .ok rows := by
  obtain ⟨tx, hparse, hrows⟩ := runSpecializations_eq_ok.mp h
  refine runSpecializations_eq_ok.mpr ⟨tx, hparse, ?_⟩
  rwa [selectMatches_perm (distinctCandidates hnames) (hperm.flatMap_right _)]

variable {before after : List SpecializedTii} {removed : SpecializedTii}

/-- The candidates that are left when a source is removed. -/
theorem candidates_without
    (hnames : ((before ++ removed :: after).map SpecializedTii.name).Nodup) :
    (before ++ after).flatMap (candidatesOf D payload tx) =
      ((before ++ removed :: after).flatMap (candidatesOf D payload tx)).filter
        fun c => decide (c.sourceName ≠ removed.name) := by
  have hkeep : ∀ specs : List SpecializedTii, (∀ spec ∈ specs, spec.name ≠ removed.name) →
      (specs.flatMap (candidatesOf D payload tx)).filter
        (fun c => decide (c.sourceName ≠ removed.name)) =
          specs.flatMap (candidatesOf D payload tx) := by
    intro specs hne
    refine List.filter_eq_self.mpr fun c hc => ?_
    obtain ⟨spec, hmem, hc⟩ := List.mem_flatMap.mp hc
    rw [(candidatesOf_spec hc).1]
    exact decide_eq_true (hne spec hmem)
  have hdrop : (candidatesOf D payload tx removed).filter
      (fun c => decide (c.sourceName ≠ removed.name)) = [] := by
    refine List.filter_eq_nil_iff.mpr fun c hc => ?_
    simp [(candidatesOf_spec hc).1]
  rw [List.map_append, List.map_cons, List.nodup_append] at hnames
  obtain ⟨-, hafter, hbefore⟩ := hnames
  obtain ⟨hnotin, -⟩ := List.nodup_cons.mp hafter
  rw [List.flatMap_append, List.flatMap_append, List.flatMap_cons, List.filter_append,
    List.filter_append, hdrop, List.nil_append, hkeep before, hkeep after]
  · exact fun spec hmem hname => hnotin (hname ▸ List.mem_map_of_mem hmem)
  · exact fun spec hmem hname => hbefore _ (List.mem_map_of_mem hmem) _ (by simp) hname

/-- Only the rank differs. -/
def SameButRank (row row' : OwnedMatchRow) : Prop :=
  row' = { row with matchRank := row'.matchRank }

/-- Without the rows of this source the row moves up: one of them alone had its score, and
    that score was higher. -/
def MovesUp (rows : List OwnedMatchRow) (name : String) (row : OwnedMatchRow) : Prop :=
  ∃ lost ∈ rows, lost.sourceName = name ∧ row.score < lost.score ∧
    ∀ other ∈ rows, other.score = lost.score → other.sourceName = name

/-- The rank is written into the row and not read. -/
theorem liftSurvivor_sameButRank {c : Candidate LiftInputs} {rank rank' : ℕ}
    {row row' : OwnedMatchRow}
    (h : liftSurvivor D payload blockSlot blockHash ⟨c, rank⟩ = .ok row)
    (h' : liftSurvivor D payload blockSlot blockHash ⟨c, rank'⟩ = .ok row') :
    SameButRank row row' := by
  obtain ⟨lifted, json, hlifted, hjson, rfl⟩ := liftSurvivor_eq_ok.mp h
  obtain ⟨lifted', json', hlifted', hjson', rfl⟩ := liftSurvivor_eq_ok.mp h'
  cases hlifted.symm.trans hlifted'
  cases hjson.symm.trans hjson'
  rfl

/-- The rows of a run in mode `All`, survivor by survivor. -/
theorem rows_of_survivors
    (h : runSpecializations D specs payload blockSlot blockHash .all = .ok rows) :
    ∃ tx, payload.parsed D.toPallas = .ok tx ∧
      List.Forall₂ (fun c row => row.sourceName = c.sourceName ∧ row.score = c.score ∧
          row.matchRank = rankIn
            ((survivors (specs.flatMap (candidatesOf D payload tx))).map Candidate.score) c.score ∧
          liftSurvivor D payload blockSlot blockHash ⟨c, row.matchRank⟩ = .ok row)
        (survivors (specs.flatMap (candidatesOf D payload tx))) rows := by
  obtain ⟨tx, hparse, hrows⟩ := rows_survivors h
  rw [selectMatches_all, List.forall₂_map_left_iff] at hrows
  refine ⟨tx, hparse, hrows.imp fun c row hrow => ?_⟩
  obtain ⟨-, hsource, hscore, hrank, hlift⟩ := hrow
  exact ⟨hsource, hscore, hrank, by rw [hrank]; exact hlift⟩

theorem rows_without (hnames : ((before ++ removed :: after).map SpecializedTii.name).Nodup)
    {rows' : List OwnedMatchRow}
    (h : runSpecializations D (before ++ removed :: after) payload blockSlot blockHash .all =
      .ok rows)
    (h' : runSpecializations D (before ++ after) payload blockSlot blockHash .all = .ok rows') :
    List.Forall₂ (fun row row' => SameButRank row row' ∧
        (MovesUp rows removed.name row → row.matchRank = row'.matchRank + 1) ∧
        (¬MovesUp rows removed.name row → row.matchRank = row'.matchRank))
      (rows.filter fun row => decide (row.sourceName ≠ removed.name)) rows' := by
  obtain ⟨tx, hparse, hrows⟩ := rows_of_survivors h
  obtain ⟨tx', hparse', hrows'⟩ := rows_of_survivors h'
  cases hparse.symm.trans hparse'
  rw [candidates_without hnames, survivors_without (distinctCandidates hnames)] at hrows'
  have hnodup := survivors_nodup
    ((before ++ removed :: after).flatMap (candidatesOf D payload tx))
  generalize survivors ((before ++ removed :: after).flatMap (candidatesOf D payload tx)) = kept
    at hrows hrows' hnodup
  have hrest := forall₂_filter (p := fun c => decide (c.sourceName ≠ removed.name))
    (q := fun row => decide (row.sourceName ≠ removed.name)) hrows
    fun c row _ hcr => by rw [hcr.1]
  refine (forall₂_join hrest hrows').imp ?_
  rintro row row' ⟨c, hc, ⟨-, hscore, hrank, hlift⟩, -, -, hrank', hlift'⟩
  obtain ⟨hmem, hne⟩ := List.mem_filter.mp hc
  obtain ⟨hup, hstay⟩ := rankIn_without Candidate.score hnodup removed.name hmem
    (by simpa using hne)
  have hiff : MovesUp rows removed.name row ↔ ∃ l ∈ kept, l.sourceName = removed.name ∧
      c.score < l.score ∧ ∀ d ∈ kept, d.score = l.score → d.sourceName = removed.name := by
    constructor
    · rintro ⟨lost, hlost, hname, hlt, hall⟩
      obtain ⟨l, hl, hlname, hlscore, -⟩ := exists_left_of_forall₂ hrows hlost
      refine ⟨l, hl, hlname.symm.trans hname, by omega, fun d hd hdscore => ?_⟩
      obtain ⟨other, hother, hdname, hoscore, -⟩ := exists_right_of_forall₂ hrows hd
      exact hdname.symm.trans (hall other hother (by omega))
    · rintro ⟨l, hl, hname, hlt, hall⟩
      obtain ⟨lost, hlost, hlname, hlscore, -⟩ := exists_right_of_forall₂ hrows hl
      refine ⟨lost, hlost, hlname.trans hname, by omega, fun other hother hoscore => ?_⟩
      obtain ⟨d, hd, hdname, hdscore, -⟩ := exists_left_of_forall₂ hrows hother
      exact hdname.trans (hall d hd (by omega))
  rw [hiff, hrank, hrank']
  exact ⟨liftSurvivor_sameButRank hlift hlift', hup, hstay⟩

end Independent

/-- **Sources do not disturb each other**, provided they have different names: their order does
    not matter, and removing one takes away its row and the rank that the others owed to it. -/
theorem sources_independent (D : Deps) (specs : List SpecializedTii) (payload : CardanoPayload)
    (blockSlot : UInt64) (blockHash : ByteBuf)
    (hnames : (specs.map SpecializedTii.name).Nodup) :
    (∀ specs' mode rows rows', specs'.Perm specs →
      runSpecializations D specs payload blockSlot blockHash mode = .ok rows →
      runSpecializations D specs' payload blockSlot blockHash mode = .ok rows' → rows' = rows) ∧
    ∀ before removed after rows rows', specs = before ++ removed :: after →
      runSpecializations D specs payload blockSlot blockHash .all = .ok rows →
      runSpecializations D (before ++ after) payload blockSlot blockHash .all = .ok rows' →
      List.Forall₂ (fun row row' => SameButRank row row' ∧
          (MovesUp rows removed.name row → row.matchRank = row'.matchRank + 1) ∧
          (¬MovesUp rows removed.name row → row.matchRank = row'.matchRank))
        (rows.filter fun row => decide (row.sourceName ≠ removed.name)) rows' := by
  constructor
  · intro specs' mode rows rows' hperm h h'
    cases h'.symm.trans (runSpecializations_perm hnames hperm h)
    rfl
  · rintro before removed after rows rows' rfl h h'
    exact rows_without hnames h h'

/-- Three sources of the same score: taking one away leaves the ranks of the others. -/
theorem sources_independent_three :
    ∃ first second third rows rows', [first, second, third] =
        ["first", "second", "third"].map Sample.touchSource ∧
      (∀ mode rows rows',
        runSpecializations (Sample.deps []) [first, second, third] Sample.scriptPayload 100 [0xcc]
          mode = .ok rows →
        runSpecializations (Sample.deps []) [third, first, second] Sample.scriptPayload 100 [0xcc]
          mode = .ok rows' → rows' = rows) ∧
      runSpecializations (Sample.deps []) [first, second, third] Sample.scriptPayload 100 [0xcc]
        .all = .ok rows ∧
      runSpecializations (Sample.deps []) [first, third] Sample.scriptPayload 100 [0xcc] .all =
        .ok rows' ∧
      List.Forall₂ (fun row row' => SameButRank row row' ∧
          (MovesUp rows second.name row → row.matchRank = row'.matchRank + 1) ∧
          (¬MovesUp rows second.name row → row.matchRank = row'.matchRank))
        (rows.filter fun row => decide (row.sourceName ≠ second.name)) rows' := by
  obtain ⟨rows, hrows⟩ := Sample.rows_touch ["first", "second", "third"] .all
  obtain ⟨rows', hrows'⟩ := Sample.rows_touch ["first", "third"] .all
  have hnames : ((["first", "second", "third"].map Sample.touchSource).map
      SpecializedTii.name).Nodup := by decide
  obtain ⟨hperm, hwithout⟩ := sources_independent (Sample.deps [])
    (["first", "second", "third"].map Sample.touchSource) Sample.scriptPayload 100 [0xcc] hnames
  refine ⟨Sample.touchSource "first", Sample.touchSource "second", Sample.touchSource "third", rows,
    rows', rfl, fun mode r r' h h' => ?_, hrows, hrows', ?_⟩
  · have hrotate : ([Sample.touchSource "third"] ++
        [Sample.touchSource "first", Sample.touchSource "second"]).Perm
          ([Sample.touchSource "first", Sample.touchSource "second"] ++
            [Sample.touchSource "third"]) := List.perm_append_comm
    exact hperm _ mode r r' hrotate h h'
  · exact hwithout [Sample.touchSource "first"] (Sample.touchSource "second")
      [Sample.touchSource "third"] rows rows' rfl hrows hrows'

end Tx3Lift
