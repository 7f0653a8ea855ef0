import Tx3Lift.Lib.RankTable
import Tx3Lift.Tracker.Chain
import Tx3Lift.Tracker.Session
import Tx3Lift.Tracker.Sources

/-!
# Ranks over deployments

A database outlives the trackers that run on it: between two runs the sources, the mode or the
binary can change, also to one that knows migration `001_initial` only. Such a binary writes
rows without score and rank, which `002_score_rank` reads as score 0 and rank 1.

* `rows_offered`, `rows_ranked`: which rows a delivery writes, and that they are ranked among
  themselves.
* `step_table`: what one event does to the table.
* `ranks_coherent_iff`: the stored ranks stay coherent exactly when every delivery fits.
* `initial_row_never_fits`: next to a row of an earlier binary no delivery fits.
-/

namespace Tx3Lift

open Lib

/-! ## What a delivery offers -/

section Offers

variable {α : Type} {candidates : List (Candidate α)} {mode : MatchMode}

/-- The best score among the candidates of one source. -/
def bestScore (candidates : List (Candidate α)) (name : String) : ℕ :=
  ((candidates.filter fun c => decide (c.sourceName = name)).map Candidate.score).foldr max 0

/-- The sources that have a candidate, each with its best score; in mode `Best` only those with
    the highest score of all. -/
def offered (candidates : List (Candidate α)) : MatchMode → List (String × ℕ)
  | .all => candidates.map fun c => (c.sourceName, bestScore candidates c.sourceName)
  | .best => (candidates.map fun c => (c.sourceName, bestScore candidates c.sourceName)).filter
      fun o => candidates.all fun c => decide (c.score ≤ o.2)

theorem score_le_bestScore {c : Candidate α} (h : c ∈ candidates) :
    c.score ≤ bestScore candidates c.sourceName :=
  List.le_max_of_le (List.mem_map_of_mem (List.mem_filter.mpr ⟨h, by simp⟩)) le_rfl

theorem bestScore_eq {c : Candidate α}
    (h : BestOf Candidate.sourceName Candidate.replaces candidates c) :
    bestScore candidates c.sourceName = c.score := by
  refine le_antisymm (List.max_le_of_forall_le _ _ fun s hs => ?_) (score_le_bestScore h.mem)
  obtain ⟨d, hd, rfl⟩ := List.mem_map.mp hs
  obtain ⟨hmem, hname⟩ := List.mem_filter.mp hd
  exact (keptOfSource_of_bestOf h).score d hmem (of_decide_eq_true hname)

theorem mem_offered_all {o : String × ℕ} :
    o ∈ (selectMatches candidates .all).map
        (fun r => (r.candidate.sourceName, r.candidate.score)) ↔ o ∈ offered candidates .all := by
  obtain ⟨hbest, hnames⟩ := selectMatches_all_spec candidates
  simp only [offered, List.mem_map]
  constructor
  · rintro ⟨r, hr, rfl⟩
    exact ⟨r.candidate, (hbest r hr).mem, by rw [bestScore_eq (hbest r hr)]⟩
  · rintro ⟨c, hc, rfl⟩
    obtain ⟨r, hr, hname⟩ := hnames c hc
    exact ⟨r, hr, by rw [← hname, bestScore_eq (hbest r hr)]⟩

/-- Rank 1 is that of the survivors with the highest score of all candidates. -/
theorem matchRank_eq_one_iff {r : Ranked α} (hr : r ∈ selectMatches candidates .all) :
    r.matchRank = 1 ↔ ∀ c ∈ candidates, c.score ≤ r.candidate.score := by
  obtain ⟨hbest, hnames⟩ := selectMatches_all_spec candidates
  rw [matchRank_eq_one_iff_highest hr]
  constructor
  · intro hmax c hc
    obtain ⟨r', hr', hname⟩ := hnames c hc
    have hle := (keptOfSource_of_bestOf (hbest r' hr')).score c hc hname.symm
    exact hle.trans (hmax r' hr')
  · intro hmax r' hr'
    exact hmax r'.candidate (hbest r' hr').mem

/-- **The survivors** are what is offered, in both modes. -/
theorem mem_offered {o : String × ℕ} :
    o ∈ (selectMatches candidates mode).map
        (fun r => (r.candidate.sourceName, r.candidate.score)) ↔ o ∈ offered candidates mode := by
  cases mode with
  | all => exact mem_offered_all
  | best =>
    have hall : o ∈ offered candidates .best ↔
        o ∈ offered candidates .all ∧ ∀ c ∈ candidates, c.score ≤ o.2 := by
      simp [offered, List.mem_filter]
    rw [hall, ← mem_offered_all, selectMatches_best]
    simp only [List.mem_map, List.mem_filter, decide_eq_true_eq]
    constructor
    · rintro ⟨r, ⟨hr, hone⟩, rfl⟩
      exact ⟨⟨r, hr, rfl⟩, (matchRank_eq_one_iff hr).mp hone⟩
    · rintro ⟨⟨r, hr, rfl⟩, hmax⟩
      exact ⟨r, ⟨hr, (matchRank_eq_one_iff hr).mpr hmax⟩, rfl⟩

/-- In both modes a survivor is ranked by the distinct scores of the survivors. -/
theorem selectMatches_matchRank {r : Ranked α} (hr : r ∈ selectMatches candidates mode) :
    r.matchRank = rankIn ((selectMatches candidates mode).map fun r => r.candidate.score)
      r.candidate.score := by
  cases mode with
  | all =>
    rw [map_score_selectMatches]
    exact (matchRank_eq_rankIn hr).1
  | best =>
    obtain ⟨hall, hone⟩ := List.mem_filter.mp hr
    have hone' : r.matchRank = 1 := of_decide_eq_true hone
    have hmax := (matchRank_eq_one_iff hall).mp hone'
    rw [hone', eq_comm, rankIn_eq_one_iff (List.mem_map_of_mem hr)]
    intro s hs
    obtain ⟨r', hr', rfl⟩ := List.mem_map.mp hs
    exact hmax _ (mem_selectMatches hr')

end Offers

/-- The payload that `apply_tx` builds (`process.rs`, lines 29–73), if it gets that far. -/
def AnyChainTx.applyPayload (P : Pallas) (anyTx : AnyChainTx) : Option CardanoPayload := do
  let cardanoTx ← anyTx.chain
  let multiEraBlock ← anyTx.decodedBlock P
  let targetHash ← Hash.ofBytes? 32 cardanoTx.hash
  let targetTx ← multiEraBlock.txs.find? fun t => t.hash = targetHash
  return CardanoPayload.withResolvedInputs { raw := targetTx.cbor }
    (collectResolvedInputs cardanoTx multiEraBlock.era)

/-- What an Apply offers to the table: keys with scores. -/
def offersOf (D : Deps) (specialized : List SpecializedTii) (mode : MatchMode)
    (anyTx : AnyChainTx) : List ((ByteBuf × String) × ℕ) :=
  match anyTx.applyPayload D.toPallas with
  | none => []
  | some payload =>
    match payload.parsed D.toPallas with
    | .error _ => []
    | .ok tx => (offered (specialized.flatMap (candidatesOf D payload tx)) mode).map fun o =>
      ((tx.hash.bytes, o.1), o.2)

section Rows

variable {D : Deps} {specialized : List SpecializedTii} {mode : MatchMode} {anyTx : AnyChainTx}
  {cursor : ChainPoint} {rows : List OwnedMatchRow}

theorem applyRows_payload
    (h : applyRows D specialized mode anyTx = .ok (some (cursor, rows))) :
    ∃ payload, anyTx.applyPayload D.toPallas = some payload ∧
      runSpecializations D specialized payload cursor.slot cursor.hash.bytes mode = .ok rows := by
  obtain ⟨cardanoTx, block, targetHash, target, raw, hchain, hdecoded, hhash, hfind, -, rfl,
    hrows⟩ := applyRows_eq_some h
  refine ⟨_, ?_, hrows⟩
  simp only [AnyChainTx.applyPayload, hchain, hdecoded, hhash, hfind, Option.bind_eq_bind,
    Option.bind_some]
  rfl

/-- **The rows of an Apply** are those that it offers. -/
theorem rows_offered (h : applyRows D specialized mode anyTx = .ok (some (cursor, rows))) :
    ∀ e, e ∈ (rows.map OwnedMatchRow.toRow).map (fun row => (row.key, row.score)) ↔
      e ∈ offersOf D specialized mode anyTx := by
  obtain ⟨payload, hpayload, hrun⟩ := applyRows_payload h
  obtain ⟨tx, hparse, hrows⟩ := rows_survivors hrun
  have hentries : (rows.map OwnedMatchRow.toRow).map (fun row => (row.key, row.score)) =
      ((selectMatches (specialized.flatMap (candidatesOf D payload tx)) mode).map fun r =>
        (r.candidate.sourceName, r.candidate.score)).map fun o => ((tx.hash.bytes, o.1), o.2) := by
    rw [List.map_map, List.map_map]
    refine map_eq_of_forall₂ hrows fun r row _ hr => ?_
    obtain ⟨hid, hsource, hscore, -, -⟩ := hr
    simp only [Function.comp_apply, OwnedMatchRow.toRow, MatchesRow.key, hid, hsource, hscore]
  intro e
  simp only [hentries, offersOf, hpayload, hparse, List.mem_map (f := fun o : String × ℕ => _),
    mem_offered]

/-- The rows of an Apply are ranked among themselves. -/
theorem rows_ranked (h : applyRows D specialized mode anyTx = .ok (some (cursor, rows))) :
    ∀ row ∈ rows.map OwnedMatchRow.toRow, row.matchRank =
      rankIn ((rows.map OwnedMatchRow.toRow).map MatchesRow.score) row.score := by
  obtain ⟨payload, -, hrun⟩ := applyRows_payload h
  obtain ⟨tx, -, hrows⟩ := rows_survivors hrun
  have hscores : (rows.map OwnedMatchRow.toRow).map MatchesRow.score =
      (selectMatches (specialized.flatMap (candidatesOf D payload tx)) mode).map fun r =>
        r.candidate.score := by
    rw [List.map_map]
    exact map_eq_of_forall₂ hrows fun r row _ hr => hr.2.2.1
  intro row hrow
  obtain ⟨row, hmem, rfl⟩ := List.mem_map.mp hrow
  obtain ⟨r, hr, -, -, hscore, hrank, -⟩ := exists_left_of_forall₂ hrows hmem
  rw [hscores]
  show row.matchRank = rankIn _ row.score
  rw [hrank, hscore]
  exact selectMatches_matchRank hr

/-- The current binary offers no score 0: a source that gates has a hit. -/
theorem offersOf_pos {o : (ByteBuf × String) × ℕ} (h : o ∈ offersOf D specialized mode anyTx) :
    0 < o.2 := by
  unfold offersOf at h
  split at h
  · simp at h
  · split at h
    · simp at h
    · rename_i payload _ _ tx _
      obtain ⟨entry, hentry, rfl⟩ := List.mem_map.mp h
      obtain ⟨r, hr, rfl⟩ := List.mem_map.mp (mem_offered.mpr hentry)
      obtain ⟨spec, -, hcand⟩ := List.mem_flatMap.mp (mem_selectMatches hr)
      obtain ⟨hgates, tir, fp, a, -, -, -, hc⟩ := mem_candidatesOf.mp hcand
      have hpos := total_pos_of_gates _ _ hgates
      have hscore : r.candidate.score = min ((spec.anchors.hits
          (summarizeTx D.toPallas payload tx)).total + fp.informationScore) u32Max :=
        congrArg Candidate.score hc
      show 0 < r.candidate.score
      rw [hscore, u32Max]
      omega

end Rows

/-! ## The database under both schemas -/

/-- A row of table `matches` under `001_initial.sql`. -/
structure InitialRow where
  txHash : ByteBuf
  blockSlot : Int64
  blockHash : ByteBuf
  sourceName : String
  protocolName : String
  txName : String
  profileName : String
  lifted : String

/-- `UNIQUE(tx_hash, source_name)`. -/
def InitialRow.key (row : InitialRow) : ByteBuf × String := (row.txHash, row.sourceName)

/-- The row with the columns of `002_score_rank.sql` at their defaults. -/
def InitialRow.migrate (row : InitialRow) : MatchesRow :=
  { txHash := row.txHash
    blockSlot := row.blockSlot
    blockHash := row.blockHash
    sourceName := row.sourceName
    protocolName := row.protocolName
    txName := row.txName
    profileName := row.profileName
    lifted := row.lifted
    score := 0
    matchRank := 1 }

/-- The tables `matches` and `cursor` under `001_initial.sql`. -/
structure InitialStore where
  matchesTable : List InitialRow
  unique : (matchesTable.map InitialRow.key).Nodup
  cursorRow : Option (Int64 × ByteBuf)

/-- `002_score_rank.sql`. -/
def InitialStore.migrate (store : InitialStore) : Store :=
  { matchesTable := store.matchesTable.map InitialRow.migrate
    unique := by rw [List.map_map]; exact store.unique
    cursorRow := store.cursorRow }

/-- A database file, by the migrations that `_schema_versions` lists. -/
inductive Database where
  | initial (store : InitialStore)
  | scored (store : Store)

/-- A file in which nothing is stored. -/
def Database.empty : Database :=
  .initial { matchesTable := [], unique := by simp, cursorRow := none }

/-- `run_migrations` (`store.rs`, lines 214–249). -/
def Database.migrate : Database → Store
  | .initial store => store.migrate
  | .scored store => store

/-- The rows of `matches`, as `002_score_rank.sql` shows them. -/
def Database.table (db : Database) : List MatchesRow := db.migrate.matchesTable

/-! ## Binaries -/

/-- A transaction that an earlier binary commits. -/
inductive InitialWrite where
  | applyBlock (cursor : ChainPoint) (rows : List InitialRow)
  | undoTx (txHash : ByteBuf) (parent : Option ChainPoint)

/-- Its `INSERT OR IGNORE` names the columns of `001_initial.sql`; in a migrated table the others
    take their defaults. -/
def InitialWrite.commit : InitialWrite → Database → Database
  | .applyBlock cursor rows, .initial store => .initial
    { matchesTable := insertAll InitialRow.key store.matchesTable rows
      unique := insertAll_nodup InitialRow.key store.unique rows
      cursorRow := some cursor.toRow }
  | .applyBlock cursor rows, .scored store => .scored
    { matchesTable := insertAll MatchesRow.key store.matchesTable (rows.map InitialRow.migrate)
      unique := insertAll_nodup MatchesRow.key store.unique _
      cursorRow := some cursor.toRow }
  | .undoTx txHash parent, .initial store => .initial
    { matchesTable := deleteWhere (fun row => decide (row.txHash = txHash)) store.matchesTable
      unique := deleteWhere_nodup InitialRow.key store.unique _
      cursorRow := parent.map ChainPoint.toRow }
  | .undoTx txHash parent, .scored store => .scored (store.undoTx txHash parent).1

/-- A tracker as it is started: the current binary with its configuration, or an earlier one that
    knows `001_initial` only and does with a response whatever `handle` says. -/
inductive Binary where
  | current (cfg : Config) (specialized : List SpecializedTii)
  | initial (handle : Option Action → Except TrackerError (Option InitialWrite))

/-- `Store::open`: only a binary that knows `002_score_rank` runs it. -/
def Binary.openDatabase : Binary → Database → Database
  | .current _ _, db => .scored db.migrate
  | .initial _, db => db

/-! ## Deployments -/

/-- A database and the tracker that runs on it, if one does. -/
structure Deployment where
  database : Database
  running : Option Binary

/-- What happens to a deployment. -/
inductive Event where
  | restart (binary : Binary)
  | response (a : Option Action)

section Model

variable (D : Deps)

/-- One event that is handled without error. -/
def Deployment.step (d : Deployment) : Event → Except TrackerError Deployment
  | .restart binary =>
    return { database := binary.openDatabase d.database, running := some binary }
  | .response a =>
    match d.running with
    | none => return d
    | some (.current cfg specialized) => do
      let store ← handleAction D cfg specialized d.database.migrate a
      return { d with database := .scored store }
    | some (.initial handle) => do
      match ← handle a with
      | none => return d
      | some write => return { d with database := write.commit d.database }

/-- One event: an error ends the process and leaves the database as it was. -/
def Deployment.next (d : Deployment) (e : Event) : Deployment :=
  match d.step D e with
  | .ok d' => d'
  | .error _ => { d with running := none }

/-- The deployment after some events, from an empty database. -/
def deploymentAfter (es : List Event) : Deployment :=
  es.foldl (Deployment.next D) { database := Database.empty, running := none }

/-- What an event offers to the table: keys with scores. -/
def Deployment.offers (d : Deployment) : Event → List ((ByteBuf × String) × ℕ)
  | .restart _ => []
  | .response a =>
    match d.running, a with
    | some (.current cfg specialized), some (.apply anyTx) =>
      offersOf D specialized cfg.mode anyTx
    | some (.initial handle), a =>
      match handle a with
      | .ok (some (.applyBlock _ rows)) => rows.map fun row => (row.key, 0)
      | _ => []
    | _, _ => []

end Model

/-! ## What an event does to the table -/

/-- Within a transaction the higher score has the smaller rank, and equal scores have equal
    ranks. -/
def RanksCoherent (table : List MatchesRow) : Prop :=
  ∀ row ∈ table, ∀ row' ∈ table, row.txHash = row'.txHash →
    (row'.score < row.score → row.matchRank < row'.matchRank) ∧
    (row.score = row'.score → row.matchRank = row'.matchRank)

/-- What is offered fits into the table. An offer of a source that has no row for the transaction
    yet gets the rank of its score among the offered scores; with every stored row of the
    transaction that rank is in the order of the scores. -/
def RanksFit (table : List MatchesRow) (offers : List ((ByteBuf × String) × ℕ)) : Prop :=
  ∀ o ∈ offers, o.1 ∉ table.map MatchesRow.key → ∀ row ∈ table, row.txHash = o.1.1 →
    (row.score < o.2 → rankIn (offers.map Prod.snd) o.2 < row.matchRank) ∧
    (o.2 < row.score → row.matchRank < rankIn (offers.map Prod.snd) o.2) ∧
    (row.score = o.2 → row.matchRank = rankIn (offers.map Prod.snd) o.2)

theorem ranksCoherent_iff {table : List MatchesRow} : RanksCoherent table ↔
    Coherent MatchesRow.key Prod.fst MatchesRow.score MatchesRow.matchRank table := Iff.rfl

theorem ranksFit_iff {table : List MatchesRow} {offers : List ((ByteBuf × String) × ℕ)} :
    RanksFit table offers ↔
      Fits MatchesRow.key Prod.fst MatchesRow.score MatchesRow.matchRank table offers := Iff.rfl

/-- The rows that make up an offer, ranked among themselves. -/
structure RankedBatch (rows : List MatchesRow) (offers : List ((ByteBuf × String) × ℕ)) : Prop where
  ranked : ∀ row ∈ rows, row.matchRank = rankIn (rows.map MatchesRow.score) row.score
  keys : ∀ row ∈ rows, ∀ row' ∈ rows, row.key = row'.key → row.score = row'.score
  offered : ∀ e, e ∈ rows.map (fun row => (row.key, row.score)) ↔ e ∈ offers

section Step

variable {D : Deps} {d d' : Deployment} {e : Event}

theorem rankedBatch_nil : RankedBatch [] [] := ⟨by simp, by simp, by simp⟩

theorem rankedBatch_current {specialized : List SpecializedTii} {mode : MatchMode}
    {anyTx : AnyChainTx} {cursor : ChainPoint} {rows : List OwnedMatchRow}
    (h : applyRows D specialized mode anyTx = .ok (some (cursor, rows))) :
    RankedBatch (rows.map OwnedMatchRow.toRow) (offersOf D specialized mode anyTx) := by
  refine ⟨rows_ranked h, fun row hrow row' hrow' hkey => ?_, rows_offered h⟩
  obtain ⟨block, tx, hw⟩ := applyRows_spec h
  have hnodup : ((rows.map OwnedMatchRow.toRow).map MatchesRow.sourceName).Nodup := by
    rw [List.map_map]
    exact hw.sources
  rw [List.inj_on_of_nodup_map hnodup hrow hrow' (congrArg Prod.snd hkey)]

theorem rankedBatch_initial (rows : List InitialRow) :
    RankedBatch (rows.map InitialRow.migrate) (rows.map fun row => (row.key, 0)) := by
  have hzero : ∀ row ∈ rows.map InitialRow.migrate, row.score = 0 ∧ row.matchRank = 1 := by
    intro row hrow
    obtain ⟨_, -, rfl⟩ := List.mem_map.mp hrow
    exact ⟨rfl, rfl⟩
  refine ⟨fun row hrow => ?_, fun row hrow row' hrow' _ => ?_, fun e => ?_⟩
  · rw [(hzero row hrow).2, eq_comm, rankIn_eq_one_iff (List.mem_map_of_mem hrow)]
    intro s hs
    obtain ⟨row', hrow', rfl⟩ := List.mem_map.mp hs
    rw [(hzero row' hrow').1]
    exact Nat.zero_le _
  · rw [(hzero row hrow).1, (hzero row' hrow').1]
  · rw [List.map_map]
    rfl

/-- An Apply that writes nothing offers nothing. -/
theorem offersOf_eq_nil {specialized : List SpecializedTii} {mode : MatchMode}
    {anyTx : AnyChainTx} (h : applyRows D specialized mode anyTx = .ok none) :
    offersOf D specialized mode anyTx = [] := by
  have hpayload : anyTx.applyPayload D.toPallas = none := by
    cases hp : anyTx.applyPayload D.toPallas with
    | none => rfl
    | some payload =>
      simp only [AnyChainTx.applyPayload, Option.bind_eq_bind, Option.bind_eq_some_iff] at hp
      obtain ⟨cardanoTx, hchain, block, hdecoded, -⟩ := hp
      obtain ⟨rows, hrows⟩ := applyRows_of_decoded hchain hdecoded h
      cases hrows
  rw [offersOf, hpayload]

theorem table_applyBlock (cursor : ChainPoint) (rows : List InitialRow) (db : Database) :
    ((InitialWrite.applyBlock cursor rows).commit db).table =
      insertAll MatchesRow.key db.table (rows.map InitialRow.migrate) := by
  cases db with
  | initial store => exact map_insertAll _ fun _ => rfl
  | scored store => rfl

theorem table_undoTx (txHash : ByteBuf) (parent : Option ChainPoint) (db : Database) :
    ((InitialWrite.undoTx txHash parent).commit db).table =
      deleteWhere (fun row => decide (row.txHash = txHash)) db.table := by
  cases db with
  | initial store => exact map_deleteWhere fun _ => rfl
  | scored store => rfl

theorem table_openDatabase (binary : Binary) (db : Database) :
    (binary.openDatabase db).table = db.table := by
  cases binary <;> rfl

/-- A table change: what is offered is inserted, or rows are deleted. -/
inductive TableStep (table : List MatchesRow) (offers : List ((ByteBuf × String) × ℕ)) :
    List MatchesRow → Prop where
  | insert {rows : List MatchesRow} (batch : RankedBatch rows offers) :
    TableStep table offers (insertAll MatchesRow.key table rows)
  | delete (p : MatchesRow → Bool) (none : offers = []) :
    TableStep table offers (deleteWhere p table)

theorem TableStep.unchanged {table : List MatchesRow} : TableStep table [] table :=
  .insert rankedBatch_nil

theorem tableStep_current {db : Database} {cfg : Config} {specialized : List SpecializedTii}
    {a : Option Action} {store : Store}
    (h : handleAction D cfg specialized db.migrate a = .ok store) :
    TableStep db.table
      (Deployment.offers D { database := db, running := some (.current cfg specialized) }
        (.response a))
      store.matchesTable := by
  rcases handleAction_store h with ⟨rfl, happly, -⟩ | ⟨anyTx, cursor, rows, rfl, happly, rfl⟩ |
    ⟨anyTx, cardanoTx, rfl, -, rfl⟩
  · match a with
    | some (.apply anyTx) =>
      show TableStep db.table (offersOf D specialized cfg.mode anyTx) db.table
      rw [offersOf_eq_nil (happly anyTx rfl)]
      exact .unchanged
    | some (.undo _) => exact .unchanged
    | some (.idle _) => exact .unchanged
    | none => exact .unchanged
  · exact .insert (rankedBatch_current happly)
  · exact .delete _ rfl

theorem tableStep_initial {db : Database}
    {handle : Option Action → Except TrackerError (Option InitialWrite)} {a : Option Action}
    {write : InitialWrite} (h : handle a = .ok (some write)) :
    TableStep db.table
      (Deployment.offers D { database := db, running := some (.initial handle) } (.response a))
      (write.commit db).table := by
  cases write with
  | applyBlock cursor rows =>
    rw [table_applyBlock]
    simp only [Deployment.offers, h]
    exact .insert (rankedBatch_initial rows)
  | undoTx txHash parent =>
    rw [table_undoTx]
    exact .delete _ (by simp only [Deployment.offers, h])

/-- **What an event does to the table**: it inserts what it offers, or deletes. -/
theorem step_table (h : d.step D e = .ok d') :
    TableStep d.database.table (d.offers D e) d'.database.table := by
  obtain ⟨db, running⟩ := d
  cases e with
  | restart binary =>
    cases h
    rw [table_openDatabase]
    exact .unchanged
  | response a =>
    match running with
    | none =>
      cases h
      exact .unchanged
    | some (.current cfg specialized) =>
      obtain ⟨store, hstore, h⟩ := Except.bind_eq_ok h
      cases h
      exact tableStep_current hstore
    | some (.initial handle) =>
      obtain ⟨write, hwrite, h⟩ := Except.bind_eq_ok h
      cases write with
      | none =>
        cases h
        simp only [Deployment.offers, hwrite]
        exact .unchanged
      | some write =>
        cases h
        exact tableStep_initial hwrite

/-- One event keeps the stored ranks coherent exactly when its offer fits. -/
theorem step_coherent (h : d.step D e = .ok d') (hold : RanksCoherent d.database.table) :
    RanksCoherent d'.database.table ↔ RanksFit d.database.table (d.offers D e) := by
  rw [ranksCoherent_iff] at hold
  rw [ranksCoherent_iff, ranksFit_iff]
  have hstep := step_table h
  generalize d'.database.table = table' at hstep
  cases hstep with
  | insert hbatch =>
    rw [coherent_insertAll_iff hbatch.ranked hbatch.keys hold]
    exact fits_congr hbatch.offered
  | delete p hoffers =>
    rw [hoffers]
    exact ⟨fun _ o ho => absurd ho List.not_mem_nil, fun _ => hold.deleteWhere p⟩

theorem deploymentAfter_concat (es : List Event) (e : Event) :
    deploymentAfter D (es ++ [e]) = (deploymentAfter D es).next D e := by
  rw [deploymentAfter, List.foldl_append]
  rfl

theorem next_of_ok (h : d.step D e = .ok d') : d.next D e = d' := by
  rw [Deployment.next, h]

end Step

/-- **The stored ranks stay coherent** in a run of deployments exactly when each of its events
    offers what fits into the table at that time. -/
theorem ranks_coherent_iff (D : Deps) (es : List Event) :
    (∀ pre, pre <+: es → RanksCoherent (deploymentAfter D pre).database.table) ↔
      ∀ pre e d, pre ++ [e] <+: es → (deploymentAfter D pre).step D e = .ok d →
        RanksFit (deploymentAfter D pre).database.table ((deploymentAfter D pre).offers D e) := by
  constructor
  · intro h pre e d hpre hstep
    have hafter := h _ hpre
    rw [deploymentAfter_concat, next_of_ok hstep] at hafter
    exact (step_coherent hstep (h pre ((List.prefix_append _ _).trans hpre))).mp hafter
  · intro h pre
    induction pre using List.reverseRecOn with
    | nil =>
      intro _ row hrow
      exact absurd hrow List.not_mem_nil
    | append_singleton pre e ih =>
      intro hpre
      have hold := ih ((List.prefix_append _ _).trans hpre)
      rw [deploymentAfter_concat]
      cases hstep : (deploymentAfter D pre).step D e with
      | error _ =>
        rw [Deployment.next, hstep]
        exact hold
      | ok d =>
        rw [next_of_ok hstep]
        exact (step_coherent hstep hold).mpr (h pre e d hpre hstep)

/-- A source with the sample party and, in its environment, the output that the sample
    transaction spends. -/
def Sample.refSource : SpecializedTii :=
  { Sample.source with
    name := "vault"
    tii :=
      { Sample.touchTii with
        profiles := HashMap.singleton "preview"
          { Sample.vaultProfile with
            environment := .object [("vault_ref", .string
              ("1111111111111111111111111111111111111111111111111111111111111111" ++ "#0"))] } }
    anchors :=
      { Sample.source.anchors with
        utxoRefs := Std.ExtTreeSet.empty.insert (Sample.spentTx.bytes, 0) } }

/-- The second transaction of a block is undone, which moves the cursor back before the block.
    The tracker is restarted with one more source, and the first transaction comes again. -/
def sampleRestart : List Event :=
  [.restart (.current Sample.cfg [Sample.source]),
   .response (some (.apply (Sample.envelope Sample.childBytes Sample.scriptTx))),
   .response (some (.apply (Sample.envelope Sample.childBytes Sample.scriptTx'))),
   .response (some (.undo (Sample.envelope Sample.childBytes Sample.scriptTx'))),
   .restart (.current Sample.cfg [Sample.source, Sample.refSource]),
   .response (some (.apply (Sample.envelope Sample.childBytes Sample.scriptTx)))]

set_option maxRecDepth 4000 in
/-- The old row keeps rank 1 next to the new row, which has the higher score and rank 1 too. -/
theorem ranks_incoherent :
    ¬∀ pre, pre <+: sampleRestart →
      RanksCoherent (deploymentAfter Sample.chainDeps pre).database.table := by
  intro h
  obtain ⟨old, new, htable, htx, hscore, hrank⟩ : ∃ old new,
      (deploymentAfter Sample.chainDeps sampleRestart).database.table = [old, new] ∧
        new.txHash = old.txHash ∧ old.score < new.score ∧ new.matchRank = old.matchRank :=
    ⟨_, _, rfl, rfl, by decide, rfl⟩
  obtain ⟨hless, -⟩ := h _ List.prefix_rfl new (by simp [htable]) old (by simp [htable]) htx
  have hlt := hless hscore
  omega

/-- **Rows of an earlier binary.** Next to one, no row of another source fits: the old row has
    the lowest score and rank 1. -/
theorem initial_row_never_fits {D : Deps} {specialized : List SpecializedTii} {mode : MatchMode}
    {anyTx : AnyChainTx} {table : List MatchesRow} {row : InitialRow}
    {o : (ByteBuf × String) × ℕ} (hrow : row.migrate ∈ table)
    (ho : o ∈ offersOf D specialized mode anyTx) (htx : o.1.1 = row.txHash)
    (hnew : o.1 ∉ table.map MatchesRow.key) :
    ¬RanksFit table (offersOf D specialized mode anyTx) := by
  intro hfit
  obtain ⟨hless, -, -⟩ := hfit o ho hnew row.migrate hrow htx.symm
  have hlt : rankIn ((offersOf D specialized mode anyTx).map Prod.snd) o.2 < 1 :=
    hless (offersOf_pos ho)
  have hpos := rankIn_pos (List.mem_map_of_mem (f := Prod.snd) ho)
  omega

end Tx3Lift
