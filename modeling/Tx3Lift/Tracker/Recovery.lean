import Tx3Lift.Tracker.Migrations
import Tx3Lift.Tracker.Redelivery
import Tx3Lift.Tracker.Sql

/-!
# Crashes of the tracker

A process handles its responses one after the other, each in an SQL transaction of its own. A
transaction works on a copy of the database; a crash loses the copy.

* `Handler.step_inv`: the database file is the outcome of some responses at every step.
* `crash_refines`: after any sequence of crashes the database holds the responses that were handled
  and no part of any other.
* `life_completes`: a process that is not cut short handles all of its responses.
* `survives_crashes`: the same from a database file of any version.
* `exactly_once`: processes that each go on from the stored cursor leave what one pass over the
  upstream's log would have left.
-/

namespace Tx3Lift

open Lib

/-! ## Handling responses through crashes -/

/-- The transaction of a response, if it needs one; `now` is `unix_secs()` when it starts. -/
def writesOf (D : Deps) (specialized : List SpecializedTii) (mode : MatchMode) (now : ℤ) :
    Option Action → Except TrackerError (Option (List Write))
  | some (.apply anyTx) => do
    match ← applyRows D specialized mode anyTx with
    | some (cursor, rows) => return some (applyBlockWrites cursor rows now)
    | none => return none
  | some (.undo anyTx) =>
    match anyTx.chain with
    | some cardanoTx => return some (undoTxWrites cardanoTx.hash (undoParent D.toPallas anyTx))
    | none => return none
  | some (.idle _) => return none
  | none => return none

/-- The memory of a process: the number of responses it has handled, and inside a transaction the
    uncommitted database and the statements to come. -/
inductive Handler where
  | ready (pos : ℕ)
  | writing (pos : ℕ) (work : SqliteData) (writes : List Write)
  | failed

/-- What a process receives in its life, and its clock at each response. -/
abbrev Received := List (Option Action) × (ℕ → ℤ)

/-- One step. Only the commit changes the database file. -/
def Handler.step (D : Deps) (cfg : Config) (specialized : List SpecializedTii) (r : Received) :
    Handler × SqliteData → Handler × SqliteData
  | (.ready pos, data) =>
    match r.1[pos]? with
    | none => (.ready pos, data)
    | some a =>
      match writesOf D specialized cfg.mode (r.2 pos) a with
      | .ok (some writes) => (.writing pos data writes, data)
      | .ok none => (.ready (pos + 1), data)
      | .error _ => (.failed, data)
  | (.writing pos work (w :: ws), data) =>
    match w.execute work with
    | .ok (work', _) => (.writing pos work' ws, data)
    | .error _ => (.failed, data)
  | (.writing pos work [], _) => (.ready (pos + 1), work)
  | (.failed, data) => (.failed, data)

section Crashes

variable {D : Deps} {cfg : Config} {specialized : List SpecializedTii} {store store' : Store}
  {data : SqliteData}

theorem handleAction_of_writes_none {now : ℤ} {a : Option Action}
    (h : writesOf D specialized cfg.mode now a = .ok none) :
    handleAction D cfg specialized store a = .ok store := by
  match a with
  | some (.apply anyTx) =>
    obtain ⟨r, happly, h⟩ := Except.bind_eq_ok h
    cases r with
    | none => exact applyTx_eq.mpr (Or.inl ⟨happly, rfl⟩)
    | some cr => cases h
  | some (.undo anyTx) =>
    cases hchain : anyTx.chain with
    | none =>
      show Except.ok (undoTx D.toPallas store anyTx) = .ok store
      rw [undoTx, hchain]
    | some cardanoTx =>
      simp only [writesOf, hchain] at h
      cases h
  | some (.idle _) => rfl
  | none => rfl

/-- **A transaction in SQL.** Its statements take the tables from one store to the next. -/
theorem handleAction_of_writes {now : ℤ} {a : Option Action} {writes : List Write}
    (h : writesOf D specialized cfg.mode now a = .ok (some writes))
    (hdata : Represents data store) :
    ∃ store' data' n, handleAction D cfg specialized store a = .ok store' ∧
      executeWrites writes data = .ok (data', n) ∧ Represents data' store' := by
  obtain ⟨stored, htables⟩ := hdata
  match a with
  | some (.apply anyTx) =>
    obtain ⟨r, happly, h⟩ := Except.bind_eq_ok h
    cases r with
    | none => cases h
    | some cr =>
      obtain ⟨cursor, rows⟩ := cr
      cases h
      obtain ⟨data', n, new, hexec, hout, -, -⟩ := applyBlock_writes htables cursor rows now
      exact ⟨_, data', n, applyTx_eq.mpr (Or.inr ⟨cursor, rows, happly, rfl⟩), hexec, _, hout⟩
  | some (.undo anyTx) =>
    cases hchain : anyTx.chain with
    | none =>
      simp only [writesOf, hchain] at h
      cases h
    | some cardanoTx =>
      simp only [writesOf, hchain] at h
      cases h
      obtain ⟨data', n, hexec, hout, -⟩ :=
        undoTx_writes htables cardanoTx.hash (undoParent D.toPallas anyTx)
      refine ⟨(store.undoTx cardanoTx.hash (undoParent D.toPallas anyTx)).1, data', n, ?_, hexec, _,
        hout⟩
      show Except.ok (undoTx D.toPallas store anyTx) = _
      rw [undoTx, hchain]
  | some (.idle _) => cases h
  | none => cases h

/-- The database file holds the outcome of the first responses. -/
def HandledTo (D : Deps) (cfg : Config) (specialized : List SpecializedTii) (store : Store)
    (es : List (Option Action)) (pos : ℕ) (data : SqliteData) : Prop :=
  ∃ store', run (handleAction D cfg specialized) store (es.take pos) = .ok store' ∧
    Represents data store'

/-- What holds of the memory and the database file at every step of a life. -/
def Handler.Inv (D : Deps) (cfg : Config) (specialized : List SpecializedTii) (store : Store)
    (es : List (Option Action)) : Handler × SqliteData → Prop
  | (.ready pos, data) => HandledTo D cfg specialized store es pos data
  | (.writing pos work writes, data) => HandledTo D cfg specialized store es pos data ∧
      ∃ out n, executeWrites writes work = .ok (out, n) ∧
        HandledTo D cfg specialized store es (pos + 1) out
  | (.failed, data) => ∃ pos, HandledTo D cfg specialized store es pos data

theorem Handler.Inv.handled {es : List (Option Action)} {c : Handler × SqliteData}
    (h : Handler.Inv D cfg specialized store es c) :
    ∃ pos, HandledTo D cfg specialized store es pos c.2 := by
  obtain ⟨handler, data⟩ := c
  cases handler with
  | ready pos => exact ⟨pos, h⟩
  | writing pos work writes => exact ⟨pos, h.1⟩
  | failed => exact h

theorem run_take_succ {es : List (Option Action)} {pos : ℕ} {a : Option Action}
    (hget : es[pos]? = some a)
    (hrun : run (handleAction D cfg specialized) store (es.take pos) = .ok store')
    {next : Store} (hnext : handleAction D cfg specialized store' a = .ok next) :
    run (handleAction D cfg specialized) store (es.take (pos + 1)) = .ok next := by
  rw [List.take_add_one, hget]
  exact run_concat.mpr ⟨store', hrun, hnext⟩

/-- **One step keeps it.** Nothing of a transaction is in the file before its commit. -/
theorem Handler.step_inv (r : Received) {c : Handler × SqliteData}
    (h : Handler.Inv D cfg specialized store r.1 c) :
    Handler.Inv D cfg specialized store r.1 (Handler.step D cfg specialized r c) := by
  obtain ⟨handler, data⟩ := c
  cases handler with
  | ready pos =>
    obtain ⟨store', hrun, hdata⟩ := h
    cases hget : r.1[pos]? with
    | none =>
      simp only [Handler.step, hget]
      exact ⟨store', hrun, hdata⟩
    | some a =>
      cases hwrites : writesOf D specialized cfg.mode (r.2 pos) a with
      | error e =>
        simp only [Handler.step, hget, hwrites]
        exact ⟨pos, store', hrun, hdata⟩
      | ok writes =>
        cases writes with
        | none =>
          have hsame : handleAction D cfg specialized store' a = .ok store' :=
            handleAction_of_writes_none hwrites
          simp only [Handler.step, hget, hwrites]
          exact ⟨store', run_take_succ hget hrun hsame, hdata⟩
        | some writes =>
          obtain ⟨next, out, n, hnext, hexec, hout⟩ := handleAction_of_writes hwrites hdata
          simp only [Handler.step, hget, hwrites]
          exact ⟨⟨store', hrun, hdata⟩, out, n, hexec, next, run_take_succ hget hrun hnext, hout⟩
  | writing pos work writes =>
    obtain ⟨hhere, out, n, hexec, hout⟩ := h
    cases writes with
    | nil =>
      cases hexec
      exact hout
    | cons w ws =>
      rw [executeWrites] at hexec
      obtain ⟨⟨work', k⟩, hw, hexec⟩ := Except.bind_eq_ok hexec
      obtain ⟨⟨out', m⟩, hws, hexec⟩ := Except.bind_eq_ok hexec
      cases hexec
      simp only [Handler.step, hw]
      exact ⟨hhere, out, m, hws, hout⟩
  | failed => exact h

/-- One life, cut after any number of steps. -/
theorem cut_handled (r : Received) (n : ℕ) (h : Represents data store) :
    ∃ pos, HandledTo D cfg specialized store r.1 pos
      (cut (.ready 0) (Handler.step D cfg specialized r) n data) := by
  have hstart : Handler.Inv D cfg specialized store r.1 (.ready 0, data) := ⟨store, rfl, h⟩
  have hall : Handler.Inv D cfg specialized store r.1
      ((Handler.step D cfg specialized r)^[n] (.ready 0, data)) :=
    Function.Iterate.rec _ hstart (fun c hc => Handler.step_inv r hc) n
  exact hall.handled

end Crashes

/-- **Crash safety.** After any number of lives, each cut after any number of steps, also inside a
    transaction, the database file holds what handling a first part of each life's responses, one
    life after the other, gives: no response is half written. -/
theorem crash_refines (D : Deps) (cfg : Config) (specialized : List SpecializedTii)
    (lives : List (Received × ℕ)) (data : SqliteData) (store : Store)
    (h : Represents data store) :
    ∃ handled : List (List (Option Action)),
      List.Forall₂ (fun es life => es <+: life.1.1) handled lives ∧
      ∃ store', run (handleAction D cfg specialized) store handled.flatten = .ok store' ∧
        Represents (crashes (.ready 0) (Handler.step D cfg specialized) lives data) store' := by
  induction lives generalizing data store with
  | nil => exact ⟨[], List.Forall₂.nil, store, rfl, h⟩
  | cons life lives ih =>
    obtain ⟨pos, mid, hmid, hdata⟩ : ∃ pos, HandledTo D cfg specialized store life.1.1 pos _ :=
      cut_handled life.1 life.2 h
    obtain ⟨handled, hprefixes, store', hrun, hout⟩ := ih _ mid hdata
    refine ⟨life.1.1.take pos :: handled, .cons (List.take_prefix _ _) hprefixes, store', ?_, hout⟩
    rw [List.flatten_cons]
    exact run_append_ok.mpr ⟨mid, hmid, hrun⟩

/-! ## Lives that are not cut -/

section Progress

variable {D : Deps} {cfg : Config} {specialized : List SpecializedTii} {store store' : Store}
  {data : SqliteData} {r : Received}

theorem exists_writes {now : ℤ} {a : Option Action}
    (h : handleAction D cfg specialized store a = .ok store') :
    ∃ writes, writesOf D specialized cfg.mode now a = .ok writes := by
  match a with
  | some (.apply anyTx) =>
    rcases applyTx_eq.mp h with ⟨happly, -⟩ | ⟨cursor, rows, happly, -⟩
    · refine ⟨none, ?_⟩
      rw [writesOf, happly]
      rfl
    · refine ⟨some (applyBlockWrites cursor rows now), ?_⟩
      rw [writesOf, happly]
      rfl
  | some (.undo anyTx) =>
    cases hchain : anyTx.chain with
    | none => exact ⟨none, by simp only [writesOf, hchain]; rfl⟩
    | some cardanoTx =>
      refine ⟨some (undoTxWrites cardanoTx.hash (undoParent D.toPallas anyTx)), ?_⟩
      simp only [writesOf, hchain]
      rfl
  | some (.idle _) => exact ⟨none, rfl⟩
  | none => exact ⟨none, rfl⟩

/-- A transaction whose statements succeed is committed. -/
theorem writing_commits {pos : ℕ} {work out : SqliteData} {ws : List Write} {n : ℕ}
    (h : executeWrites ws work = .ok (out, n)) :
    ∃ k, (Handler.step D cfg specialized r)^[k] (.writing pos work ws, data) =
      (.ready (pos + 1), out) := by
  induction ws generalizing work n with
  | nil =>
    cases h
    exact ⟨1, rfl⟩
  | cons w ws ih =>
    rw [executeWrites] at h
    obtain ⟨⟨work', k⟩, hw, h⟩ := Except.bind_eq_ok h
    obtain ⟨⟨out', m⟩, hws, h⟩ := Except.bind_eq_ok h
    cases h
    obtain ⟨k, hk⟩ := ih hws
    refine ⟨k + 1, ?_⟩
    rw [Function.iterate_succ_apply]
    simp only [Handler.step, hw]
    exact hk

theorem response_completes {pos : ℕ} {a : Option Action} (hget : r.1[pos]? = some a)
    (hdata : Represents data store) (h : handleAction D cfg specialized store a = .ok store') :
    ∃ k data', (Handler.step D cfg specialized r)^[k] (.ready pos, data) =
      (.ready (pos + 1), data') ∧ Represents data' store' := by
  obtain ⟨writes, hwrites⟩ : ∃ writes, writesOf D specialized cfg.mode (r.2 pos) a = .ok writes :=
    exists_writes h
  cases writes with
  | none =>
    cases h.symm.trans (handleAction_of_writes_none hwrites)
    refine ⟨1, data, ?_, hdata⟩
    simp only [Function.iterate_one, Handler.step, hget, hwrites]
  | some writes =>
    obtain ⟨next, out, n, hnext, hexec, hout⟩ := handleAction_of_writes hwrites hdata
    cases h.symm.trans hnext
    obtain ⟨k, hk⟩ : ∃ k, (Handler.step D cfg specialized r)^[k] (.writing pos data writes, data) =
      (.ready (pos + 1), out) := writing_commits hexec
    refine ⟨k + 1, out, ?_, hout⟩
    rw [Function.iterate_succ_apply]
    simp only [Handler.step, hget, hwrites]
    exact hk

theorem responses_complete {rest : List (Option Action)} {pos : ℕ} (hrest : r.1.drop pos = rest)
    (hpos : pos ≤ r.1.length) (hdata : Represents data store)
    (h : run (handleAction D cfg specialized) store rest = .ok store') :
    ∃ k data', (Handler.step D cfg specialized r)^[k] (.ready pos, data) =
      (.ready r.1.length, data') ∧ Represents data' store' := by
  induction rest generalizing pos data store with
  | nil =>
    cases h
    have hlen := List.drop_eq_nil_iff.mp hrest
    exact ⟨0, data, by rw [le_antisymm hpos hlen]; rfl, hdata⟩
  | cons a rest ih =>
    obtain ⟨mid, hmid, h⟩ := run_cons_ok.mp h
    have hget : r.1[pos]? = some a := by
      have hzero := congrArg (fun l => l[0]?) hrest
      simpa using hzero
    have hdrop : r.1.drop (pos + 1) = rest := by
      have htail := congrArg List.tail hrest
      simpa [List.tail_drop] using htail
    obtain ⟨k, data', hk, hdata'⟩ := response_completes hget hdata hmid
    obtain ⟨m, out, hm, hout⟩ := ih hdrop (List.getElem?_eq_some_iff.mp hget).1 hdata' h
    refine ⟨m + k, out, ?_, hout⟩
    rw [Function.iterate_add_apply, hk, hm]

/-- A life that is not cut short handles all of its responses, and then waits. -/
theorem life_completes (hdata : Represents data store)
    (hrun : run (handleAction D cfg specialized) store r.1 = .ok store') :
    ∃ n, ∀ m ≥ n, Represents (cut (.ready 0) (Handler.step D cfg specialized r) m data) store' := by
  obtain ⟨n, out, hn, hout⟩ := responses_complete List.drop_zero (Nat.zero_le _) hdata hrun
  have hend : Function.IsFixedPt (Handler.step D cfg specialized r) (.ready r.1.length, out) := by
    have hget : r.1[r.1.length]? = none := List.getElem?_eq_none le_rfl
    simp only [Function.IsFixedPt, Handler.step, hget]
  refine ⟨n, fun m hm => ?_⟩
  obtain ⟨k, rfl⟩ := Nat.exists_eq_add_of_le' hm
  rw [cut, Function.iterate_add_apply, hn, (hend.iterate k).eq]
  exact hout

end Progress

/-! ## From the migrations on -/

/-- A row that a binary with the first migration only has written. -/
def StoredRow.oldValues (r : StoredRow) : List SqlValue := r.values.take 10

/-- A database of any version that holds a store. Rows without a score read as score 0, rank 1. -/
def StartsAt (data : SqliteData) (store : Store) : ℕ → Prop
  | 0 => data.AtVersion 0 ∧ store = Store.empty
  | 1 => ∃ stored : List StoredRow, data.table? "matches" =
        some { columns := matchesColumns, rows := stored.map StoredRow.oldValues } ∧
      data.table? "cursor" = some (cursorTableOf store.cursorRow) ∧
      stored.map StoredRow.row = store.matchesTable ∧ (stored.map StoredRow.id).Nodup ∧
      ∀ r ∈ stored, r.row.score = 0 ∧ r.row.matchRank = 1
  | _ => Represents data store

section Versions

variable {data : SqliteData} {store : Store}

/-- The last table that a script creates is empty. -/
theorem table?_of_createTable_last {script : List Statement} {name : String} {columns : List Column}
    {out : SqliteData} (h : executeBatch (script ++ [.createTable name columns]) data = .ok out) :
    out.table? name = some { columns := columns, rows := [] } := by
  rw [executeBatch, List.foldlM_append] at h
  obtain ⟨mid, -, h⟩ := Except.bind_eq_ok h
  rw [List.foldlM_cons] at h
  obtain ⟨last, hlast, h⟩ := Except.bind_eq_ok h
  cases h
  simp only [Statement.execute] at hlast
  split_ifs at hlast with htaken
  cases hlast
  have hfree : mid.taken name = false := by simpa using htaken
  simp only [SqliteData.taken, SqliteData.table?, Bool.or_eq_false_iff] at hfree
  have hnone : mid.tables.lookup name = none := by simpa using hfree.1
  simp [SqliteData.table?, List.lookup_append, hnone]

/-- `002_score_rank.sql` on rows that an old binary has written. -/
theorem represents_of_scoreRank (h : StartsAt data store 1) :
    ∃ out, executeBatch scoreRankSql data = .ok out ∧ Represents out store := by
  obtain ⟨stored, hmatches, hcursor, hrows, hids, hdefaults⟩ := h
  obtain ⟨out, hout, htable, hother⟩ := executeBatch_scoreRank hmatches
  refine ⟨out, hout, stored, ?_, (hother "cursor" (by decide)).trans hcursor, hrows, hids⟩
  rw [htable, matchesTableOf, List.map_map]
  congr 2
  refine List.map_congr_left fun r hr => ?_
  obtain ⟨hscore, hrank⟩ := hdefaults r hr
  simp [StoredRow.oldValues, StoredRow.values, hscore, hrank]

/-- The migrations that a database lacks keep the store that it holds. -/
theorem represents_of_migrations {i : ℕ} (h : StartsAt data store i) :
    ∃ out, executeAll executeBatch (MIGRATIONS.drop i) data = .ok out ∧ Represents out store := by
  match i with
  | 0 =>
    obtain ⟨hversion, rfl⟩ := h
    obtain ⟨mid, hmid, htable⟩ := executeBatch_initial hversion
    have hscript : executeBatch
        (initialSql.dropLast ++ [.createTable "cursor" cursorColumns]) data = .ok mid := hmid
    have hcursor : mid.table? "cursor" = some (cursorTableOf none) :=
      table?_of_createTable_last hscript
    have hold : StartsAt mid Store.empty 1 :=
      ⟨[], htable, hcursor, rfl, List.nodup_nil, by simp⟩
    obtain ⟨out, hout, hrep⟩ := represents_of_scoreRank hold
    refine ⟨out, ?_, hrep⟩
    show executeBatch initialSql data >>= _ = _
    rw [hmid, Except.ok_bind]
    show executeBatch scoreRankSql mid >>= _ = _
    rw [hout]
    rfl
  | 1 =>
    obtain ⟨out, hout, hrep⟩ := represents_of_scoreRank h
    refine ⟨out, ?_, hrep⟩
    show executeBatch scoreRankSql data >>= _ = _
    rw [hout]
    rfl
  | i + 2 =>
    have hdrop : MIGRATIONS.drop (i + 2) = [] := by simp [MIGRATIONS]
    rw [hdrop]
    exact ⟨data, rfl, h⟩

end Versions

/-- **From the file to the rows.** Take a database file of any version, new or with rows of an older
    binary. After any crashes while it is opened and then any crashes of the processes that work on
    it, it holds what handling a first part of the responses of each process gives, from the rows
    that it held at first, and the resume point that is read back is the cursor of that. -/
theorem survives_crashes (D : Deps) (cfg : Config) (specialized : List SpecializedTii) (i : ℕ)
    (db : DbFile SqliteData) (store : Store)
    (hrecorded : db.recorded.Perm ((MIGRATIONS.take i).map Migration.name))
    (hdata : StartsAt db.data store i) (opens : List Open) (now : String → ℤ)
    (lives : List (Received × ℕ)) :
    ∃ db', runMigrations executeBatch now MIGRATIONS
        (afterCrashes executeBatch MIGRATIONS opens db) = .ok db' ∧
      ∃ handled : List (List (Option Action)),
        List.Forall₂ (fun es life => es <+: life.1.1) handled lives ∧
        ∃ store', run (handleAction D cfg specialized) store handled.flatten = .ok store' ∧
          Represents (crashes (.ready 0) (Handler.step D cfg specialized) lives db'.data) store' ∧
          sqlCursor (crashes (.ready 0) (Handler.step D cfg specialized) lives db'.data) =
            .ok store'.cursor := by
  have hnames : (MIGRATIONS.map Migration.name).Nodup := by decide
  obtain ⟨out, hsql, hrep⟩ := represents_of_migrations hdata
  obtain ⟨db', rows, hrun, rfl, -, -⟩ := runMigrations_of_recoverable hnames
    (recoverable_afterCrashes hnames opens ⟨i, hrecorded, hsql⟩) now
  obtain ⟨handled, hprefixes, store', hhandled, hout⟩ :=
    crash_refines D cfg specialized lives db'.data store hrep
  exact ⟨db', hrun, handled, hprefixes, store', hhandled, hout, sqlCursor_eq hout⟩

/-- A row that a binary with the first migration only has written, and the point it stopped at. -/
def Sample.oldRow : StoredRow :=
  { id := 1
    row :=
      { txHash := [0x04], blockSlot := 10, blockHash := [0xab], sourceName := "src-v1"
        protocolName := "proto", txName := "tx", profileName := "preprod"
        lifted := "\x7b\x7d", score := 0, matchRank := 1 }
    matchedAt := 1500000000 }

def Sample.oldStore : Store :=
  { matchesTable := [Sample.oldRow.row]
    cursorRow := some (10, List.replicate 32 0xab)
    unique := List.nodup_singleton _ }

def Sample.oldFile : DbFile SqliteData :=
  { schemaVersions := some [{ name := "001_initial", appliedAt := 1400000000 }]
    data :=
      { tables :=
          [("matches", { columns := matchesColumns, rows := [Sample.oldRow.oldValues] }),
           ("cursor", cursorTableOf Sample.oldStore.cursorRow)]
        indexes := [] } }

/-- A process that is cut inside its first transaction, and one that is cut after it. -/
def Sample.lives : List (Received × ℕ) :=
  [((sampleHistory, fun _ => 1700000000), 2), ((sampleHistory, fun _ => 1700000020), 6)]

/-- The open is cut inside the second migration. -/
theorem survives_crashes_upgrade :
    ∃ db', runMigrations executeBatch (fun _ => 1600000000) MIGRATIONS
        (afterCrashes executeBatch MIGRATIONS [(fun _ => 1600000000, 3)] Sample.oldFile) = .ok db' ∧
      ∃ handled : List (List (Option Action)),
        List.Forall₂ (fun es life => es <+: life.1.1) handled Sample.lives ∧
        ∃ store', run (handleAction Sample.chainDeps Sample.cfg [Sample.source]) Sample.oldStore
            handled.flatten = .ok store' ∧
          Represents (crashes (.ready 0) (Handler.step Sample.chainDeps Sample.cfg [Sample.source])
            Sample.lives db'.data) store' ∧
          sqlCursor (crashes (.ready 0) (Handler.step Sample.chainDeps Sample.cfg [Sample.source])
            Sample.lives db'.data) = .ok store'.cursor := by
  have hold : StartsAt Sample.oldFile.data Sample.oldStore 1 :=
    ⟨[Sample.oldRow], rfl, rfl, rfl, List.nodup_singleton _, by simp [Sample.oldRow]⟩
  exact survives_crashes Sample.chainDeps Sample.cfg [Sample.source] 1 Sample.oldFile
    Sample.oldStore (List.Perm.refl _) hold _ _ _

/-! ## Lives that go on where the last one stopped -/

/-- The upstream goes on at a position of its log that is not behind any at which one pass over the
    log leaves the tracker with this cursor. -/
def GoesOn (D : Deps) (cfg : Config) (specialized : List SpecializedTii) (start : Store)
    (log : List (Option Action)) (cursor : Option ChainPoint) (pos : ℕ) : Prop :=
  ∀ q s, run (handleAction D cfg specialized) start (log.take q) = .ok s → s.cursor = cursor →
    pos ≤ q

/-- The database after some lives. Each asks for the log from its cursor on, and is cut after some
    number of steps. -/
inductive Lives (D : Deps) (cfg : Config) (specialized : List SpecializedTii) (start : Store)
    (log : List (Option Action)) (data : SqliteData) : SqliteData → Prop
  | new : Lives D cfg specialized start log data data
  | life {mid : SqliteData} {cursor : Option ChainPoint} {pos : ℕ} (clock : ℕ → ℤ) (n : ℕ) :
      Lives D cfg specialized start log data mid → sqlCursor mid = .ok cursor →
      GoesOn D cfg specialized start log cursor pos →
      Lives D cfg specialized start log data
        (cut (.ready 0) (Handler.step D cfg specialized (log.drop pos, clock)) n mid)

section Lives

variable {D : Deps} {cfg : Config} {specialized : List SpecializedTii} {start store store' : Store}
  {log : List (Option Action)} {data mid : SqliteData}

/-- A response that does not set the cursor does nothing. -/
theorem handleAction_not_set {a : Option Action}
    (h : handleAction D cfg specialized store a = .ok store')
    (hset : (cursorUpdate D specialized cfg.mode a).isSet = false) : store' = store := by
  match a with
  | some (.apply anyTx) =>
    rcases applyTx_eq.mp h with ⟨-, rfl⟩ | ⟨cursor, rows, happly, -⟩
    · rfl
    · simp [cursorUpdate, happly, Update.isSet] at hset
  | some (.undo anyTx) =>
    have hs : undoTx D.toPallas store anyTx = store' := Except.ok.inj h
    rcases undoTx_eq D.toPallas store anyTx with ⟨-, heq⟩ | ⟨cardanoTx, hchain, -⟩
    · rw [← hs, heq]
    · simp [cursorUpdate, hchain, Update.isSet] at hset
  | some (.idle _) => exact (Except.ok.inj h).symm
  | none => exact (Except.ok.inj h).symm

theorem run_not_set {es : List (Option Action)}
    (h : run (handleAction D cfg specialized) store es = .ok store')
    (hset : ∀ a ∈ es, (cursorUpdate D specialized cfg.mode a).isSet = false) : store' = store := by
  induction es generalizing store with
  | nil => exact (Except.ok.inj h).symm
  | cons a es ih =>
    obtain ⟨mid, hmid, hrest⟩ := run_cons_ok.mp h
    rw [ih hrest fun b hb => hset b (List.mem_cons_of_mem a hb)]
    exact handleAction_not_set hmid (hset a List.mem_cons_self)

/-- After a response that sets the cursor, the cursor does not depend on what came before. -/
theorem run_set {es : List (Option Action)} {s s' : Store}
    (h : run (handleAction D cfg specialized) store es = .ok store')
    (h' : run (handleAction D cfg specialized) s es = .ok s')
    (hset : ∃ a ∈ es, (cursorUpdate D specialized cfg.mode a).isSet = true) :
    store'.cursorRow = s'.cursorRow := by
  have hany : (es.map (cursorUpdate D specialized cfg.mode)).any Update.isSet = true := by
    obtain ⟨a, ha, hseta⟩ := hset
    exact List.any_eq_true.mpr ⟨_, List.mem_map_of_mem ha, hseta⟩
  have heq := foldl_apply_of_set hany store.cursorRow s.cursorRow
  rw [List.foldl_map, List.foldl_map] at heq
  rw [run_cursorRow h, run_cursorRow h']
  exact heq

/-- What the tracker has handled: a delivery of the log with rewinds, and the cursor is the one of
    the position that the delivery has reached. -/
def Caught (D : Deps) (cfg : Config) (specialized : List SpecializedTii) (start : Store)
    (log : List (Option Action)) (store : Store) : Prop :=
  ∃ received pos, Deliveries log received pos ∧ pos ≤ log.length ∧
    run (handleAction D cfg specialized) start received = .ok store ∧
    ∃ s, run (handleAction D cfg specialized) start (log.take pos) = .ok s ∧
      s.cursorRow = store.cursorRow

theorem Store.cursor_congr {s t : Store} (h : s.cursorRow = t.cursorRow) : s.cursor = t.cursor := by
  rw [Store.cursor, Store.cursor, h]

/-- Handling more of the log keeps it, wherever the upstream goes on. -/
theorem Caught.handle (h : Caught D cfg specialized start log store)
    (honce : ∃ final, run (handleAction D cfg specialized) start log = .ok final) {pos k : ℕ}
    (hpos : GoesOn D cfg specialized start log store.cursor pos)
    (hrun : run (handleAction D cfg specialized) store ((log.drop pos).take k) = .ok store') :
    Caught D cfg specialized start log store' := by
  obtain ⟨received, q, hdelivered, hq, hreceived, s, hs, hcursor⟩ := h
  have hle : pos ≤ q := hpos q s hs (Store.cursor_congr hcursor)
  by_cases hset : ∃ a ∈ (log.drop pos).take k, (cursorUpdate D specialized cfg.mode a).isSet = true
  · obtain ⟨final, hfinal⟩ := honce
    obtain ⟨k', hk', htake⟩ : ∃ k', pos + k' ≤ log.length ∧
        (log.drop pos).take k = (log.drop pos).take k' := by
      refine ⟨min k (log.length - pos), by omega, ?_⟩
      rw [← List.length_drop, List.take_eq_take_iff]
      simp
    rw [htake] at hrun hset
    obtain ⟨before, hbefore⟩ := run_anywhere hfinal (fun a ha => List.mem_of_mem_take ha) start
    obtain ⟨s', hs'⟩ := run_anywhere hfinal
      (fun a ha => List.mem_of_mem_drop (List.mem_of_mem_take ha)) before
    refine ⟨received ++ (log.drop pos).take k', pos + k', (hdelivered.rewind hle).take hk', hk',
      run_append_ok.mpr ⟨store, hreceived, hrun⟩, s', ?_, run_set hs' hrun hset⟩
    rw [List.take_add]
    exact run_append_ok.mpr ⟨before, hbefore, hs'⟩
  · have hno : ∀ a ∈ (log.drop pos).take k,
        (cursorUpdate D specialized cfg.mode a).isSet = false := by
      intro a ha
      by_contra hne
      exact hset ⟨a, ha, by simpa using hne⟩
    rw [run_not_set hrun hno]
    exact ⟨received, q, hdelivered, hq, hreceived, s, hs, hcursor⟩

/-- It holds after every life, wherever it is cut. -/
theorem Lives.caught (h : Lives D cfg specialized start log data mid)
    (hdata : Represents data start)
    (honce : ∃ final, run (handleAction D cfg specialized) start log = .ok final) :
    ∃ store, Represents mid store ∧ Caught D cfg specialized start log store := by
  induction h with
  | new => exact ⟨start, hdata, [], 0, .start, Nat.zero_le _, rfl, start, rfl, rfl⟩
  | @life mid cursor pos clock n _ hcursor hpos ih =>
    obtain ⟨store, hmid, hcaught⟩ := ih
    obtain ⟨k, store', hrun, hout⟩ : ∃ k, HandledTo D cfg specialized store (log.drop pos) k _ :=
      cut_handled (log.drop pos, clock) n hmid
    cases hcursor.symm.trans (sqlCursor_eq hmid)
    exact ⟨store', hout, hcaught.handle honce hpos hrun⟩

end Lives

/-- **Exactly once.** The tracker is killed any number of times, at any step, also inside a
    transaction; whenever it comes back it asks the upstream to go on from the cursor in its
    database. Once one life is not cut short, the database holds the rows and the cursor that one
    pass over the log would have left, whatever was sent twice. -/
theorem exactly_once (D : Deps) (cfg : Config) (specialized : List SpecializedTii)
    (start final : Store) (log : List (Option Action)) (data mid : SqliteData)
    (cursor : Option ChainPoint) (pos : ℕ) (clock : ℕ → ℤ) (hdata : Represents data start)
    (honce : run (handleAction D cfg specialized) start log = .ok final)
    (hlives : Lives D cfg specialized start log data mid) (hcursor : sqlCursor mid = .ok cursor)
    (hpos : GoesOn D cfg specialized start log cursor pos) :
    ∃ n store', (∀ m ≥ n, Represents
        (cut (.ready 0) (Handler.step D cfg specialized (log.drop pos, clock)) m mid) store') ∧
      store'.matchesTable.Perm final.matchesTable ∧ store'.cursor = final.cursor := by
  obtain ⟨store, hmid, received, q, hdelivered, hq, hreceived, s, hs, hrow⟩ :=
    hlives.caught hdata ⟨final, honce⟩
  cases hcursor.symm.trans (sqlCursor_eq hmid)
  have hle : pos ≤ q := hpos q s hs (Store.cursor_congr hrow)
  obtain ⟨store', hrun⟩ := run_anywhere honce (fun a ha => List.mem_of_mem_drop ha) store
  obtain ⟨n, hn⟩ := life_completes (r := (log.drop pos, clock)) hmid hrun
  have hall : Deliveries log (received ++ log.drop pos) log.length := by
    have htake := (hdelivered.rewind hle).take (k := log.length - pos) (by omega)
    rw [List.take_of_length_le (by simp)] at htake
    have hlen : pos + (log.length - pos) = log.length := by omega
    rwa [hlen] at htake
  obtain ⟨hrows, hcursor'⟩ :=
    run_deliveries hall honce (run_append_ok.mpr ⟨store, hreceived, hrun⟩)
  exact ⟨n, store', hn, hrows, Store.cursor_congr hcursor'⟩

/-- The tables after the migrations, without rows. -/
def Sample.newTables : SqliteData :=
  { tables := [("matches", matchesTableOf []), ("cursor", cursorTableOf none)], indexes := [] }

/-- The database after a life that is cut inside the transaction of the Undo. -/
def Sample.cutTables : SqliteData :=
  cut (.ready 0) (Handler.step Sample.chainDeps Sample.cfg [Sample.source]
    (sampleHistory, fun _ => 1700000000)) 8 Sample.newTables

set_option maxRecDepth 4000 in
/-- The next life starts with the Undo. -/
theorem exactly_once_sample :
    ∃ final, run (handleAction Sample.chainDeps Sample.cfg [Sample.source]) Store.empty
        sampleHistory = .ok final ∧
      ∃ n store', (∀ m ≥ n, Represents (cut (.ready 0) (Handler.step Sample.chainDeps Sample.cfg
          [Sample.source] (sampleHistory.drop 1, fun _ => 1700000020)) m Sample.cutTables) store') ∧
        store'.matchesTable.Perm final.matchesTable ∧ store'.cursor = final.cursor := by
  obtain ⟨final, honce⟩ := sampleHistory_legal.run_ok
  have hnew : Represents Sample.newTables Store.empty := ⟨[], rfl, rfl, rfl, List.nodup_nil⟩
  have hlives : Lives Sample.chainDeps Sample.cfg [Sample.source] Store.empty sampleHistory
      Sample.newTables Sample.cutTables :=
    Lives.life _ 8 .new (rfl : sqlCursor _ = .ok none) fun q _ _ _ => Nat.zero_le q
  obtain ⟨point, hcursor⟩ : ∃ point, sqlCursor Sample.cutTables = .ok (some point) := ⟨_, rfl⟩
  refine ⟨final, honce, exactly_once Sample.chainDeps Sample.cfg [Sample.source] Store.empty final
    sampleHistory Sample.newTables Sample.cutTables (some point) 1 _ hnew honce hlives hcursor ?_⟩
  intro q s hs hpoint
  by_contra hlt
  have hzero : q = 0 := by omega
  rw [hzero] at hs
  cases hs
  cases hpoint

end Tx3Lift
