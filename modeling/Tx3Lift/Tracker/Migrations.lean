import Tx3Lift.Lib.Crash
import Tx3Lift.Tracker.Schema

/-!
# Schema migrations

Model of `run_migrations` (`bin/tracker/src/store.rs`). A database is its bookkeeping table
`_schema_versions` and everything else, `δ`; what SQLite makes of the SQL of a migration is
a parameter `executeBatch`, a partial function on `δ`.

* `runMigrations` is the loop as one function.
* `Conn.step` is the same code in steps, with the transaction's uncommitted copy of the
  database in the memory of the connection: a crash loses that copy.
* `Conn.step_inv`: what has been recorded has been executed, at every point of an open.
* `runMigrations_exactly_once`: after any sequence of crashes.
-/

namespace Tx3Lift

open Lib

/-- A row of `_schema_versions`. -/
structure SchemaVersion where
  name : String
  appliedAt : ℤ
deriving DecidableEq

/-- The database file: `_schema_versions`, if it exists, and the rest. -/
structure DbFile (δ : Type) where
  schemaVersions : Option (List SchemaVersion)
  data : δ

namespace DbFile

variable {δ : Type}

/-- `CREATE TABLE IF NOT EXISTS _schema_versions` (lines 208–213). -/
def createSchemaVersions (db : DbFile δ) : DbFile δ :=
  { db with schemaVersions := some (db.schemaVersions.getD []) }

/-- `SELECT 1 FROM _schema_versions WHERE name = ?` (lines 216–223). -/
def already (db : DbFile δ) (name : String) : Except String Bool :=
  match db.schemaVersions with
  | none => .error "no such table: _schema_versions"
  | some rows => .ok (rows.any fun row => row.name = name)

/-- `INSERT INTO _schema_versions` (lines 236–239); `name` is the primary key. -/
def record (db : DbFile δ) (name : String) (appliedAt : ℤ) : Except String (DbFile δ) :=
  match db.schemaVersions with
  | none => .error "no such table: _schema_versions"
  | some rows =>
    if rows.any fun row => row.name = name then
      .error "UNIQUE constraint failed: _schema_versions.name"
    else
      .ok { db with schemaVersions := some (rows ++ [{ name := name, appliedAt := appliedAt }]) }

/-- The names that `_schema_versions` records. -/
def recorded (db : DbFile δ) : List String := (db.schemaVersions.getD []).map SchemaVersion.name

@[simp] theorem recorded_createSchemaVersions (db : DbFile δ) :
    db.createSchemaVersions.recorded = db.recorded := rfl

@[simp] theorem data_createSchemaVersions (db : DbFile δ) :
    db.createSchemaVersions.data = db.data := rfl

theorem already_eq {db : DbFile δ} (h : db.schemaVersions.isSome) (name : String) :
    db.already name = .ok (decide (name ∈ db.recorded)) := by
  obtain ⟨rows, hrows⟩ := Option.isSome_iff_exists.mp h
  simp only [already, recorded, hrows, Option.getD_some]
  congr 1
  rw [Bool.eq_iff_iff]
  simp

/-- What recording a new name does. -/
theorem record_spec {db : DbFile δ} {name : String} (h : db.schemaVersions.isSome)
    (hname : name ∉ db.recorded) (appliedAt : ℤ) :
    ∃ db', db.record name appliedAt = .ok db' ∧ db'.schemaVersions.isSome ∧
      db'.recorded = db.recorded ++ [name] ∧ db'.data = db.data := by
  obtain ⟨rows, hrows⟩ := Option.isSome_iff_exists.mp h
  have hany : ¬ (rows.any fun row => row.name = name) = true := by
    simpa [recorded, hrows] using hname
  refine ⟨{ db with schemaVersions := some (rows ++ [⟨name, appliedAt⟩]) }, ?_, rfl, ?_, rfl⟩
  · simp only [record, hrows, if_neg hany]
  · simp [recorded, hrows]

end DbFile

section Run

variable {δ Sql : Type} (executeBatch : Sql → δ → Except String δ)

/-! ## `run_migrations` -/

/-- The body of the loop (lines 215–241). `now` is `unix_secs()` when a migration is
    recorded. The `?` operators between the two ends of the transaction roll it back. -/
def migrate (now : String → ℤ) (db : DbFile δ) (m : Migration Sql) :
    Except String (DbFile δ) := do
  if ← db.already m.name then return db
  let data ← executeBatch m.sql db.data
  { db with data := data }.record m.name (now m.name)

/-- `run_migrations` (lines 207–243) over a list of migrations. -/
def runMigrations (now : String → ℤ) (migrations : List (Migration Sql)) (db : DbFile δ) :
    Except String (DbFile δ) :=
  migrations.foldlM (migrate executeBatch now) db.createSchemaVersions

/-- The SQL of each migration, once and in list order. -/
def executeAll (migrations : List (Migration Sql)) (data : δ) : Except String δ :=
  migrations.foldlM (fun data m => executeBatch m.sql data) data

/-! ## The same code in steps -/

/-- The memory of an open: where `run_migrations` stands, and inside a transaction the
    uncommitted database. -/
inductive Conn (δ Sql : Type) where
  /-- before `CREATE TABLE IF NOT EXISTS` -/
  | opened (migrations : List (Migration Sql))
  /-- at the head of the loop -/
  | loop (rest : List (Migration Sql))
  /-- after `execute_batch` -/
  | executed (m : Migration Sql) (rest : List (Migration Sql)) (work : DbFile δ)
  /-- after the `INSERT`, before the commit -/
  | inserted (rest : List (Migration Sql)) (work : DbFile δ)
  /-- returned an error -/
  | failed (e : String)

/-- One step. Only `CREATE TABLE` and the commit change the database file. -/
def Conn.step (now : String → ℤ) : Conn δ Sql × DbFile δ → Conn δ Sql × DbFile δ
  | (.opened migrations, db) => (.loop migrations, db.createSchemaVersions)
  | (.loop [], db) => (.loop [], db)
  | (.loop (m :: rest), db) =>
    match db.already m.name with
    | .error e => (.failed e, db)
    | .ok true => (.loop rest, db)
    | .ok false =>
      match executeBatch m.sql db.data with
      | .error e => (.failed e, db)
      | .ok data => (.executed m rest { db with data := data }, db)
  | (.executed m rest work, db) =>
    match work.record m.name (now m.name) with
    | .error e => (.failed e, db)
    | .ok work' => (.inserted rest work', db)
  | (.inserted rest work, _) => (.loop rest, work)
  | (.failed e, db) => (.failed e, db)

/-- One open of the store, with its clock, cut after some number of steps. -/
abbrev Open := (String → ℤ) × ℕ

/-- The database file after a sequence of opens cut by crashes. -/
def afterCrashes (migrations : List (Migration Sql)) (opens : List Open) (db : DbFile δ) :
    DbFile δ :=
  crashes (.opened migrations) (Conn.step executeBatch) opens db

/-! ## What holds at every point -/

/-- The first `j` migrations are recorded, and executing the others gives `target`. -/
structure Stands (migrations : List (Migration Sql)) (target : Except String δ) (j : ℕ)
    (db : DbFile δ) : Prop where
  recorded : db.recorded.Perm ((migrations.take j).map Migration.name)
  pending : executeAll executeBatch (migrations.drop j) db.data = target

/-- The database file stands somewhere in the list. -/
def Recoverable (migrations : List (Migration Sql)) (target : Except String δ)
    (db : DbFile δ) : Prop :=
  ∃ j, Stands executeBatch migrations target j db

variable {executeBatch} {migrations : List (Migration Sql)} {target : Except String δ}

/-- The head and the tail of what is left of the list. -/
theorem drop_eq_cons {k : ℕ} {m : Migration Sql} {rest : List (Migration Sql)}
    (h : migrations.drop k = m :: rest) :
    migrations[k]? = some m ∧ migrations.drop (k + 1) = rest := by
  constructor
  · have hzero := congrArg (fun l => l[0]?) h
    simpa using hzero
  · have htail := congrArg List.tail h
    simpa [List.tail_drop] using htail

theorem Stands.createSchemaVersions {j : ℕ} {db : DbFile δ}
    (h : Stands executeBatch migrations target j db) :
    Stands executeBatch migrations target j db.createSchemaVersions :=
  ⟨h.recorded, h.pending⟩

/-- Among distinct names, the migration number `k` is recorded once the list stands past it. -/
theorem Stands.name_mem_iff (hnames : (migrations.map Migration.name).Nodup) {j k : ℕ}
    {db : DbFile δ} (h : Stands executeBatch migrations target j db) (hk : k ≤ j)
    {m : Migration Sql} {rest : List (Migration Sql)} (hm : migrations.drop k = m :: rest) :
    m.name ∈ db.recorded ↔ k < j := by
  rw [h.recorded.mem_iff]
  constructor
  · intro hmem
    by_contra hlt
    have hjk : j = k := by omega
    subst hjk
    rw [← List.take_append_drop j migrations, hm, List.map_append, List.map_cons] at hnames
    exact List.disjoint_of_nodup_append hnames hmem List.mem_cons_self
  · intro hlt
    have htake : (migrations.take j)[k]? = some m := by
      rw [List.getElem?_take_of_lt hlt]
      exact (drop_eq_cons hm).1
    exact List.mem_map_of_mem (List.mem_of_getElem? htake)

/-- One transaction moves the list by one. -/
theorem Stands.advance {j : ℕ} {db work db' : DbFile δ} {m : Migration Sql}
    {rest : List (Migration Sql)} (h : Stands executeBatch migrations target j db)
    (hm : migrations.drop j = m :: rest) (hwork : work.recorded = db.recorded)
    (hrecorded : db'.recorded = work.recorded ++ [m.name])
    (hpending : executeAll executeBatch rest db'.data = target) :
    Stands executeBatch migrations target (j + 1) db' := by
  obtain ⟨hget, hrest⟩ := drop_eq_cons hm
  have htake : migrations.take (j + 1) = migrations.take j ++ [m] := by
    rw [List.take_add_one, hget]
    rfl
  refine ⟨?_, by rw [hrest]; exact hpending⟩
  rw [hrecorded, hwork, htake, List.map_append]
  exact h.recorded.append_right _

/-- What holds of the connection and the database file at every step of an open. -/
def Conn.Inv (executeBatch : Sql → δ → Except String δ) (migrations : List (Migration Sql))
    (target : Except String δ) : Conn δ Sql × DbFile δ → Prop
  | (.opened ms, db) => ms = migrations ∧ Recoverable executeBatch migrations target db
  | (.loop rest, db) =>
    db.schemaVersions.isSome ∧
      ∃ j k, Stands executeBatch migrations target j db ∧ k ≤ j ∧ rest = migrations.drop k
  | (.executed m rest work, db) =>
    work.schemaVersions.isSome ∧ work.recorded = db.recorded ∧
      executeAll executeBatch rest work.data = target ∧
      ∃ j, Stands executeBatch migrations target j db ∧ migrations.drop j = m :: rest
  | (.inserted rest work, db) =>
    work.schemaVersions.isSome ∧ Recoverable executeBatch migrations target db ∧
      ∃ j, Stands executeBatch migrations target j work ∧ rest = migrations.drop j
  | (.failed _, db) => Recoverable executeBatch migrations target db

/-- The database file stands somewhere in the list throughout an open. -/
theorem Conn.recoverable {c : Conn δ Sql × DbFile δ}
    (h : Conn.Inv executeBatch migrations target c) :
    Recoverable executeBatch migrations target c.2 := by
  obtain ⟨conn, db⟩ := c
  cases conn with
  | opened ms => exact h.2
  | loop rest =>
    obtain ⟨-, j, k, hj, -, -⟩ := h
    exact ⟨j, hj⟩
  | executed m rest work =>
    obtain ⟨-, -, -, j, hj, -⟩ := h
    exact ⟨j, hj⟩
  | inserted rest work => exact h.2.1
  | failed e => exact h

/-- One step keeps it: the effect of a migration and its row are committed together. -/
theorem Conn.step_inv (hnames : (migrations.map Migration.name).Nodup) (now : String → ℤ)
    {c : Conn δ Sql × DbFile δ} (h : Conn.Inv executeBatch migrations target c) :
    Conn.Inv executeBatch migrations target (Conn.step executeBatch now c) := by
  obtain ⟨conn, db⟩ := c
  cases conn with
  | opened ms =>
    obtain ⟨rfl, j, hj⟩ := h
    exact ⟨rfl, j, 0, hj.createSchemaVersions, Nat.zero_le j, rfl⟩
  | loop rest =>
    obtain ⟨hsome, j, k, hj, hk, hrest⟩ := h
    cases rest with
    | nil => exact ⟨hsome, j, k, hj, hk, hrest⟩
    | cons m rest =>
      obtain ⟨-, hdrop⟩ := drop_eq_cons hrest.symm
      have hmem := hj.name_mem_iff hnames hk hrest.symm
      simp only [Conn.step, DbFile.already_eq hsome]
      by_cases hlt : k < j
      · -- recorded by an earlier open
        rw [decide_eq_true (hmem.mpr hlt)]
        exact ⟨hsome, j, k + 1, hj, hlt, hdrop.symm⟩
      · obtain rfl : k = j := by omega
        rw [decide_eq_false (fun hin => hlt (hmem.mp hin))]
        cases hexec : executeBatch m.sql db.data with
        | error e => exact ⟨k, hj⟩
        | ok data =>
          refine ⟨hsome, rfl, ?_, k, hj, hrest.symm⟩
          have hpending := hj.pending
          rw [← hrest, executeAll, List.foldlM_cons, hexec] at hpending
          exact hpending
  | executed m rest work =>
    obtain ⟨hsome, hrecorded, hpending, j, hj, hrest⟩ := h
    have hname : m.name ∉ work.recorded := by
      rw [hrecorded, hj.name_mem_iff hnames le_rfl hrest]
      exact lt_irrefl j
    obtain ⟨work', hwork', hsome', hnames', hdata'⟩ :=
      DbFile.record_spec hsome hname (now m.name)
    simp only [Conn.step, hwork']
    refine ⟨hsome', ⟨j, hj⟩, j + 1, ?_, (drop_eq_cons hrest).2.symm⟩
    exact hj.advance hrest hrecorded hnames' (by rw [hdata']; exact hpending)
  | inserted rest work =>
    obtain ⟨hsome, -, j, hj, hrest⟩ := h
    exact ⟨hsome, j, j, hj, le_rfl, hrest⟩
  | failed e => exact h

/-- No crash undoes more than the transaction it interrupts. -/
theorem recoverable_afterCrashes (hnames : (migrations.map Migration.name).Nodup)
    (opens : List Open) {db : DbFile δ} (h : Recoverable executeBatch migrations target db) :
    Recoverable executeBatch migrations target
      (afterCrashes executeBatch migrations opens db) := by
  have hstart : ∀ db, Recoverable executeBatch migrations target db →
      Conn.Inv executeBatch migrations target (.opened migrations, db) := fun db h => ⟨rfl, h⟩
  exact crashes_induction hstart (fun now c hc => Conn.step_inv hnames now hc)
    (fun c hc => Conn.recoverable hc) opens h

/-! ## The next open -/

/-- The loop brings the list to its end, from any position that the bookkeeping allows. -/
theorem foldlM_migrate (hnames : (migrations.map Migration.name).Nodup) (now : String → ℤ)
    {out : δ} {rest : List (Migration Sql)} {j k : ℕ} {db : DbFile δ}
    (hsome : db.schemaVersions.isSome) (hj : Stands executeBatch migrations (.ok out) j db)
    (hk : k ≤ j) (hrest : migrations.drop k = rest) :
    ∃ db' j', rest.foldlM (migrate executeBatch now) db = .ok db' ∧ db'.schemaVersions.isSome ∧
      Stands executeBatch migrations (.ok out) j' db' ∧ migrations.length ≤ j' := by
  induction rest generalizing j k db with
  | nil =>
    refine ⟨db, j, rfl, hsome, hj, ?_⟩
    have hlen := List.drop_eq_nil_iff.mp hrest
    omega
  | cons m rest ih =>
    obtain ⟨-, hdrop⟩ := drop_eq_cons hrest
    have hmem := hj.name_mem_iff hnames hk hrest
    rw [List.foldlM_cons]
    by_cases hlt : k < j
    · have hstep : migrate executeBatch now db m = .ok db := by
        rw [migrate, DbFile.already_eq hsome, decide_eq_true (hmem.mpr hlt)]
        rfl
      rw [hstep]
      exact ih hsome hj hlt hdrop
    · obtain rfl : k = j := by omega
      have hname : m.name ∉ db.recorded := fun hin => hlt (hmem.mp hin)
      have hpending := hj.pending
      rw [hrest, executeAll, List.foldlM_cons] at hpending
      obtain ⟨data, hexec, hpending⟩ := Except.bind_eq_ok hpending
      have hwork : ({ db with data := data } : DbFile δ).schemaVersions.isSome := hsome
      obtain ⟨db', hdb', hsome', hnames', hdata'⟩ :=
        DbFile.record_spec hwork hname (now m.name)
      have hstep : migrate executeBatch now db m = .ok db' := by
        rw [migrate, DbFile.already_eq hsome, decide_eq_false hname]
        show executeBatch m.sql db.data >>= _ = _
        rw [hexec]
        exact hdb'
      have hnext : Stands executeBatch migrations (.ok out) (k + 1) db' :=
        hj.advance hrest (rfl : DbFile.recorded { db with data := data } = _) hnames'
          (by rw [hdata']; exact hpending)
      rw [hstep]
      exact ih hsome' hnext le_rfl hdrop

/-- What the loop returns, an open that is not cut reaches in steps. -/
theorem steps_of_foldlM {now : String → ℤ} {rest : List (Migration Sql)} {db db' : DbFile δ}
    (h : rest.foldlM (migrate executeBatch now) db = .ok db') :
    Relation.ReflTransGen (fun c d => Conn.step executeBatch now c = d) (.loop rest, db)
      (.loop [], db') := by
  induction rest generalizing db with
  | nil =>
    cases h
    exact .refl
  | cons m rest ih =>
    rw [List.foldlM_cons] at h
    obtain ⟨mid, hmid, h⟩ := Except.bind_eq_ok h
    obtain ⟨already, halready, hmid⟩ := Except.bind_eq_ok hmid
    cases already with
    | true =>
      cases hmid
      refine .head (b := (.loop rest, db)) ?_ (ih h)
      simp only [Conn.step, halready]
    | false =>
      obtain ⟨data, hexec, hrecord⟩ := Except.bind_eq_ok hmid
      refine .head (b := (.executed m rest { db with data := data }, db)) ?_ ?_
      · simp only [Conn.step, halready, hexec]
      · refine .head (b := (.inserted rest mid, db)) ?_ ?_
        · simp only [Conn.step, hrecord]
        · exact .head (b := (.loop rest, mid)) rfl (ih h)

theorem steps_of_runMigrations {now : String → ℤ} {db db' : DbFile δ}
    (h : runMigrations executeBatch now migrations db = .ok db') :
    Relation.ReflTransGen (fun c d => Conn.step executeBatch now c = d)
      (.opened migrations, db) (.loop [], db') :=
  .head rfl (steps_of_foldlM h)

/-- The next open from a recoverable database. -/
theorem runMigrations_of_recoverable (hnames : (migrations.map Migration.name).Nodup)
    {db : DbFile δ} {out : δ} (h : Recoverable executeBatch migrations (.ok out) db)
    (now : String → ℤ) :
    ∃ db' rows, runMigrations executeBatch now migrations db = .ok db' ∧ db'.data = out ∧
      db'.schemaVersions = some rows ∧
      (rows.map SchemaVersion.name).Perm (migrations.map Migration.name) := by
  obtain ⟨j, hj⟩ := h
  obtain ⟨db', j', hrun, hsome, hj', hlen⟩ :=
    foldlM_migrate hnames now rfl hj.createSchemaVersions (Nat.zero_le j) List.drop_zero
  obtain ⟨rows, hrows⟩ := Option.isSome_iff_exists.mp hsome
  have hdata := hj'.pending
  have hrecorded := hj'.recorded
  rw [List.drop_of_length_le hlen] at hdata
  rw [List.take_of_length_le hlen, DbFile.recorded, hrows] at hrecorded
  cases hdata
  exact ⟨db', rows, hrun, rfl, hrows, hrecorded⟩

/-- **Exactly once.** Take a database that records a prefix of the list, and on whose data the
    SQL of the other migrations runs in list order, with result `out`. After any sequence of
    opens, each cut by a crash at any point, the next open succeeds, the data is `out`, and
    the whole list is recorded: the SQL of each migration has run once, in order. -/
theorem runMigrations_exactly_once (hnames : (migrations.map Migration.name).Nodup) {i : ℕ}
    {db : DbFile δ} (hstart : db.recorded.Perm ((migrations.take i).map Migration.name))
    {out : δ} (hsql : executeAll executeBatch (migrations.drop i) db.data = .ok out)
    (opens : List Open) (now : String → ℤ) :
    ∃ db' rows, runMigrations executeBatch now migrations
        (afterCrashes executeBatch migrations opens db) = .ok db' ∧
      db'.data = out ∧ db'.schemaVersions = some rows ∧
      (rows.map SchemaVersion.name).Perm (migrations.map Migration.name) :=
  runMigrations_of_recoverable hnames
    (recoverable_afterCrashes hnames opens ⟨i, hstart, hsql⟩) now

end Run

/-! ## The repository's migrations -/

/-- A database that an old binary left at version 1, with one row. -/
def Sample.oldDatabase : DbFile SqliteData :=
  { schemaVersions := some [{ name := "001_initial", appliedAt := 0 }]
    data :=
      { tables := [("matches",
          { columns := matchesColumns
            rows := [[.integer 1, .blob [0x04], .integer 10, .blob [0xab], .text "src-v1",
              .text "proto", .text "tx", .text "preprod", .text "\x7b\x7d", .integer 0]] })]
        indexes := [] } }

/-- The first open is cut inside the transaction of the second migration, the second one
    after it has been committed. -/
theorem runMigrations_exactly_once_upgrade :
    ∃ out, executeBatch scoreRankSql Sample.oldDatabase.data = .ok out ∧
      ∃ db' rows, runMigrations executeBatch (fun _ => 1700000000) MIGRATIONS
          (afterCrashes executeBatch MIGRATIONS [(fun _ => 1600000000, 3), (fun _ => 1650000000, 5)]
            Sample.oldDatabase) = .ok db' ∧
        db'.data = out ∧ db'.schemaVersions = some rows ∧
        (rows.map SchemaVersion.name).Perm ["001_initial", "002_score_rank"] := by
  have htable : Sample.oldDatabase.data.table? "matches" = some
      { columns := matchesColumns, rows := _ } := rfl
  obtain ⟨out, hout, -, -⟩ := executeBatch_scoreRank htable
  refine ⟨out, hout, ?_⟩
  have hsql : executeAll executeBatch (MIGRATIONS.drop 1) Sample.oldDatabase.data = .ok out := by
    show executeBatch scoreRankSql Sample.oldDatabase.data >>= _ = _
    rw [hout]
    rfl
  exact runMigrations_exactly_once (by decide) (i := 1) (List.Perm.refl _) hsql _ _

/-- **Opening the store.** From any prefix of the repository's migrations, with any rows in
    the tables and after any sequence of crashes, an open brings the database to the schema
    of both. -/
theorem runMigrations_MIGRATIONS {i : ℕ} {db : DbFile SqliteData}
    (hstart : db.recorded.Perm ((MIGRATIONS.take i).map Migration.name))
    (hdata : db.data.AtVersion i) (opens : List Open) (now : String → ℤ) :
    ∃ db' rows, runMigrations executeBatch now MIGRATIONS
        (afterCrashes executeBatch MIGRATIONS opens db) = .ok db' ∧
      db'.data.AtVersion 2 ∧ db'.schemaVersions = some rows ∧
      (rows.map SchemaVersion.name).Perm ["001_initial", "002_score_rank"] := by
  have hnames : (MIGRATIONS.map Migration.name).Nodup := by decide
  obtain ⟨out, hsql, hversion⟩ := foldlM_MIGRATIONS hdata
  obtain ⟨db', rows, hrun, hout, hrows, hrecorded⟩ := runMigrations_of_recoverable hnames
    (recoverable_afterCrashes hnames opens ⟨i, hstart, hsql⟩) now
  exact ⟨db', rows, hrun, by rw [hout]; exact hversion, hrows, hrecorded⟩

end Tx3Lift
