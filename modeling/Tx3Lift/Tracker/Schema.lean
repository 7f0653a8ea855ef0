import Tx3Lift.Basic

/-!
# The schema scripts

The SQL of `bin/tracker/migrations` as statements, with the part of SQLite that they use:
tables with named columns and rows, and indexes. Column types and the constraints of
`matches` and `cursor` are left out: a script inserts no row.

* `executeBatch_initial`, `executeBatch_scoreRank`: what each script does to a database
  that stands where it expects it.
* `execute_addColumn_twice`: the second script cannot run twice.
-/

namespace Tx3Lift

/-! ## Tables and statements -/

/-- A value of a column. -/
inductive SqlValue where
  | null
  | integer (n : ℤ)
  | text (s : String)
  | blob (bytes : ByteBuf)
deriving DecidableEq

/-- The definition of a column. -/
structure Column where
  name : String
  notNull : Bool := false
  default : SqlValue := .null
deriving DecidableEq

/-- A table: its columns, and a value for each column in every row. -/
structure Table where
  columns : List Column
  rows : List (List SqlValue)
deriving DecidableEq

/-- Everything in the database file but `_schema_versions`. -/
structure SqliteData where
  tables : List (String × Table)
  indexes : List (String × String)
deriving DecidableEq

/-- The statements of the scripts. -/
inductive Statement where
  | createTable (name : String) (columns : List Column)
  | createIndex (name table : String) (columns : List String)
  | addColumn (table : String) (column : Column)
deriving DecidableEq

namespace SqliteData

/-- The table of a name. -/
def table? (data : SqliteData) (name : String) : Option Table := data.tables.lookup name

/-- Tables and indexes share their names. -/
def taken (data : SqliteData) (name : String) : Bool :=
  (data.table? name).isSome || (data.indexes.lookup name).isSome

/-- The database with the content of one table replaced. -/
def setTable (data : SqliteData) (name : String) (table : Table) : SqliteData :=
  { data with tables := data.tables.map fun t => if t.1 = name then (name, table) else t }

theorem table?_setTable (data : SqliteData) (name : String) (table : Table) (other : String) :
    (data.setTable name table).table? other =
      if other = name then (data.table? other).map fun _ => table else data.table? other := by
  obtain ⟨tables, indexes⟩ := data
  show (tables.map fun t => if t.1 = name then (name, table) else t).lookup other =
    if other = name then (tables.lookup other).map fun _ => table else tables.lookup other
  induction tables with
  | nil => simp
  | cons t tables ih =>
    obtain ⟨key, t⟩ := t
    by_cases hother : other = key
    · subst hother
      by_cases hname : other = name <;> simp [hname]
    · have hne : (other == key) = false := beq_eq_false_iff_ne.mpr hother
      rw [List.lookup_cons, hne, List.map_cons]
      by_cases hname : key = name
      · subst hname
        rw [if_pos rfl, List.lookup_cons, hne]
        exact ih
      · rw [if_neg hname, List.lookup_cons, hne]
        exact ih

theorem table?_setTable_self {data : SqliteData} {name : String} {old : Table}
    (h : data.table? name = some old) (table : Table) :
    (data.setTable name table).table? name = some table := by
  rw [table?_setTable, if_pos rfl, h]
  rfl

theorem table?_setTable_ne (data : SqliteData) {name other : String} (h : other ≠ name)
    (table : Table) : (data.setTable name table).table? other = data.table? other := by
  rw [table?_setTable, if_neg h]

end SqliteData

/-- One statement. -/
def Statement.execute (data : SqliteData) : Statement → Except String SqliteData
  | .createTable name columns =>
    if data.taken name then .error ("table " ++ name ++ " already exists")
    else .ok { data with tables := data.tables ++ [(name, { columns := columns, rows := [] })] }
  | .createIndex name table columns =>
    if data.taken name then .error ("index " ++ name ++ " already exists")
    else
      match data.table? table with
      | none => .error ("no such table: " ++ table)
      | some t =>
        if columns.all fun c => t.columns.any fun column => column.name = c then
          .ok { data with indexes := data.indexes ++ [(name, table)] }
        else .error "no such column"
  | .addColumn table column =>
    match data.table? table with
    | none => .error ("no such table: " ++ table)
    | some t =>
      if t.columns.any fun c => c.name = column.name then
        .error ("duplicate column name: " ++ column.name)
      else if column.notNull && column.default = .null then
        .error "Cannot add a NOT NULL column with default value NULL"
      else
        -- every row reads back the default of the new column
        .ok (data.setTable table { columns := t.columns ++ [column],
                                   rows := t.rows.map (· ++ [column.default]) })

/-- `execute_batch` on a script. -/
def executeBatch (script : List Statement) (data : SqliteData) : Except String SqliteData :=
  script.foldlM Statement.execute data

/-! ## `MIGRATIONS` -/

/-- The columns of `matches` in `001_initial.sql`. -/
def matchesColumns : List Column :=
  { name := "id" } ::
    ["tx_hash", "block_slot", "block_hash", "source_name", "protocol_name", "tx_name",
      "profile_name", "lifted", "matched_at"].map fun name => { name := name, notNull := true }

/-- The columns of `cursor`. -/
def cursorColumns : List Column :=
  [{ name := "id" }, { name := "slot", notNull := true }, { name := "block_hash", notNull := true }]

/-- `001_initial.sql`. -/
def initialSql : List Statement :=
  [.createTable "matches" matchesColumns,
   .createIndex "idx_matches_block" "matches" ["block_slot", "block_hash"],
   .createIndex "idx_matches_source" "matches" ["source_name"],
   .createTable "cursor" cursorColumns]

/-- The columns that `002_score_rank.sql` adds, with their defaults. -/
def scoreColumn : Column := { name := "score", notNull := true, default := .integer 0 }

def matchRankColumn : Column := { name := "match_rank", notNull := true, default := .integer 1 }

/-- `002_score_rank.sql`. -/
def scoreRankSql : List Statement :=
  [.addColumn "matches" scoreColumn, .addColumn "matches" matchRankColumn]

/-- An entry of `MIGRATIONS`. -/
structure Migration (Sql : Type) where
  name : String
  sql : Sql

/-- `MIGRATIONS` (`store.rs`, lines 10–16). -/
def MIGRATIONS : List (Migration (List Statement)) :=
  [{ name := "001_initial", sql := initialSql }, { name := "002_score_rank", sql := scoreRankSql }]

/-! ## What the scripts do -/

/-- The columns of `matches` after both scripts. -/
def rankedColumns : List Column := matchesColumns ++ [scoreColumn, matchRankColumn]

/-- Where a database stands in `MIGRATIONS`, with any rows in its tables. -/
def SqliteData.AtVersion (data : SqliteData) : ℕ → Prop
  | 0 => ∀ name ∈ ["matches", "cursor", "idx_matches_block", "idx_matches_source"],
      data.taken name = false
  | 1 => ∃ rows, data.table? "matches" = some { columns := matchesColumns, rows := rows }
  | _ => ∃ rows, data.table? "matches" = some { columns := rankedColumns, rows := rows }

/-- A new column is added to every row, and no other table changes. -/
theorem execute_addColumn {data : SqliteData} {table : String} {columns : List Column}
    {rows : List (List SqlValue)} {column : Column}
    (htable : data.table? table = some { columns := columns, rows := rows })
    (hnew : (columns.any fun c => c.name = column.name) = false)
    (hdefault : (column.notNull && column.default = .null) = false) :
    ∃ out, Statement.execute data (.addColumn table column) = .ok out ∧
      out.table? table = some
        { columns := columns ++ [column], rows := rows.map (· ++ [column.default]) } ∧
      ∀ other, other ≠ table → out.table? other = data.table? other := by
  refine ⟨_, ?_, SqliteData.table?_setTable_self htable _,
    fun other hne => SqliteData.table?_setTable_ne data hne _⟩
  simp only [Statement.execute, htable, hnew, hdefault]
  rfl

/-- **Not idempotent.** A script that adds a column fails where the column exists. -/
theorem execute_addColumn_twice {data : SqliteData} {table : String} {t : Table} {column : Column}
    (htable : data.table? table = some t) (hmem : column ∈ t.columns) :
    Statement.execute data (.addColumn table column) =
      .error ("duplicate column name: " ++ column.name) := by
  have hany : (t.columns.any fun c => c.name = column.name) = true :=
    List.any_eq_true.mpr ⟨column, hmem, by simp⟩
  simp only [Statement.execute, htable, hany, if_true]

/-- `002_score_rank.sql` on the tables of `001_initial.sql`: the rows get the defaults, and no
    other table changes. -/
theorem executeBatch_scoreRank {data : SqliteData} {rows : List (List SqlValue)}
    (h : data.table? "matches" = some { columns := matchesColumns, rows := rows }) :
    ∃ out, executeBatch scoreRankSql data = .ok out ∧
      out.table? "matches" = some
        { columns := rankedColumns, rows := rows.map (· ++ [.integer 0, .integer 1]) } ∧
      ∀ other, other ≠ "matches" → out.table? other = data.table? other := by
  have hnew : (matchesColumns.any fun c => c.name = scoreColumn.name) = false := by decide
  have hnew' : ((matchesColumns ++ [scoreColumn]).any fun c => c.name = matchRankColumn.name) =
      false := by decide
  obtain ⟨mid, hmid, htable, hother⟩ := execute_addColumn h hnew (by decide)
  obtain ⟨out, hout, htable', hother'⟩ := execute_addColumn htable hnew' (by decide)
  refine ⟨out, ?_, ?_, fun other hne => (hother' other hne).trans (hother other hne)⟩
  · rw [executeBatch, scoreRankSql, List.foldlM_cons, hmid, Except.ok_bind, List.foldlM_cons,
      hout]
    rfl
  · rw [htable', rankedColumns, List.map_map, List.append_assoc]
    congr 3
    funext row
    simp [scoreColumn, matchRankColumn]

/-- A new table is empty, and takes no other name. -/
theorem execute_createTable {data : SqliteData} {name : String} (columns : List Column)
    (h : data.taken name = false) :
    ∃ out, Statement.execute data (.createTable name columns) = .ok out ∧
      out.table? name = some { columns := columns, rows := [] } ∧
      ∀ other, other ≠ name →
        out.taken other = data.taken other ∧ out.table? other = data.table? other := by
  have htable : data.tables.lookup name = none := by
    simp only [SqliteData.taken, SqliteData.table?, Bool.or_eq_false_iff] at h
    simpa using h.1
  refine ⟨{ data with tables := data.tables ++ [(name, { columns := columns, rows := [] })] },
    ?_, ?_, ?_⟩
  · simp only [Statement.execute, h, Bool.false_eq_true, if_false]
  · simp [SqliteData.table?, List.lookup_append, htable]
  · intro other hne
    have hbeq : (other == name) = false := beq_eq_false_iff_ne.mpr hne
    simp [SqliteData.taken, SqliteData.table?, List.lookup_append, List.lookup_cons, hbeq]

/-- An index leaves the tables alone, and takes no other name. -/
theorem execute_createIndex {data : SqliteData} {name table : String} {t : Table}
    (columns : List String) (h : data.taken name = false) (htable : data.table? table = some t)
    (hcolumns : (columns.all fun c => t.columns.any fun column => column.name = c) = true) :
    ∃ out, Statement.execute data (.createIndex name table columns) = .ok out ∧
      (∀ other, out.table? other = data.table? other) ∧
      ∀ other, other ≠ name → out.taken other = data.taken other := by
  refine ⟨{ data with indexes := data.indexes ++ [(name, table)] }, ?_, fun _ => rfl, ?_⟩
  · simp only [Statement.execute, h, htable, hcolumns, if_true, Bool.false_eq_true, if_false]
  intro other hne
  have hbeq : (other == name) = false := beq_eq_false_iff_ne.mpr hne
  simp [SqliteData.taken, SqliteData.table?, List.lookup_append, List.lookup_cons, hbeq]

/-- `001_initial.sql` on a database that has none of its names. -/
theorem executeBatch_initial {data : SqliteData} (h : data.AtVersion 0) :
    ∃ out, executeBatch initialSql data = .ok out ∧
      out.table? "matches" = some { columns := matchesColumns, rows := [] } := by
  obtain ⟨d₁, h₁, htable₁, hother₁⟩ :=
    execute_createTable matchesColumns (h "matches" (by decide))
  have hblock : d₁.taken "idx_matches_block" = false := by
    rw [(hother₁ _ (by decide)).1]
    exact h _ (by decide)
  obtain ⟨d₂, h₂, htable₂, hother₂⟩ :=
    execute_createIndex ["block_slot", "block_hash"] hblock htable₁ (by decide)
  have hsource : d₂.taken "idx_matches_source" = false := by
    rw [hother₂ _ (by decide), (hother₁ _ (by decide)).1]
    exact h _ (by decide)
  have htable₂' := (htable₂ "matches").trans htable₁
  obtain ⟨d₃, h₃, htable₃, hother₃⟩ :=
    execute_createIndex ["source_name"] hsource htable₂' (by decide)
  have hcursor : d₃.taken "cursor" = false := by
    rw [hother₃ _ (by decide), hother₂ _ (by decide), (hother₁ _ (by decide)).1]
    exact h _ (by decide)
  obtain ⟨out, hout, -, hother⟩ := execute_createTable cursorColumns hcursor
  refine ⟨out, ?_, ?_⟩
  · rw [executeBatch, initialSql, List.foldlM_cons, h₁, Except.ok_bind, List.foldlM_cons, h₂,
      Except.ok_bind, List.foldlM_cons, h₃, Except.ok_bind, List.foldlM_cons, hout]
    rfl
  · rw [(hother "matches" (by decide)).2, htable₃, htable₂']

/-- **The scripts follow one another.** The scripts that a database lacks run on it in order,
    with any rows in its tables. -/
theorem foldlM_MIGRATIONS {data : SqliteData} {i : ℕ} (h : data.AtVersion i) :
    ∃ out, (MIGRATIONS.drop i).foldlM (fun data m => executeBatch m.sql data) data = .ok out ∧
      out.AtVersion 2 := by
  match i with
  | 0 =>
    obtain ⟨mid, hmid, htable⟩ := executeBatch_initial h
    obtain ⟨out, hout, htable', -⟩ := executeBatch_scoreRank htable
    refine ⟨out, ?_, ⟨_, htable'⟩⟩
    show executeBatch initialSql data >>= _ = _
    rw [hmid, Except.ok_bind]
    show executeBatch scoreRankSql mid >>= _ = _
    rw [hout]
    rfl
  | 1 =>
    obtain ⟨rows, htable⟩ := h
    obtain ⟨out, hout, htable', -⟩ := executeBatch_scoreRank htable
    refine ⟨out, ?_, ⟨_, htable'⟩⟩
    show executeBatch scoreRankSql data >>= _ = _
    rw [hout]
    rfl
  | i + 2 =>
    have hdrop : MIGRATIONS.drop (i + 2) = [] := by simp [MIGRATIONS]
    rw [hdrop]
    exact ⟨data, rfl, h⟩

end Tx3Lift
