import Tx3Lift.Tracker.Schema
import Tx3Lift.Tracker.Store

/-!
# The store in SQL

Model of `Store::apply_block`, `Store::undo_tx` and `Store::cursor` (`bin/tracker/src/store.rs`)
statement by statement, on the tables that the migrations create.

* `applyBlock_writes`, `undoTx_writes`: the statements of a transaction do to the tables what the
  operation of the `Store` does.
* `sqlCursor_eq`: the cursor that is read back is the one of the `Store`.
-/

namespace Tx3Lift

open Lib

/-! ## Statements -/

namespace Table

/-- The value of a column in a row. -/
def value (t : Table) (row : List SqlValue) (name : String) : SqlValue :=
  (((t.columns.map Column.name).zip row).lookup name).getD .null

def hasColumns (t : Table) (names : List String) : Bool :=
  names.all fun name => t.columns.any fun c => decide (c.name = name)

/-- The row of an `INSERT`; a column that is not named gets its default. -/
def newRow (t : Table) (values : List (String × SqlValue)) : List SqlValue :=
  t.columns.map fun c => (values.lookup c.name).getD c.default

/-- The value of the `INTEGER PRIMARY KEY` column `id` in a new row: one above the largest. -/
def nextId (t : Table) : ℤ :=
  t.rows.foldl (fun largest row =>
    match t.value row "id" with
    | .integer n => max largest n
    | _ => largest) 0 + 1

/-- `INSERT OR IGNORE`: a row that violates a `UNIQUE` or a `NOT NULL` constraint is skipped. The
    result comes with the number of rows inserted. -/
def insertOrIgnore (t : Table) (unique : List String) (values : List (String × SqlValue)) :
    Table × ℕ :=
  let row := t.newRow (("id", .integer t.nextId) :: values)
  if (t.rows.any fun r => unique.all fun name => decide (t.value r name = t.value row name)) ||
      (t.columns.zip row).any fun c => c.1.notNull && decide (c.2 = .null) then (t, 0)
  else ({ t with rows := t.rows ++ [row] }, 1)

/-- `INSERT … ON CONFLICT(id) DO UPDATE SET …` with the excluded values. -/
def upsert (t : Table) (id : ℤ) (values : List (String × SqlValue)) : Table :=
  if t.rows.any fun r => decide (t.value r "id" = .integer id) then
    { t with rows := t.rows.map fun r =>
        if t.value r "id" = .integer id then
          (t.columns.zip r).map fun c => (values.lookup c.1.name).getD c.2
        else r }
  else { t with rows := t.rows ++ [t.newRow (("id", .integer id) :: values)] }

/-- `DELETE … WHERE name = v`, with the number of rows deleted. -/
def deleteEq (t : Table) (name : String) (v : SqlValue) : Table × ℕ :=
  let rows := t.rows.filter fun r => !decide (t.value r name = v)
  ({ t with rows := rows }, t.rows.length - rows.length)

end Table

/-- A statement on one table, which names some of its columns. -/
def SqliteData.modify (data : SqliteData) (name : String) (columns : List String)
    (f : Table → Table × ℕ) : Except String (SqliteData × ℕ) :=
  match data.table? name with
  | none => .error ("no such table: " ++ name)
  | some t =>
    if t.hasColumns columns then .ok (data.setTable name (f t).1, (f t).2)
    else .error "no such column"

/-- The statements of `store.rs` that write, and the `prepare` of the first. -/
inductive Write where
  | prepareInsert
  | insertMatch (row : OwnedMatchRow) (now : ℤ)
  | upsertCursor (point : ChainPoint)
  | deleteMatches (txHash : ByteBuf)
  | deleteCursor

/-- The values of the `INSERT` into `matches` (lines 114–131). -/
def matchValues (row : OwnedMatchRow) (now : ℤ) : List (String × SqlValue) :=
  [("tx_hash", .blob row.txHash), ("block_slot", .integer row.blockSlot.toInt64.toInt),
   ("block_hash", .blob row.blockHash), ("source_name", .text row.sourceName),
   ("protocol_name", .text row.protocolName), ("tx_name", .text row.txName),
   ("profile_name", .text row.profileName), ("lifted", .text row.liftedJson),
   ("matched_at", .integer now), ("score", .integer row.score),
   ("match_rank", .integer row.matchRank)]

def matchColumns : List String :=
  ["tx_hash", "block_slot", "block_hash", "source_name", "protocol_name", "tx_name", "profile_name",
   "lifted", "matched_at", "score", "match_rank"]

/-- The values of the `INSERT` into `cursor` (lines 136–140 and 159–163). -/
def cursorValues (point : ChainPoint) : List (String × SqlValue) :=
  [("slot", .integer point.slot.toInt64.toInt), ("block_hash", .blob point.hash.bytes)]

/-- One statement, with the number of rows that the code counts. -/
def Write.execute (data : SqliteData) : Write → Except String (SqliteData × ℕ)
  | .prepareInsert => data.modify "matches" matchColumns fun t => (t, 0)
  | .insertMatch row now => data.modify "matches" matchColumns fun t =>
      t.insertOrIgnore ["tx_hash", "source_name"] (matchValues row now)
  | .upsertCursor point => data.modify "cursor" ["id", "slot", "block_hash"] fun t =>
      (t.upsert 1 (cursorValues point), 0)
  | .deleteMatches txHash => data.modify "matches" ["tx_hash"] fun t =>
      t.deleteEq "tx_hash" (.blob txHash)
  | .deleteCursor => data.modify "cursor" ["id"] fun t => ((t.deleteEq "id" (.integer 1)).1, 0)

/-- The statements of a transaction, with what they count. -/
def executeWrites : List Write → SqliteData → Except String (SqliteData × ℕ)
  | [], data => return (data, 0)
  | w :: ws, data => do
    let (data, n) ← w.execute data
    let (data, m) ← executeWrites ws data
    return (data, n + m)

/-- The transaction of `Store::apply_block` (lines 109–141). -/
def applyBlockWrites (cursor : ChainPoint) (rows : List OwnedMatchRow) (now : ℤ) : List Write :=
  .prepareInsert :: rows.map (fun row => .insertMatch row now) ++ [.upsertCursor cursor]

/-- The transaction of `Store::undo_tx` (lines 154–169). -/
def undoTxWrites (txHash : ByteBuf) (parent : Option ChainPoint) : List Write :=
  [.deleteMatches txHash,
   match parent with
   | some p => .upsertCursor p
   | none => .deleteCursor]

/-- `SELECT slot, block_hash FROM cursor WHERE id = 1` (lines 85–91). -/
def selectCursor (data : SqliteData) : Except String (Option (Int64 × ByteBuf)) :=
  match data.table? "cursor" with
  | none => .error "no such table: cursor"
  | some t =>
    match t.rows.find? fun r => decide (t.value r "id" = .integer 1) with
    | none => .ok none
    | some r =>
      match t.value r "slot", t.value r "block_hash" with
      | .integer slot, .blob hash => .ok (some (Int64.ofInt slot, hash))
      | _, _ => .error "invalid column type"

/-- `Store::cursor` (lines 82–101). -/
def sqlCursor (data : SqliteData) : Except String (Option ChainPoint) := do
  let row ← selectCursor data
  return row.bind fun row =>
    (Hash.ofBytes? 32 row.2).map fun hash => { slot := row.1.toUInt64, hash := hash }

/-! ## Tables that hold a store -/

/-- A row of `matches`, with the columns that the tracker never reads. -/
structure StoredRow where
  id : ℤ
  row : MatchesRow
  matchedAt : ℤ

/-- Its values, in the order of `rankedColumns`. -/
def StoredRow.values (r : StoredRow) : List SqlValue :=
  [.integer r.id, .blob r.row.txHash, .integer r.row.blockSlot.toInt, .blob r.row.blockHash,
   .text r.row.sourceName, .text r.row.protocolName, .text r.row.txName, .text r.row.profileName,
   .text r.row.lifted, .integer r.matchedAt, .integer r.row.score, .integer r.row.matchRank]

/-- The row of `cursor`. -/
def cursorRowValues (row : Int64 × ByteBuf) : List SqlValue :=
  [.integer 1, .integer row.1.toInt, .blob row.2]

/-- The table `matches` with some rows. -/
def matchesTableOf (stored : List StoredRow) : Table :=
  { columns := rankedColumns, rows := stored.map StoredRow.values }

/-- The table `cursor` with its only row, if there is one. -/
def cursorTableOf (row : Option (Int64 × ByteBuf)) : Table :=
  { columns := cursorColumns, rows := (row.map cursorRowValues).toList }

/-- The tables of the database, with distinct ids. -/
structure Tables (data : SqliteData) (stored : List StoredRow) (table : List MatchesRow)
    (cursorRow : Option (Int64 × ByteBuf)) : Prop where
  matchesTable : data.table? "matches" = some (matchesTableOf stored)
  cursorTable : data.table? "cursor" = some (cursorTableOf cursorRow)
  rows : stored.map StoredRow.row = table
  ids : (stored.map StoredRow.id).Nodup

/-- The database holds a store. -/
def Represents (data : SqliteData) (store : Store) : Prop :=
  ∃ stored, Tables data stored store.matchesTable store.cursorRow

section Columns

variable (stored : List StoredRow) (r : StoredRow) (row : OwnedMatchRow) (now : ℤ)

theorem value_txHash : (matchesTableOf stored).value r.values "tx_hash" = .blob r.row.txHash := rfl

theorem value_sourceName :
    (matchesTableOf stored).value r.values "source_name" = .text r.row.sourceName := rfl

theorem newRow_matches (n : ℤ) :
    (matchesTableOf stored).newRow (("id", .integer n) :: matchValues row now) =
      StoredRow.values ⟨n, row.toRow, now⟩ := rfl

theorem hasColumns_matches : (matchesTableOf stored).hasColumns matchColumns = true := by
  simp only [matchesTableOf, Table.hasColumns]
  decide

theorem nextId_eq : (matchesTableOf stored).nextId = (stored.map StoredRow.id).foldl max 0 + 1 := by
  rw [Table.nextId, matchesTableOf, List.foldl_map, List.foldl_map]
  rfl

/-- The next id is new. -/
theorem lt_nextId {n : ℤ} (h : n ∈ stored.map StoredRow.id) :
    n < (matchesTableOf stored).nextId := by
  rw [nextId_eq]
  have hle : ∀ (ids : List ℤ) (largest : ℤ), largest ≤ ids.foldl max largest ∧
      ∀ n ∈ ids, n ≤ ids.foldl max largest := by
    intro ids
    induction ids with
    | nil => exact fun largest => ⟨le_refl _, by simp⟩
    | cons id ids ih =>
      intro largest
      obtain ⟨hstart, hall⟩ := ih (max largest id)
      refine ⟨(le_max_left largest id).trans hstart, fun n hn => ?_⟩
      rcases List.mem_cons.mp hn with rfl | hn
      · exact (le_max_right largest n).trans hstart
      · exact hall n hn
  have hn := (hle (stored.map StoredRow.id) 0).2 n h
  omega

/-- The `UNIQUE` constraint is the key of the table. -/
theorem any_unique (new : StoredRow) :
    ((matchesTableOf stored).rows.any fun r => ["tx_hash", "source_name"].all fun name =>
        decide ((matchesTableOf stored).value r name =
          (matchesTableOf stored).value new.values name)) =
      decide (new.row.key ∈ stored.map fun r => r.row.key) := by
  rw [Bool.eq_iff_iff, decide_eq_true_iff, List.mem_map]
  show ((stored.map StoredRow.values).any _) = true ↔ _
  rw [List.any_map, List.any_eq_true]
  refine exists_congr fun r => and_congr_right fun _ => ?_
  simp only [Function.comp_apply, List.all_cons, List.all_nil, Bool.and_true, Bool.and_eq_true,
    decide_eq_true_eq, value_txHash, value_sourceName, SqlValue.blob.injEq, SqlValue.text.injEq,
    MatchesRow.key, Prod.mk.injEq]

/-- No column of a row is `NULL`. -/
theorem any_null (new : StoredRow) : ((matchesTableOf stored).columns.zip new.values).any
    (fun c => c.1.notNull && decide (c.2 = .null)) = false := by
  simp [StoredRow.values, matchesTableOf, rankedColumns, matchesColumns, scoreColumn,
    matchRankColumn]

theorem insertOrIgnore_matches :
    (matchesTableOf stored).insertOrIgnore ["tx_hash", "source_name"] (matchValues row now) =
      if row.toRow.key ∈ stored.map fun r => r.row.key then (matchesTableOf stored, 0)
      else (matchesTableOf (stored ++ [⟨(matchesTableOf stored).nextId, row.toRow, now⟩]), 1) := by
  have hunique := any_unique stored ⟨(matchesTableOf stored).nextId, row.toRow, now⟩
  have hnull := any_null stored ⟨(matchesTableOf stored).nextId, row.toRow, now⟩
  unfold Table.insertOrIgnore
  rw [newRow_matches]
  by_cases h : row.toRow.key ∈ stored.map fun r => r.row.key
  · rw [if_pos h, if_pos]
    rw [hunique, decide_eq_true h, Bool.true_or]
  · rw [if_neg h, if_neg]
    · simp [matchesTableOf]
    · rw [hunique, hnull, decide_eq_false h]
      exact Bool.false_ne_true

theorem deleteEq_matches (txHash : ByteBuf) :
    (matchesTableOf stored).deleteEq "tx_hash" (.blob txHash) =
      (matchesTableOf (stored.filter fun r => !decide (r.row.txHash = txHash)),
        stored.length - (stored.filter fun r => !decide (r.row.txHash = txHash)).length) := by
  have hrows : (matchesTableOf stored).rows.filter
      (fun r => !decide ((matchesTableOf stored).value r "tx_hash" = .blob txHash)) =
        (stored.filter fun r => !decide (r.row.txHash = txHash)).map StoredRow.values := by
    show (stored.map StoredRow.values).filter _ = _
    rw [List.filter_map]
    congr 1
    refine List.filter_congr fun r _ => ?_
    simp only [Function.comp_apply, value_txHash, SqlValue.blob.injEq]
  unfold Table.deleteEq
  rw [hrows]
  simp [matchesTableOf]

theorem upsert_cursor (cursorRow : Option (Int64 × ByteBuf)) (point : ChainPoint) :
    (cursorTableOf cursorRow).upsert 1 (cursorValues point) = cursorTableOf (some point.toRow) := by
  cases cursorRow with
  | none => rfl
  | some cursorRow => rfl

theorem deleteEq_cursor (cursorRow : Option (Int64 × ByteBuf)) :
    ((cursorTableOf cursorRow).deleteEq "id" (.integer 1)).1 = cursorTableOf none := by
  cases cursorRow with
  | none => rfl
  | some cursorRow => rfl

end Columns

/-! ## Transactions -/

section Transactions

variable {data : SqliteData} {stored : List StoredRow} {table : List MatchesRow}
  {cursorRow : Option (Int64 × ByteBuf)}

theorem executeWrites_cons {w : Write} {ws : List Write} {mid out : SqliteData} {n m : ℕ}
    (hw : w.execute data = .ok (mid, n)) (hws : executeWrites ws mid = .ok (out, m)) :
    executeWrites (w :: ws) data = .ok (out, n + m) := by
  rw [executeWrites, hw, Except.ok_bind]
  simp only [hws, Except.ok_bind]
  rfl

theorem executeWrites_singleton {w : Write} {out : SqliteData} {n : ℕ}
    (hw : w.execute data = .ok (out, n)) : executeWrites [w] data = .ok (out, n) := by
  rw [executeWrites, hw]
  rfl

theorem executeWrites_append {ws vs : List Write} {mid out : SqliteData} {n m : ℕ}
    (hws : executeWrites ws data = .ok (mid, n)) (hvs : executeWrites vs mid = .ok (out, m)) :
    executeWrites (ws ++ vs) data = .ok (out, n + m) := by
  induction ws generalizing data n with
  | nil =>
    cases hws
    rw [Nat.zero_add]
    exact hvs
  | cons w ws ih =>
    rw [executeWrites] at hws
    obtain ⟨⟨first, k⟩, hw, hws⟩ := Except.bind_eq_ok hws
    obtain ⟨⟨rest, l⟩, hrest, hws⟩ := Except.bind_eq_ok hws
    cases hws
    rw [Nat.add_assoc]
    exact executeWrites_cons hw (ih hrest)

theorem Tables.setMatches (h : Tables data stored table cursorRow) (stored' : List StoredRow)
    (hids : (stored'.map StoredRow.id).Nodup) :
    Tables (data.setTable "matches" (matchesTableOf stored')) stored' (stored'.map StoredRow.row)
      cursorRow := by
  refine ⟨SqliteData.table?_setTable_self h.matchesTable _, ?_, rfl, hids⟩
  rw [SqliteData.table?_setTable_ne data (by decide)]
  exact h.cursorTable

theorem Tables.setCursor (h : Tables data stored table cursorRow)
    (cursorRow' : Option (Int64 × ByteBuf)) :
    Tables (data.setTable "cursor" (cursorTableOf cursorRow')) stored table cursorRow' := by
  refine ⟨?_, SqliteData.table?_setTable_self h.cursorTable _, h.rows, h.ids⟩
  rw [SqliteData.table?_setTable_ne data (by decide)]
  exact h.matchesTable

theorem Tables.prepareInsert (h : Tables data stored table cursorRow) :
    ∃ data', Write.prepareInsert.execute data = .ok (data', 0) ∧
      Tables data' stored table cursorRow := by
  refine ⟨_, ?_, by simpa [h.rows] using h.setMatches stored h.ids⟩
  simp only [Write.execute, SqliteData.modify, h.matchesTable, hasColumns_matches, if_true]

/-- One `INSERT OR IGNORE`. -/
theorem Tables.insertMatch (h : Tables data stored table cursorRow) (row : OwnedMatchRow)
    (now : ℤ) :
    ∃ data' n new, (Write.insertMatch row now).execute data = .ok (data', n) ∧
      Tables data' (stored ++ new) (insertIgnore MatchesRow.key table row.toRow) cursorRow ∧
      (∀ r ∈ new, r.matchedAt = now) ∧
      n + table.length = (insertIgnore MatchesRow.key table row.toRow).length := by
  have hexec : (Write.insertMatch row now).execute data =
      .ok (data.setTable "matches" ((matchesTableOf stored).insertOrIgnore
          ["tx_hash", "source_name"] (matchValues row now)).1,
        ((matchesTableOf stored).insertOrIgnore ["tx_hash", "source_name"]
          (matchValues row now)).2) := by
    simp only [Write.execute, SqliteData.modify, h.matchesTable, hasColumns_matches, if_true]
  have hkeys : (stored.map fun r => r.row.key) = table.map MatchesRow.key := by
    rw [← h.rows, List.map_map]
    rfl
  rw [insertOrIgnore_matches, hkeys] at hexec
  by_cases hkey : row.toRow.key ∈ table.map MatchesRow.key
  · rw [if_pos hkey] at hexec
    refine ⟨_, _, [], hexec, ?_, by simp, ?_⟩
    · rw [insertIgnore, if_pos hkey, List.append_nil]
      simpa [h.rows] using h.setMatches stored h.ids
    · rw [insertIgnore, if_pos hkey, Nat.zero_add]
  · rw [if_neg hkey] at hexec
    refine ⟨_, _, [StoredRow.mk (matchesTableOf stored).nextId row.toRow now], hexec, ?_,
      by simp, ?_⟩
    · have hids : ((stored ++ [StoredRow.mk (matchesTableOf stored).nextId row.toRow now]).map
          StoredRow.id).Nodup := by
        rw [List.map_append, List.nodup_append]
        refine ⟨h.ids, List.nodup_singleton _, ?_⟩
        intro n hn m hm heq
        have hnew : m = (matchesTableOf stored).nextId := List.mem_singleton.mp hm
        have hlt := lt_nextId stored hn
        omega
      have hset := h.setMatches _ hids
      rw [insertIgnore, if_neg hkey, ← h.rows]
      simpa using hset
    · rw [insertIgnore, if_neg hkey, List.length_append, List.length_singleton, Nat.add_comm]

theorem Tables.insertMatches (rows : List OwnedMatchRow) (now : ℤ)
    (h : Tables data stored table cursorRow) :
    ∃ data' n new, executeWrites (rows.map fun row => .insertMatch row now) data = .ok (data', n) ∧
      Tables data' (stored ++ new)
        (insertAll MatchesRow.key table (rows.map OwnedMatchRow.toRow)) cursorRow ∧
      (∀ r ∈ new, r.matchedAt = now) ∧
      n + table.length =
        (insertAll MatchesRow.key table (rows.map OwnedMatchRow.toRow)).length := by
  induction rows generalizing data stored table with
  | nil => exact ⟨data, 0, [], rfl, by simpa using h, by simp, by simp⟩
  | cons row rows ih =>
    obtain ⟨mid, n, new, hexec, hmid, hnew, hcount⟩ := h.insertMatch row now
    obtain ⟨out, m, more, hrest, hout, hmore, hcount'⟩ := ih hmid
    refine ⟨out, n + m, new ++ more, executeWrites_cons hexec hrest, ?_, ?_, ?_⟩
    · rw [← List.append_assoc]
      exact hout
    · intro r hr
      rcases List.mem_append.mp hr with hr | hr
      · exact hnew r hr
      · exact hmore r hr
    · rw [List.map_cons, insertAll_cons]
      omega

theorem Tables.upsertCursor (h : Tables data stored table cursorRow) (point : ChainPoint) :
    ∃ data', (Write.upsertCursor point).execute data = .ok (data', 0) ∧
      Tables data' stored table (some point.toRow) := by
  refine ⟨_, ?_, h.setCursor (some point.toRow)⟩
  have hcolumns : (cursorTableOf cursorRow).hasColumns ["id", "slot", "block_hash"] = true := by
    simp only [cursorTableOf, Table.hasColumns]
    decide
  simp only [Write.execute, SqliteData.modify, h.cursorTable, hcolumns, if_true, upsert_cursor]

/-- **`apply_block` in SQL.** -/
theorem applyBlock_writes (h : Tables data stored table cursorRow) (cursor : ChainPoint)
    (rows : List OwnedMatchRow) (now : ℤ) :
    ∃ data' n new, executeWrites (applyBlockWrites cursor rows now) data = .ok (data', n) ∧
      Tables data' (stored ++ new)
        (insertAll MatchesRow.key table (rows.map OwnedMatchRow.toRow)) (some cursor.toRow) ∧
      (∀ r ∈ new, r.matchedAt = now) ∧
      n = (insertAll MatchesRow.key table (rows.map OwnedMatchRow.toRow)).length -
        table.length := by
  obtain ⟨first, hprepare, hfirst⟩ := h.prepareInsert
  obtain ⟨mid, n, new, hinsert, hmid, hnew, hcount⟩ := hfirst.insertMatches rows now
  obtain ⟨out, hupsert, hout⟩ := hmid.upsertCursor cursor
  refine ⟨out, 0 + n + 0, new, ?_, hout, hnew, ?_⟩
  · exact executeWrites_append (executeWrites_cons hprepare hinsert)
      (executeWrites_singleton hupsert)
  · omega

/-- **`undo_tx` in SQL.** -/
theorem undoTx_writes (h : Tables data stored table cursorRow) (txHash : ByteBuf)
    (parent : Option ChainPoint) :
    ∃ data' n, executeWrites (undoTxWrites txHash parent) data = .ok (data', n) ∧
      Tables data' (stored.filter fun r => !decide (r.row.txHash = txHash))
        (deleteWhere (fun row => decide (row.txHash = txHash)) table)
        (parent.map ChainPoint.toRow) ∧
      n = table.length - (deleteWhere (fun row => decide (row.txHash = txHash)) table).length := by
  have hids : ((stored.filter fun r => !decide (r.row.txHash = txHash)).map StoredRow.id).Nodup :=
    h.ids.sublist (List.filter_sublist.map _)
  have htable : (stored.filter fun r => !decide (r.row.txHash = txHash)).map StoredRow.row =
      deleteWhere (fun row => decide (row.txHash = txHash)) table := by
    rw [← h.rows, deleteWhere, List.filter_map]
    rfl
  have hdelete := h.setMatches _ hids
  have hcolumns : (matchesTableOf stored).hasColumns ["tx_hash"] = true := by
    simp only [matchesTableOf, Table.hasColumns]
    decide
  have hexec : (Write.deleteMatches txHash).execute data = .ok
      (data.setTable "matches"
          (matchesTableOf (stored.filter fun r => !decide (r.row.txHash = txHash))),
        stored.length - (stored.filter fun r => !decide (r.row.txHash = txHash)).length) := by
    simp only [Write.execute, SqliteData.modify, h.matchesTable, hcolumns, if_true,
      deleteEq_matches]
  have hcount : stored.length -
        (stored.filter fun r => !decide (r.row.txHash = txHash)).length + 0 =
      table.length - (deleteWhere (fun row => decide (row.txHash = txHash)) table).length := by
    rw [← htable, ← h.rows, List.length_map, List.length_map, Nat.add_zero]
  rw [htable] at hdelete
  cases parent with
  | none =>
    have hcursor : (cursorTableOf cursorRow).hasColumns ["id"] = true := by
      simp only [cursorTableOf, Table.hasColumns]
      decide
    refine ⟨_, _, executeWrites_cons hexec (executeWrites_singleton ?_), hdelete.setCursor none,
      hcount⟩
    simp only [Write.execute, SqliteData.modify, hdelete.cursorTable, hcursor, if_true,
      deleteEq_cursor]
  | some point =>
    obtain ⟨out, hupsert, hout⟩ := hdelete.upsertCursor point
    exact ⟨out, _, executeWrites_cons hexec (executeWrites_singleton hupsert), hout, hcount⟩

theorem selectCursor_eq (h : Tables data stored table cursorRow) :
    selectCursor data = .ok cursorRow := by
  rw [selectCursor, h.cursorTable]
  cases cursorRow with
  | none => rfl
  | some row =>
    show Except.ok (some (Int64.ofInt row.1.toInt, row.2)) = _
    rw [Int64.ofInt_toInt]

end Transactions

/-- **`Store::cursor` in SQL.** -/
theorem sqlCursor_eq {data : SqliteData} {store : Store} (h : Represents data store) :
    sqlCursor data = .ok store.cursor := by
  obtain ⟨stored, htables⟩ := h
  rw [sqlCursor, selectCursor_eq htables]
  rfl

end Tx3Lift
