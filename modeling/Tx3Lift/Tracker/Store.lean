import Tx3Lift.Basic
import Tx3Lift.Lib.Keyed

/-!
# The store

Model of `bin/tracker/src/store.rs` over the schema of `bin/tracker/migrations`. A store
value is the content of the database between two transactions; the uniqueness constraint
of `matches` and the single row of `cursor` are part of the type. The columns `id` and
`matched_at` of `matches` are left out: nothing reads them.

* `cursor_applyBlock`, `cursor_undoTx`: a cursor comes back as it was written.
* `matches_applyBlock`, `matches_undoTx`: what the two transactions do to the table.
* `mem_matches_undoTx`: an undo removes the rows of its transaction and no other.
-/

namespace Tx3Lift

open Lib

/-! ## Rows -/

/-- `ChainPoint`. -/
structure ChainPoint where
  slot : UInt64
  hash : Hash 32
deriving DecidableEq

/-- `OwnedMatchRow`: what the tracker writes. -/
structure OwnedMatchRow where
  txHash : ByteBuf
  blockSlot : UInt64
  blockHash : ByteBuf
  sourceName : String
  protocolName : String
  txName : String
  profileName : String
  liftedJson : String
  score : ℕ
  matchRank : ℕ
deriving DecidableEq

/-- A row of table `matches`; slots are stored `as i64`. -/
structure MatchesRow where
  txHash : ByteBuf
  blockSlot : Int64
  blockHash : ByteBuf
  sourceName : String
  protocolName : String
  txName : String
  profileName : String
  lifted : String
  score : ℕ
  matchRank : ℕ
deriving DecidableEq

/-- The parameters of the `INSERT` (lines 123–135). -/
def OwnedMatchRow.toRow (row : OwnedMatchRow) : MatchesRow :=
  { txHash := row.txHash
    blockSlot := row.blockSlot.toInt64
    blockHash := row.blockHash
    sourceName := row.sourceName
    protocolName := row.protocolName
    txName := row.txName
    profileName := row.profileName
    lifted := row.liftedJson
    score := row.score
    matchRank := row.matchRank }

/-- `UNIQUE(tx_hash, source_name)`. -/
def MatchesRow.key (row : MatchesRow) : ByteBuf × String := (row.txHash, row.sourceName)

/-! ## `Store` -/

/-- `Store`: the tables `matches` and `cursor`. -/
structure Store where
  matchesTable : List MatchesRow
  unique : (matchesTable.map MatchesRow.key).Nodup
  cursorRow : Option (Int64 × ByteBuf)
deriving DecidableEq

/-- `Store::open` on a fresh database. -/
def Store.empty : Store := { matchesTable := [], unique := List.nodup_nil, cursorRow := none }

/-- `Store::cursor` (lines 82–101). -/
def Store.cursor (store : Store) : Option ChainPoint :=
  store.cursorRow.bind fun row =>
    (Hash.ofBytes? 32 row.2).map fun hash => { slot := row.1.toUInt64, hash := hash }

/-- The row that a cursor is written as. -/
def ChainPoint.toRow (point : ChainPoint) : Int64 × ByteBuf :=
  (point.slot.toInt64, point.hash.bytes)

/-- `Store::apply_block` (lines 105–146), with the number of rows it inserted. -/
def Store.applyBlock (store : Store) (cursor : ChainPoint) (rows : List OwnedMatchRow) :
    Store × ℕ :=
  let table := insertAll MatchesRow.key store.matchesTable (rows.map OwnedMatchRow.toRow)
  ({ matchesTable := table
     unique := insertAll_nodup MatchesRow.key store.unique _
     cursorRow := some cursor.toRow }, table.length - store.matchesTable.length)

/-- `Store::undo_tx` (lines 150–174), with the number of rows it deleted. -/
def Store.undoTx (store : Store) (txHash : ByteBuf) (parent : Option ChainPoint) : Store × ℕ :=
  let table := deleteWhere (fun row => decide (row.txHash = txHash)) store.matchesTable
  ({ matchesTable := table
     unique := deleteWhere_nodup MatchesRow.key store.unique _
     cursorRow := parent.map ChainPoint.toRow }, store.matchesTable.length - table.length)

/-! ## What the transactions do -/

section Transactions

variable (store : Store)

@[simp] theorem cursor_empty : Store.empty.cursor = none := rfl

@[simp] theorem matches_empty : Store.empty.matchesTable = [] := rfl

theorem cursor_of_row {store : Store} {point : ChainPoint}
    (h : store.cursorRow = some point.toRow) : store.cursor = some point := by
  simp [Store.cursor, h, ChainPoint.toRow]

@[simp] theorem cursor_applyBlock (cursor : ChainPoint) (rows : List OwnedMatchRow) :
    (store.applyBlock cursor rows).1.cursor = some cursor :=
  cursor_of_row rfl

@[simp] theorem cursor_undoTx (txHash : ByteBuf) (parent : Option ChainPoint) :
    (store.undoTx txHash parent).1.cursor = parent := by
  cases parent with
  | none => rfl
  | some point => exact cursor_of_row rfl

@[simp] theorem matches_applyBlock (cursor : ChainPoint) (rows : List OwnedMatchRow) :
    (store.applyBlock cursor rows).1.matchesTable =
      insertAll MatchesRow.key store.matchesTable (rows.map OwnedMatchRow.toRow) := rfl

@[simp] theorem matches_undoTx (txHash : ByteBuf) (parent : Option ChainPoint) :
    (store.undoTx txHash parent).1.matchesTable =
      deleteWhere (fun row => decide (row.txHash = txHash)) store.matchesTable := rfl

/-- An undo removes the rows of its transaction and no other. -/
theorem mem_matches_undoTx {txHash : ByteBuf} {parent : Option ChainPoint} {row : MatchesRow} :
    row ∈ (store.undoTx txHash parent).1.matchesTable ↔
      row ∈ store.matchesTable ∧ row.txHash ≠ txHash := by
  rw [matches_undoTx, mem_deleteWhere, decide_eq_false_iff_not]

end Transactions

end Tx3Lift
