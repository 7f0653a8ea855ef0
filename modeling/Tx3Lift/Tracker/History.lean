import Tx3Lift.Tracker.Store
import Tx3Lift.Lib.History

/-!
# The store over a history of calls

The content of the database after any sequence of `apply_block` and `undo_tx` calls.

* `matches_calls`: the table is the replay of what the calls change.
* `applyBlock_inserted`: the count that `apply_block` returns is the sum of the results of its
  `INSERT`s.
* `store_keeps_first_write`: a row is there if it was written since its transaction was last
  undone, with the fields of the first such write; what the calls return; the cursor.
-/

namespace Tx3Lift

open Lib

/-! ## Calls -/

/-- A call that changes the store. -/
inductive StoreCall where
  | applyBlock (cursor : ChainPoint) (rows : List OwnedMatchRow)
  | undoTx (txHash : ByteBuf) (parent : Option ChainPoint)

def Store.call (store : Store) : StoreCall → Store × ℕ
  | .applyBlock cursor rows => store.applyBlock cursor rows
  | .undoTx txHash parent => store.undoTx txHash parent

/-- The store after a sequence of calls. -/
def Store.calls (store : Store) (calls : List StoreCall) : Store :=
  calls.foldl (fun s c => (s.call c).1) store

/-- The point that a call moves the cursor to. -/
def StoreCall.point : StoreCall → Option ChainPoint
  | .applyBlock cursor _ => some cursor
  | .undoTx _ parent => parent

def StoreCall.undoes (txHash : ByteBuf) : StoreCall → Bool
  | .applyBlock _ _ => false
  | .undoTx h _ => decide (h = txHash)

/-- The rows that a call writes. -/
def StoreCall.rows : StoreCall → List OwnedMatchRow
  | .applyBlock _ rows => rows
  | .undoTx _ _ => []

/-- The rows that were written since `txHash` was last undone, oldest first. -/
def writtenRows (txHash : ByteBuf) (calls : List StoreCall) : List OwnedMatchRow :=
  (calls.rtakeWhile fun c => !c.undoes txHash).flatMap StoreCall.rows

def OwnedMatchRow.key (row : OwnedMatchRow) : ByteBuf × String := (row.txHash, row.sourceName)

def Store.keys (store : Store) : Finset (ByteBuf × String) :=
  (store.matchesTable.map MatchesRow.key).toFinset

/-! ## The table -/

/-- What a call does to the table. A batch may hold rows of any transactions: the group of a
    put is not looked at. -/
def StoreCall.change : StoreCall → Change MatchesRow ByteBuf
  | .applyBlock _ rows => .put [] (rows.map OwnedMatchRow.toRow)
  | .undoTx txHash _ => .drop txHash

theorem calls_concat (store : Store) (calls : List StoreCall) (c : StoreCall) :
    store.calls (calls ++ [c]) = ((store.calls calls).call c).1 := by
  rw [Store.calls, List.foldl_append, List.foldl_cons, List.foldl_nil, ← Store.calls]

theorem matches_call (store : Store) (c : StoreCall) :
    (store.call c).1.matchesTable =
      c.change.apply MatchesRow.key MatchesRow.txHash store.matchesTable := by
  cases c with
  | applyBlock cursor rows => rfl
  | undoTx txHash parent => rfl

theorem matches_calls (calls : List StoreCall) :
    (Store.empty.calls calls).matchesTable =
      replay MatchesRow.key MatchesRow.txHash [] (calls.map StoreCall.change) := by
  induction calls using List.reverseRecOn with
  | nil => rfl
  | append_singleton calls c ih =>
    rw [calls_concat, matches_call, ih, List.map_append, List.map_singleton, replay_append]
    rfl

theorem writtenSince_map_change (txHash : ByteBuf) (calls : List StoreCall) :
    writtenSince txHash (calls.map StoreCall.change) =
      (writtenRows txHash calls).map OwnedMatchRow.toRow := by
  have hkept : (calls.map StoreCall.change).rtakeWhile (fun c => !c.drops txHash) =
      (calls.rtakeWhile fun c => !c.undoes txHash).map StoreCall.change := by
    rw [List.rtakeWhile, List.rtakeWhile, ← List.map_reverse, List.takeWhile_map, List.map_reverse]
    congr 2
    refine congrArg (List.takeWhile · _) (funext fun c => ?_)
    cases c with
    | applyBlock cursor rows => rfl
    | undoTx h parent => rfl
  rw [writtenSince, writtenRows, hkept, List.flatMap_map, List.map_flatMap]
  refine List.flatMap_congr fun c _ => ?_
  cases c with
  | applyBlock cursor rows => rfl
  | undoTx h parent => rfl

/-- The row of a key is the first one written since its transaction was last undone. -/
theorem rowOf_calls (key : ByteBuf × String) (calls : List StoreCall) :
    rowOf MatchesRow.key key (Store.empty.calls calls).matchesTable =
      (rowOf OwnedMatchRow.key key (writtenRows key.1 calls)).map OwnedMatchRow.toRow := by
  have hgroup : ∀ row : MatchesRow, row.key = key → row.txHash = key.1 := by
    rintro row rfl
    rfl
  rw [matches_calls, rowOf_replay hgroup, writtenSince_map_change, rowOf, List.find?_map]
  rfl

/-! ## Counters and cursor -/

/-- The loop over `rows` (lines 122–137): `inserted` sums what the `INSERT`s return. -/
theorem applyBlock_inserted (store : Store) (cursor : ChainPoint) (rows : List OwnedMatchRow) :
    (rows.map OwnedMatchRow.toRow).foldl (insertCounted MatchesRow.key) (store.matchesTable, 0) =
      ((store.applyBlock cursor rows).1.matchesTable, (store.applyBlock cursor rows).2) := by
  rw [insertAll_counted, zero_add]
  rfl

theorem applyBlock_count (store : Store) (cursor : ChainPoint) (rows : List OwnedMatchRow) :
    (store.applyBlock cursor rows).2 =
      ((store.applyBlock cursor rows).1.keys \ store.keys).card :=
  card_added MatchesRow.key (store.applyBlock cursor rows).1.unique
    (prefix_insertAll MatchesRow.key store.matchesTable _).sublist

theorem undoTx_count (store : Store) (txHash : ByteBuf) (parent : Option ChainPoint) :
    (store.undoTx txHash parent).2 =
      (store.keys \ (store.undoTx txHash parent).1.keys).card :=
  card_added MatchesRow.key store.unique List.filter_sublist

/-- A batch touches only the transactions that it has rows of. -/
theorem mem_matches_applyBlock {store : Store} {cursor : ChainPoint} {rows : List OwnedMatchRow}
    {row : MatchesRow} (hother : ∀ r ∈ rows, r.txHash ≠ row.txHash) :
    row ∈ (store.applyBlock cursor rows).1.matchesTable ↔ row ∈ store.matchesTable := by
  rw [matches_applyBlock]
  constructor
  · intro hrow
    refine (mem_insertAll MatchesRow.key hrow).resolve_right fun hmem => ?_
    obtain ⟨r, hr, rfl⟩ := List.mem_map.mp hmem
    exact hother r hr rfl
  · exact fun hrow => subset_insertAll MatchesRow.key _ _ hrow

/-- The cursor is where the last call left it. -/
theorem cursor_calls (calls : List StoreCall) :
    (Store.empty.calls calls).cursor = calls.getLast?.bind StoreCall.point := by
  cases calls using List.reverseRecOn with
  | nil => rfl
  | append_singleton calls c =>
    rw [calls_concat, List.getLast?_concat, Option.bind_some]
    cases c with
    | applyBlock cursor rows => exact cursor_applyBlock _ cursor rows
    | undoTx txHash parent => exact cursor_undoTx _ txHash parent

/-! ## First writes -/

/-- What the database holds after `calls`. -/
structure FirstWrites (calls : List StoreCall) (store : Store) : Prop where
  unique : (store.matchesTable.map MatchesRow.key).Nodup
  stored : ∀ txHash sourceName, (txHash, sourceName) ∈ store.keys ↔
    ∃ r ∈ writtenRows txHash calls, r.txHash = txHash ∧ r.sourceName = sourceName
  /-- A row has the fields of the first write of its key; the slot reads back as written. -/
  first : ∀ row ∈ store.matchesTable, ∃ r,
    (writtenRows row.txHash calls).find? (fun r => decide (r.key = row.key)) = some r ∧
      row = r.toRow ∧ row.blockSlot.toUInt64 = r.blockSlot
  cursor : store.cursor = calls.getLast?.bind StoreCall.point

/-- What a call returns, and that it leaves the rows of other transactions alone. -/
structure CallEffects (store : Store) : Prop where
  added : ∀ cursor rows, (store.applyBlock cursor rows).2 =
    ((store.applyBlock cursor rows).1.keys \ store.keys).card
  removed : ∀ txHash parent, (store.undoTx txHash parent).2 =
    (store.keys \ (store.undoTx txHash parent).1.keys).card
  applyOthers : ∀ cursor rows row, (∀ r ∈ rows, r.txHash ≠ row.txHash) →
    (row ∈ (store.applyBlock cursor rows).1.matchesTable ↔ row ∈ store.matchesTable)
  undoOthers : ∀ txHash parent row, row.txHash ≠ txHash →
    (row ∈ (store.undoTx txHash parent).1.matchesTable ↔ row ∈ store.matchesTable)

/-- **The store keeps the first write since the last undo**, over every history of calls from
    an empty store. -/
theorem store_keeps_first_write (calls : List StoreCall) :
    FirstWrites calls (Store.empty.calls calls) ∧ CallEffects (Store.empty.calls calls) := by
  refine ⟨⟨(Store.empty.calls calls).unique, fun txHash sourceName => ?_, fun row hrow => ?_,
    cursor_calls calls⟩, ⟨applyBlock_count _, undoTx_count _, fun cursor rows row hother => ?_,
    fun txHash parent row hne => ?_⟩⟩
  · have hrow := rowOf_calls (txHash, sourceName) calls
    rw [Store.keys, List.mem_toFinset, ← not_iff_not, ← rowOf_eq_none_iff, hrow,
      Option.map_eq_none_iff, rowOf_eq_none_iff, List.mem_map]
    simp only [OwnedMatchRow.key, Prod.mk.injEq]
  · rw [mem_iff_rowOf MatchesRow.key (Store.empty.calls calls).unique, rowOf_calls] at hrow
    obtain ⟨r, hr, rfl⟩ := Option.map_eq_some_iff.mp hrow
    exact ⟨r, hr, rfl, by simp [OwnedMatchRow.toRow]⟩
  · exact mem_matches_applyBlock hother
  · rw [mem_matches_undoTx]
    exact and_iff_left hne

end Tx3Lift
