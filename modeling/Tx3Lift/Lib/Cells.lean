import Tx3Lift.Lib.History
import Tx3Lift.Lib.Rewind

/-!
# Cells

A cell holds one value or none. An event fills it if it is empty, overwrites or clears it, or
leaves it alone. The row of a key is such a cell of a table with batches and drops.

* `Update.absorbs`: cells absorb what they have seen.
* `foldl_apply_map`, `foldl_apply_contents`: a function or a test of what a cell holds, followed
  through a run.
* `rowOf_change`: the row of a key under one change of a table.
-/

namespace Tx3Lift.Lib

section Cells

variable {β : Type}

/-- What an event does to a cell. -/
inductive Update (β : Type) where
  | keep
  /-- writes the cell if it is empty -/
  | fill (b : β)
  /-- overwrites or clears the cell -/
  | set (cell : Option β)

def Update.apply (cell : Option β) : Update β → Option β
  | .keep => cell
  | .fill b => cell.or (some b)
  | .set cell' => cell'

def Update.isSet : Update β → Bool
  | .set _ => true
  | _ => false

/-- After an overwrite the earlier content does not count. -/
theorem foldl_apply_of_set {us : List (Update β)} (h : us.any Update.isSet = true)
    (cell cell' : Option β) : us.foldl Update.apply cell = us.foldl Update.apply cell' := by
  induction us generalizing cell cell' with
  | nil => simp at h
  | cons u us ih =>
    rw [List.foldl_cons, List.foldl_cons]
    cases u with
    | set c => rfl
    | keep => exact ih (by simpa [Update.isSet] using h) _ _
    | fill b => exact ih (by simpa [Update.isSet] using h) _ _

/-- Without an overwrite a full cell stays as it is. -/
theorem foldl_apply_some {us : List (Update β)} (h : us.any Update.isSet = false) (b : β) :
    us.foldl Update.apply (some b) = some b := by
  induction us with
  | nil => rfl
  | cons u us ih =>
    rw [List.any_cons, Bool.or_eq_false_iff] at h
    rw [List.foldl_cons]
    cases u with
    | set c => simp [Update.isSet] at h
    | keep => exact ih h.2
    | fill c => exact ih h.2

/-- Events that keep a cell can be left out. -/
theorem foldl_apply_filter {ε : Type} {f : ε → Update β} {p : ε → Bool}
    (hp : ∀ e, p e = false → f e = .keep) (es : List ε) (cell : Option β) :
    (es.filter p).foldl (fun c e => (f e).apply c) cell =
      es.foldl (fun c e => (f e).apply c) cell := by
  induction es generalizing cell with
  | nil => rfl
  | cons e es ih =>
    rw [List.foldl_cons]
    cases he : p e with
    | true => rw [List.filter_cons_of_pos (by simpa using he), List.foldl_cons, ih]
    | false =>
      rw [List.filter_cons_of_neg (by simp [he]), ih, hp e he]
      rfl

/-- **Cells absorb.** -/
theorem Update.absorbs : Absorbs (Update.apply : Option β → Update β → Option β) := by
  intro cell t xs ys u hall hhere
  by_cases hset : (xs ++ u :: ys).any Update.isSet = true
  · rw [← hall]
    exact foldl_apply_of_set hset _ _
  · have hno : (xs ++ u :: ys).any Update.isSet = false := by simpa using hset
    cases u with
    | keep => exact hall
    | set c => simp [Update.isSet] at hno
    | fill b =>
      cases cell with
      | some c => exact hall
      | none =>
        -- the cell is filled with `b` now, and by the rest of the events after this one
        have hys : ys.any Update.isSet = false := by
          rw [List.any_append, Bool.or_eq_false_iff, List.any_cons, Bool.or_eq_false_iff] at hno
          exact hno.2.2
        rw [← hhere, List.foldl_cons]
        show (xs ++ Update.fill b :: ys).foldl Update.apply (some b) = _
        rw [foldl_apply_some hno]
        exact (foldl_apply_some hys b).symm

/-! ## What a cell shows -/

variable {δ : Type}

/-- The update of what a function reads from the cell. -/
def Update.map (f : β → δ) : Update β → Update δ
  | .keep => .keep
  | .fill b => .fill (f b)
  | .set cell => .set (cell.map f)

theorem Update.map_apply (f : β → δ) (u : Update β) (cell : Option β) :
    (u.apply cell).map f = (u.map f).apply (cell.map f) := by
  cases u with
  | keep => rfl
  | fill b => cases cell <;> rfl
  | set c => rfl

theorem foldl_apply_map (f : β → δ) (us : List (Update β)) (cell : Option β) :
    (us.foldl Update.apply cell).map f =
      (us.map (Update.map f)).foldl Update.apply (cell.map f) := by
  induction us generalizing cell with
  | nil => rfl
  | cons u us ih => rw [List.foldl_cons, ih, Update.map_apply, List.map_cons, List.foldl_cons]

/-- The update of a cell that holds only what passes a test. -/
def Update.filter (p : β → Bool) : Update β → Update β
  | .keep => .keep
  | .fill b => if p b then .fill b else .keep
  | .set cell => .set (cell.filter p)

/-- If a value that does not get into a full cell passes the test whenever the content does, the
    test can be made before the run or after it. -/
theorem foldl_apply_contents {p : β → Bool} {us : List (Update β)} {cell : Option β}
    (h : ∀ pre b post, us = pre ++ .fill b :: post →
      ∀ c, pre.foldl Update.apply cell = some c → p c = p b) :
    (us.foldl Update.apply cell).filter p =
      (us.map (Update.filter p)).foldl Update.apply (cell.filter p) := by
  induction us using List.reverseRecOn with
  | nil => rfl
  | append_singleton us u ih =>
    have hold := ih fun pre b post heq => h pre b (post ++ [u]) (by rw [heq]; simp)
    rw [List.map_append, List.foldl_append, List.foldl_append, ← hold]
    show (u.apply (us.foldl Update.apply cell)).filter p =
      (u.filter p).apply ((us.foldl Update.apply cell).filter p)
    cases u with
    | keep => rfl
    | set c => rfl
    | fill b =>
      cases hc : us.foldl Update.apply cell with
      | none =>
        cases hb : p b with
        | true => simp [Update.apply, Update.filter, Option.filter, hb]
        | false => simp [Update.apply, Update.filter, Option.filter, hb]
      | some c =>
        have hsame : p c = p b := h us b [] rfl c hc
        cases hb : p b with
        | true => simp [Update.apply, Update.filter, Option.filter, hsame, hb]
        | false => simp [Update.apply, Update.filter, Option.filter, hsame, hb]

end Cells

/-! ## Rows of a table -/

section Rows

variable {α κ γ : Type} [DecidableEq κ] [DecidableEq γ] {key : α → κ} {group : α → γ}

/-- What a change does to the row of key `k`, which is of group `g`. -/
def Change.update (key : α → κ) (k : κ) (g : γ) : Change α γ → Update α
  | .put _ rows =>
    match rowOf key k rows with
    | some r => .fill r
    | none => .keep
  | .drop g' => if g = g' then .set none else .keep

theorem rowOf_change {k : κ} {g : γ} (hk : ∀ r, key r = k → group r = g) (t : List α)
    (c : Change α γ) :
    rowOf key k (c.apply key group t) = (c.update key k g).apply (rowOf key k t) := by
  cases c with
  | put g' rows =>
    rw [Change.apply, rowOf_insertAll, rowOf_append, Change.update]
    cases rowOf key k rows with
    | none => exact Option.or_none
    | some r => rfl
  | drop g' =>
    rw [Change.apply, rowOf_dropGroup hk, Change.update]
    split_ifs with hg
    · rfl
    · rfl

/-- The row of a key among the rows that pass a test. -/
theorem rowOf_filter {t : List α} (hnodup : (t.map key).Nodup) (p : α → Bool) (k : κ) :
    rowOf key k (t.filter p) = (rowOf key k t).filter p := by
  cases hrow : rowOf key k t with
  | none =>
    rw [rowOf_eq_none_iff] at hrow
    refine (rowOf_eq_none_iff key).mpr fun hmem => hrow ?_
    exact (List.filter_sublist.map key).subset hmem
  | some r =>
    have hr := List.mem_of_find?_eq_some hrow
    have hkey : key r = k := by simpa using List.find?_some hrow
    cases hp : p r with
    | true =>
      have hmem : r ∈ t.filter p := List.mem_filter.mpr ⟨hr, hp⟩
      have hfound := (mem_iff_rowOf key (hnodup.sublist (List.filter_sublist.map key))).mp hmem
      rw [← hkey, hfound]
      simp [Option.filter, hp]
    | false =>
      have hnone : k ∉ (t.filter p).map key := by
        intro hmem
        obtain ⟨r', hr', hkey'⟩ := List.mem_map.mp hmem
        obtain ⟨hmem', hp'⟩ := List.mem_filter.mp hr'
        have hsame : r' = r := List.inj_on_of_nodup_map hnodup hmem' hr (hkey'.trans hkey.symm)
        rw [hsame, hp] at hp'
        cases hp'
      rw [(rowOf_eq_none_iff key).mpr hnone]
      simp [Option.filter, hp]

theorem rowOf_map {f : α → α} (hf : ∀ r, key (f r) = key r) (k : κ) (t : List α) :
    rowOf key k (t.map f) = (rowOf key k t).map f := by
  rw [rowOf, rowOf, List.find?_map]
  congr 2
  funext r
  rw [Function.comp_apply, hf]

/-- Tables with unique keys that agree on the row of every key have the same rows. -/
theorem perm_of_rowOf {t t' : List α} (hnodup : (t.map key).Nodup) (hnodup' : (t'.map key).Nodup)
    (h : ∀ k, rowOf key k t = rowOf key k t') : t.Perm t' := by
  refine (List.perm_ext_iff_of_nodup hnodup.of_map hnodup'.of_map).mpr fun r => ?_
  rw [mem_iff_rowOf key hnodup, mem_iff_rowOf key hnodup', h]

end Rows

end Tx3Lift.Lib
