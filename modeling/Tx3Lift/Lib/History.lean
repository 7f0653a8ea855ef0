import Tx3Lift.Lib.View

/-!
# What a table remembers

A table with a unique key takes batches, of which it ignores the rows whose key it has, and
drops the rows of one group of keys at a time.

* `rowOf_insertAll`, `rowOf_dropGroup`: what a change does to the row of one key.
* `rowOf_replay`: the row of a key is the first one written since its group was last dropped.
* `insertAll_counted`: the counter of an insert loop is what the table grew by.
* `card_added`: that counter is the number of new keys.
-/

namespace Tx3Lift.Lib

variable {α κ γ : Type} [DecidableEq κ] (key : α → κ)

/-! ## The row of a key -/

/-- The row of `k` in a table. -/
def rowOf (k : κ) (t : List α) : Option α := t.find? fun r => decide (key r = k)

@[simp] theorem rowOf_nil (k : κ) : rowOf key k [] = none := rfl

theorem rowOf_append (k : κ) (t t' : List α) :
    rowOf key k (t ++ t') = (rowOf key k t).or (rowOf key k t') :=
  List.find?_append

theorem rowOf_eq_none_iff {k : κ} {t : List α} : rowOf key k t = none ↔ k ∉ t.map key := by
  simp [rowOf]

/-- Keys are unique, so the rows of a table are the rows of their keys. -/
theorem mem_iff_rowOf {t : List α} (hnodup : (t.map key).Nodup) {x : α} :
    x ∈ t ↔ rowOf key (key x) t = some x := by
  constructor
  · intro hx
    cases hrow : rowOf key (key x) t with
    | none => exact absurd (List.mem_map_of_mem hx) ((rowOf_eq_none_iff key).mp hrow)
    | some y =>
      have hkey : key y = key x := by simpa using List.find?_some hrow
      rw [List.inj_on_of_nodup_map hnodup (List.mem_of_find?_eq_some hrow) hx hkey]
  · exact List.mem_of_find?_eq_some

theorem rowOf_insertIgnore (k : κ) (t : List α) (r : α) :
    rowOf key k (insertIgnore key t r) = rowOf key k (t ++ [r]) := by
  unfold insertIgnore
  split_ifs with hr
  · rw [rowOf_append]
    by_cases hk : key r = k
    · obtain ⟨y, hy⟩ := Option.ne_none_iff_exists'.mp
        (mt (rowOf_eq_none_iff key).mp (not_not.mpr (hk ▸ hr)))
      rw [hy, Option.some_or]
    · simp [rowOf, hk]
  · rfl

/-- A batch leaves the row that a key has, and gives a new key the first of its rows. -/
theorem rowOf_insertAll (k : κ) (t rs : List α) :
    rowOf key k (insertAll key t rs) = rowOf key k (t ++ rs) := by
  induction rs generalizing t with
  | nil => rw [insertAll_nil, List.append_nil]
  | cons r rs ih =>
    rw [insertAll_cons, ih, rowOf_append, rowOf_insertIgnore, ← rowOf_append, List.append_assoc,
      List.singleton_append]

/-! ## Replay -/

section Replay

variable {key} [DecidableEq γ] {group : α → γ} {k : κ} {g : γ}

/-- A drop takes the row of a key of its group. -/
theorem rowOf_dropGroup (hk : ∀ r, key r = k → group r = g) (g' : γ) (t : List α) :
    rowOf key k (deleteWhere (fun r => decide (group r = g')) t) =
      if g = g' then none else rowOf key k t := by
  split_ifs with hg
  · rw [rowOf_eq_none_iff]
    intro hmem
    obtain ⟨r, hr, hkey⟩ := List.mem_map.mp hmem
    exact of_decide_eq_false (mem_deleteWhere.mp hr).2 ((hk r hkey).trans hg)
  · rw [rowOf, rowOf, deleteWhere, List.find?_filter]
    congr 1
    funext r
    by_cases hr : key r = k
    · simp [hr, hk r hr, hg]
    · simp [hr]

omit [DecidableEq γ] in
/-- The rows that a change writes. -/
def Change.rows : Change α γ → List α
  | .put _ rows => rows
  | .drop _ => []

def Change.drops (g : γ) : Change α γ → Bool
  | .put _ _ => false
  | .drop h => decide (h = g)

/-- The rows written since the group `g` was last dropped, oldest first. -/
def writtenSince (g : γ) (history : List (Change α γ)) : List α :=
  (history.rtakeWhile fun c => !c.drops g).flatMap Change.rows

theorem writtenSince_concat (g : γ) (history : List (Change α γ)) (c : Change α γ) :
    writtenSince g (history ++ [c]) =
      if c.drops g then [] else writtenSince g history ++ c.rows := by
  unfold writtenSince
  split_ifs with hc
  · rw [List.rtakeWhile_concat_neg _ _ _ (by simp [hc]), List.flatMap_nil]
  · rw [List.rtakeWhile_concat_pos _ _ _ (by simp [hc]), List.flatMap_append,
      List.flatMap_singleton]

/-- A row that was put stays written until its group is dropped. -/
theorem mem_writtenSince {r : α} {rows : List α} {g' : γ} {before after : List (Change α γ)}
    (hr : r ∈ rows) (hno : .drop g ∉ after) :
    r ∈ writtenSince g (before ++ .put g' rows :: after) := by
  induction after using List.reverseRecOn with
  | nil =>
    rw [writtenSince_concat]
    simp [Change.drops, Change.rows, hr]
  | append_singleton after c ih =>
    have hold := ih fun h => hno (List.mem_append_left _ h)
    have hc : c.drops g = false := by
      cases c with
      | put g'' rows' => rfl
      | drop g'' =>
        have hne : g'' ≠ g := fun h => hno (by simp [h])
        exact decide_eq_false hne
    rw [← List.cons_append, ← List.append_assoc, writtenSince_concat, hc]
    exact List.mem_append_left _ hold

/-- **The first write counts.** The row of a key is the first one written since its group was
    last dropped; it does not matter which groups the rows of a put belong to. -/
theorem rowOf_replay (hk : ∀ r, key r = k → group r = g) (history : List (Change α γ)) :
    rowOf key k (replay key group [] history) = rowOf key k (writtenSince g history) := by
  induction history using List.reverseRecOn with
  | nil => rfl
  | append_singleton history c ih =>
    have hlast : replay key group [] (history ++ [c]) =
        c.apply key group (replay key group [] history) := by
      rw [replay_append]
      rfl
    rw [hlast, writtenSince_concat]
    cases c with
    | put g' rows =>
      rw [Change.apply, rowOf_insertAll, rowOf_append, ih, ← rowOf_append]
      simp [Change.drops, Change.rows]
    | drop g' =>
      rw [Change.apply, rowOf_dropGroup hk, ih]
      by_cases hg : g = g'
      · simp [Change.drops, hg]
      · simp [Change.drops, Change.rows, hg, Ne.symm hg]

end Replay

/-! ## Counters -/

/-- An insert loop with its counter: an ignored row counts 0. -/
def insertCounted (s : List α × ℕ) (r : α) : List α × ℕ :=
  if key r ∈ s.1.map key then s else (s.1 ++ [r], s.2 + 1)

theorem insertAll_counted (t rs : List α) (n : ℕ) :
    rs.foldl (insertCounted key) (t, n) =
      (insertAll key t rs, n + ((insertAll key t rs).length - t.length)) := by
  induction rs generalizing t n with
  | nil => simp
  | cons r rs ih =>
    have hstep : insertCounted key (t, n) r =
        if key r ∈ t.map key then (t, n) else (t ++ [r], n + 1) := rfl
    rw [List.foldl_cons, insertAll_cons, hstep, insertIgnore]
    split_ifs with hr
    · rw [ih]
    · have hgrow := (prefix_insertAll key (t ++ [r]) rs).length_le
      rw [List.length_append, List.length_singleton] at hgrow
      rw [ih, List.length_append, List.length_singleton]
      congr 1
      omega

/-- A table that grew, grew by the keys it has now and had not before. -/
theorem card_added {t t' : List α} (hnodup : (t'.map key).Nodup) (hsub : t.Sublist t') :
    t'.length - t.length = ((t'.map key).toFinset \ (t.map key).toFinset).card := by
  have hkeys : (t.map key).Sublist (t'.map key) := hsub.map key
  have hsubset : (t.map key).toFinset ⊆ (t'.map key).toFinset := fun k hk =>
    List.mem_toFinset.mpr (hkeys.subset (List.mem_toFinset.mp hk))
  rw [Finset.card_sdiff_of_subset hsubset,
    List.toFinset_card_of_nodup hnodup, List.toFinset_card_of_nodup (hnodup.sublist hkeys),
    List.length_map, List.length_map]

end Tx3Lift.Lib
