import Mathlib

/-!
# Tables with a unique key

A table is a list of rows; `key` is its uniqueness constraint. `insertIgnore`
is SQL's `INSERT OR IGNORE` of one row, `insertAll` of a batch, and
`deleteWhere` is `DELETE … WHERE`.

* `insertAll_nodup`, `deleteWhere_nodup`: keys stay unique.
* `mem_keys_insertAll`: a batch adds exactly its keys.
* `insertAll_fresh`: a batch of new, distinct keys is appended.
* `insertAll_present`: a batch of present keys changes nothing.
* `map_insertAll`, `map_deleteWhere`: both commute with a translation of rows.
-/

namespace Tx3Lift.Lib

variable {α κ : Type} [DecidableEq κ] (key : α → κ)

/-- `INSERT OR IGNORE` of one row. -/
def insertIgnore (t : List α) (r : α) : List α := if key r ∈ t.map key then t else t ++ [r]

/-- `INSERT OR IGNORE` of a batch, row by row. -/
def insertAll (t rs : List α) : List α := rs.foldl (insertIgnore key) t

/-- `DELETE … WHERE p`. -/
def deleteWhere (p : α → Bool) (t : List α) : List α := t.filter fun r => !p r

@[simp] theorem insertAll_nil (t : List α) : insertAll key t [] = t := rfl

@[simp] theorem insertAll_cons (t : List α) (r : α) (rs : List α) :
    insertAll key t (r :: rs) = insertAll key (insertIgnore key t r) rs := rfl

theorem prefix_insertIgnore (t : List α) (r : α) : t <+: insertIgnore key t r := by
  unfold insertIgnore
  split_ifs
  · exact List.prefix_refl t
  · exact List.prefix_append t [r]

theorem subset_insertIgnore (t : List α) (r : α) : t ⊆ insertIgnore key t r :=
  (prefix_insertIgnore key t r).subset

/-- New rows go to the end. -/
theorem prefix_insertAll (t rs : List α) : t <+: insertAll key t rs := by
  induction rs generalizing t with
  | nil => exact List.prefix_refl t
  | cons r rs ih => exact (prefix_insertIgnore key t r).trans (ih _)

/-- No row is lost by inserting. -/
theorem subset_insertAll (t rs : List α) : t ⊆ insertAll key t rs :=
  (prefix_insertAll key t rs).subset

/-- Every row comes from the table, or from the batch with a key that the table lacks. -/
theorem mem_insertAll_fresh {t rs : List α} {x : α} (h : x ∈ insertAll key t rs) :
    x ∈ t ∨ (x ∈ rs ∧ key x ∉ t.map key) := by
  induction rs generalizing t with
  | nil => exact Or.inl h
  | cons r rs ih =>
    have hkeys : t.map key ⊆ (insertIgnore key t r).map key :=
      List.map_subset key (subset_insertIgnore key t r)
    rcases ih h with h | ⟨h, hfresh⟩
    · unfold insertIgnore at h
      split_ifs at h with hr
      · exact Or.inl h
      · rcases List.mem_append.mp h with h | h
        · exact Or.inl h
        · rw [List.mem_singleton.mp h]
          exact Or.inr ⟨by simp, hr⟩
    · exact Or.inr ⟨List.mem_cons_of_mem _ h, fun hmem => hfresh (hkeys hmem)⟩

theorem mem_insertAll {t rs : List α} {x : α} (h : x ∈ insertAll key t rs) : x ∈ t ∨ x ∈ rs :=
  (mem_insertAll_fresh key h).imp_right And.left

theorem insertIgnore_nodup {t : List α} (h : (t.map key).Nodup) (r : α) :
    ((insertIgnore key t r).map key).Nodup := by
  unfold insertIgnore
  split_ifs with hr
  · exact h
  · rw [List.map_append, List.map_singleton]
    exact h.append (List.nodup_singleton _) (by simpa using hr)

/-- Keys stay unique. -/
theorem insertAll_nodup {t : List α} (h : (t.map key).Nodup) (rs : List α) :
    ((insertAll key t rs).map key).Nodup := by
  induction rs generalizing t with
  | nil => exact h
  | cons r rs ih => exact ih (insertIgnore_nodup key h r)

omit [DecidableEq κ] in
theorem deleteWhere_nodup {t : List α} (h : (t.map key).Nodup) (p : α → Bool) :
    ((deleteWhere p t).map key).Nodup :=
  h.sublist (List.filter_sublist.map key)

theorem mem_keys_insertIgnore {t : List α} {r : α} {k : κ} :
    k ∈ (insertIgnore key t r).map key ↔ k ∈ t.map key ∨ k = key r := by
  unfold insertIgnore
  split_ifs with hr
  · constructor
    · exact Or.inl
    · rintro (h | rfl)
      · exact h
      · exact hr
  · simp

/-- A batch adds exactly its keys. -/
theorem mem_keys_insertAll {t rs : List α} {k : κ} :
    k ∈ (insertAll key t rs).map key ↔ k ∈ t.map key ∨ k ∈ rs.map key := by
  induction rs generalizing t with
  | nil => simp
  | cons r rs ih =>
    rw [insertAll_cons, ih, mem_keys_insertIgnore, List.map_cons, List.mem_cons, or_assoc]

/-- A batch of new, distinct keys is appended. -/
theorem insertAll_fresh {t rs : List α} (hn : (rs.map key).Nodup)
    (hd : ∀ r ∈ rs, key r ∉ t.map key) : insertAll key t rs = t ++ rs := by
  induction rs generalizing t with
  | nil => simp
  | cons r rs ih =>
    obtain ⟨hr, hn⟩ := List.nodup_cons.mp hn
    have hstep : insertIgnore key t r = t ++ [r] := if_neg (hd r (by simp))
    rw [insertAll_cons, hstep, ih hn]
    · simp
    · intro x hx hmem
      rw [List.map_append, List.mem_append] at hmem
      rcases hmem with hmem | hmem
      · exact hd x (by simp [hx]) hmem
      · have hkey : key x = key r := by simpa using hmem
        exact hr (hkey ▸ List.mem_map_of_mem hx)

/-- A batch of present keys changes nothing. -/
theorem insertAll_present {t rs : List α} (h : ∀ r ∈ rs, key r ∈ t.map key) :
    insertAll key t rs = t := by
  induction rs with
  | nil => rfl
  | cons r rs ih =>
    have hstep : insertIgnore key t r = t := if_pos (h r (by simp))
    rw [insertAll_cons, hstep]
    exact ih fun x hx => h x (by simp [hx])

section Map

variable {β : Type} {key' : β → κ} {f : α → β} {t rs : List α}

/-- Inserting commutes with a translation of rows that keeps their keys. -/
theorem map_insertAll (hkey : ∀ a, key' (f a) = key a) :
    (insertAll key t rs).map f = insertAll key' (t.map f) (rs.map f) := by
  induction rs generalizing t with
  | nil => rfl
  | cons r rs ih =>
    have hkeys : (t.map f).map key' = t.map key := by
      rw [List.map_map]
      exact List.map_congr_left fun a _ => hkey a
    have hstep : (insertIgnore key t r).map f = insertIgnore key' (t.map f) (f r) := by
      unfold insertIgnore
      rw [hkeys, hkey]
      split_ifs
      · rfl
      · rw [List.map_append, List.map_singleton]
    rw [List.map_cons, insertAll_cons, insertAll_cons, ih, hstep]

omit [DecidableEq κ] in
theorem map_deleteWhere {p : α → Bool} {p' : β → Bool} (hp : ∀ a, p' (f a) = p a) :
    (deleteWhere p t).map f = deleteWhere p' (t.map f) := by
  rw [deleteWhere, deleteWhere, List.filter_map]
  exact congrArg (List.map f) (List.filter_congr fun a _ => by rw [Function.comp_apply, hp])

end Map

theorem mem_deleteWhere {p : α → Bool} {t : List α} {x : α} :
    x ∈ deleteWhere p t ↔ x ∈ t ∧ p x = false := by
  simp [deleteWhere]

@[simp] theorem deleteWhere_append (p : α → Bool) (t t' : List α) :
    deleteWhere p (t ++ t') = deleteWhere p t ++ deleteWhere p t' :=
  List.filter_append ..

theorem deleteWhere_of_forall {p : α → Bool} {t : List α} (h : ∀ r ∈ t, p r = true) :
    deleteWhere p t = [] := by
  simpa [deleteWhere] using h

theorem deleteWhere_of_forall_not {p : α → Bool} {t : List α} (h : ∀ r ∈ t, p r = false) :
    deleteWhere p t = t := by
  simpa [deleteWhere] using h

end Tx3Lift.Lib
