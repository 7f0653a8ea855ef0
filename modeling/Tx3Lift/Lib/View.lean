import Tx3Lift.Lib.Keyed

/-!
# Tables that follow a set of live groups

A history puts groups of rows into a keyed table and drops whole groups again. A group
is *live* when it was put and not dropped since. `replay` is what the table becomes, and
`live` is what the history means.

* `replay_eq_live`: the table is the concatenation of the live groups, when no group is
  put while it is live.
* `mem_replay`, `mem_replay_of_mem`: rows come from puts, and old rows stay exactly when
  their group is not dropped.
-/

namespace Tx3Lift.Lib

variable {α κ γ : Type} [DecidableEq κ] [DecidableEq γ]

/-- One change of the table. -/
inductive Change (α γ : Type) where
  | put (g : γ) (rows : List α)
  | drop (g : γ)

/-- What a change does to the table: rows of present keys are ignored. -/
def Change.apply (key : α → κ) (group : α → γ) (t : List α) : Change α γ → List α
  | .put _ rows => insertAll key t rows
  | .drop g => deleteWhere (fun r => decide (group r = g)) t

/-- The table after a history. -/
def replay (key : α → κ) (group : α → γ) (t : List α) (history : List (Change α γ)) : List α :=
  history.foldl (Change.apply key group) t

/-- What a change does to the live groups. -/
def Change.track (live : List (γ × List α)) : Change α γ → List (γ × List α)
  | .put g rows => live ++ [(g, rows)]
  | .drop g => live.filter fun entry => decide (entry.1 ≠ g)

/-- The groups that were put and not dropped since, with the rows of their last put. -/
def live (history : List (Change α γ)) : List (γ × List α) := history.foldl Change.track []

/-- The rows of a put belong to its group and have distinct keys. -/
structure Change.WellFormed (key : α → κ) (group : α → γ) (c : Change α γ) : Prop where
  group : ∀ g rows, c = .put g rows → ∀ r ∈ rows, group r = g
  keys : ∀ g rows, c = .put g rows → (rows.map key).Nodup

section Replay

variable {key : α → κ} {group : α → γ} {history : List (Change α γ)} {c : Change α γ}

@[simp] theorem replay_nil (t : List α) : replay key group t [] = t := rfl

theorem replay_append (t : List α) (hs hs' : List (Change α γ)) :
    replay key group t (hs ++ hs') = replay key group (replay key group t hs) hs' :=
  List.foldl_append

theorem live_concat : live (history ++ [c]) = c.track (live history) := by
  rw [live, List.foldl_append]
  rfl

theorem live_put {g : γ} {rows : List α} :
    live (history ++ [.put g rows]) = live history ++ [(g, rows)] := live_concat

/-- A live group was put by the history. -/
theorem mem_live {entry : γ × List α} :
    entry ∈ live history → .put entry.1 entry.2 ∈ history := by
  induction history using List.reverseRecOn with
  | nil => intro h; simp [live] at h
  | append_singleton history c ih =>
    intro h
    rw [live_concat] at h
    cases c with
    | put g rows =>
      rcases List.mem_append.mp h with h | h
      · exact List.mem_append_left _ (ih h)
      · rw [List.mem_singleton.mp h]
        simp
    | drop g => exact List.mem_append_left _ (ih (List.mem_filter.mp h).1)

/-- Dropping a group from the concatenation of groups. -/
theorem deleteWhere_flatMap {entries : List (γ × List α)} {g : γ}
    (hgroup : ∀ entry ∈ entries, ∀ r ∈ entry.2, group r = entry.1) :
    deleteWhere (fun r => decide (group r = g)) (entries.flatMap Prod.snd) =
      (entries.filter fun entry => decide (entry.1 ≠ g)).flatMap Prod.snd := by
  induction entries with
  | nil => rfl
  | cons entry entries ih =>
    have hown := hgroup entry (by simp)
    have hrest := ih fun e he => hgroup e (List.mem_cons_of_mem _ he)
    rw [List.flatMap_cons, deleteWhere_append, hrest, List.filter_cons]
    by_cases hg : entry.1 = g
    · rw [deleteWhere_of_forall fun r hr => by rw [hown r hr]; simpa using hg]
      simp [hg]
    · rw [deleteWhere_of_forall_not fun r hr => by rw [hown r hr]; simpa using hg]
      simp [hg]

/-- **The table is its live groups**, when the group of a row is part of its key and no group
    is put while it is live. -/
theorem replay_eq_live (hkey : ∀ r r' : α, key r = key r' → group r = group r')
    (hwf : ∀ c ∈ history, c.WellFormed key group)
    (honce : ∀ pre g rows, pre ++ [.put g rows] <+: history → g ∉ (live pre).map Prod.fst) :
    replay key group [] history = (live history).flatMap Prod.snd := by
  induction history using List.reverseRecOn with
  | nil => rfl
  | append_singleton history c ih =>
    have hprev := ih (fun c hc => hwf c (by simp [hc]))
      fun pre g rows hp => honce pre g rows (hp.trans (List.prefix_append _ _))
    have hgroup : ∀ entry ∈ live history, ∀ r ∈ entry.2, group r = entry.1 := fun entry he r hr =>
      (hwf _ (List.mem_append_left _ (mem_live he))).group _ _ rfl r hr
    rw [replay_append, hprev, live_concat]
    cases c with
    | put g rows =>
      have hc := hwf (.put g rows) (by simp)
      have hfresh := honce history g rows List.prefix_rfl
      show insertAll key _ rows = _
      rw [insertAll_fresh key (hc.keys g rows rfl)]
      · simp [Change.track]
      · -- a row with the key of a live row would be of a live group
        intro r hr hmem
        obtain ⟨r', hr', hk⟩ := List.mem_map.mp hmem
        obtain ⟨entry, hentry, hin⟩ := List.mem_flatMap.mp hr'
        refine hfresh (List.mem_map.mpr ⟨entry, hentry, ?_⟩)
        rw [← hgroup entry hentry r' hin, hkey r' r hk, hc.group g rows rfl r hr]
    | drop g => exact deleteWhere_flatMap hgroup

/-- A row comes from a put, or from the initial table if its group is not dropped. -/
theorem mem_replay {t : List α} {r : α} (h : r ∈ replay key group t history) :
    (r ∈ t ∧ .drop (group r) ∉ history) ∨ ∃ g rows, .put g rows ∈ history ∧ r ∈ rows := by
  induction history using List.reverseRecOn with
  | nil => exact Or.inl ⟨h, List.not_mem_nil⟩
  | append_singleton history c ih =>
    have hold : r ∈ replay key group t history → c ≠ .drop (group r) →
        (r ∈ t ∧ .drop (group r) ∉ history ++ [c]) ∨
          ∃ g rows, .put g rows ∈ history ++ [c] ∧ r ∈ rows := fun h hc =>
      (ih h).imp (fun ⟨ht, hno⟩ => ⟨ht, by simp [hno, hc.symm]⟩)
        fun ⟨g, rows, hput, hr⟩ => ⟨g, rows, by simp [hput], hr⟩
    rw [replay_append] at h
    cases c with
    | put g rows =>
      rcases mem_insertAll key h with h | h
      · exact hold h (by simp)
      · exact Or.inr ⟨g, rows, by simp, h⟩
    | drop g =>
      obtain ⟨h, hne⟩ := mem_deleteWhere.mp h
      refine hold h fun heq => ?_
      cases heq
      simp at hne

/-- Rows of a group that is not dropped stay. -/
theorem mem_replay_of_mem {t : List α} {r : α} (h : r ∈ t) (hno : .drop (group r) ∉ history) :
    r ∈ replay key group t history := by
  induction history using List.reverseRecOn with
  | nil => exact h
  | append_singleton history c ih =>
    have hold := ih fun hmem => hno (List.mem_append_left _ hmem)
    rw [replay_append]
    cases c with
    | put g rows => exact subset_insertAll key _ _ hold
    | drop g =>
      refine mem_deleteWhere.mpr ⟨hold, ?_⟩
      rw [decide_eq_false_iff_not]
      intro heq
      exact hno (by simp [heq])

/-- A row of the table was put, and its group was not dropped since. -/
theorem exists_put_of_mem_replay {r : α} (h : r ∈ replay key group [] history) :
    ∃ before g rows after, history = before ++ .put g rows :: after ∧ r ∈ rows ∧
      .drop (group r) ∉ after := by
  induction history using List.reverseRecOn with
  | nil => simp at h
  | append_singleton history c ih =>
    have hold : r ∈ replay key group [] history → c ≠ .drop (group r) →
        ∃ before g rows after, history ++ [c] = before ++ .put g rows :: after ∧ r ∈ rows ∧
          .drop (group r) ∉ after := by
      intro h hc
      obtain ⟨before, g, rows, after, rfl, hr, hno⟩ := ih h
      exact ⟨before, g, rows, after ++ [c], by simp, hr, by simp [hno, hc.symm]⟩
    rw [replay_append] at h
    cases c with
    | put g rows =>
      rcases mem_insertAll key h with h | h
      · exact hold h (by simp)
      · exact ⟨history, g, rows, [], rfl, h, by simp⟩
    | drop g =>
      obtain ⟨h, hne⟩ := mem_deleteWhere.mp h
      refine hold h fun heq => ?_
      cases heq
      simp at hne

end Replay

end Tx3Lift.Lib
