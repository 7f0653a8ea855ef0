import Tx3Lift.Lib.Keyed
import Tx3Lift.Lib.Ranking

/-!
# Tables of ranked rows

The rows of a keyed table have a score and a rank, and the key of a row says which group it
belongs to. A table is coherent when in every group the higher score has the smaller rank and
equal scores share theirs. Rows come in batches; a batch is ranked by its own scores, whatever
the table holds.

* `coherent_of_ranked`: a batch is coherent by itself.
* `coherent_insertAll_iff`: inserting a batch keeps a table coherent exactly when its new rows
  fit between the rows that are there.
* `Coherent.deleteWhere`: deleting rows keeps a table coherent.
-/

namespace Tx3Lift.Lib

variable {α κ γ : Type} (key : α → κ) (groupOf : κ → γ) (score rank : α → ℕ)

/-- In every group the higher score has the smaller rank, and equal scores share theirs. -/
def Coherent (t : List α) : Prop :=
  ∀ a ∈ t, ∀ b ∈ t, groupOf (key a) = groupOf (key b) →
    (score b < score a → rank a < rank b) ∧ (score a = score b → rank a = rank b)

/-- The entries of a batch, keys with scores, fit into the table: an entry of a new key,
    ranked among the scores of the batch, is in order with every row of its group. -/
def Fits (t : List α) (entries : List (κ × ℕ)) : Prop :=
  ∀ e ∈ entries, e.1 ∉ t.map key → ∀ a ∈ t, groupOf (key a) = groupOf e.1 →
    (score a < e.2 → rankIn (entries.map Prod.snd) e.2 < rank a) ∧
    (e.2 < score a → rank a < rankIn (entries.map Prod.snd) e.2) ∧
    (score a = e.2 → rank a = rankIn (entries.map Prod.snd) e.2)

variable {key groupOf score rank} {t rs : List α}

/-- Which entries there are matters, not in which order or how often. -/
theorem fits_congr {entries entries' : List (κ × ℕ)} (h : ∀ e, e ∈ entries' ↔ e ∈ entries) :
    Fits key groupOf score rank t entries' ↔ Fits key groupOf score rank t entries := by
  have hranks : rankIn (entries'.map Prod.snd) = rankIn (entries.map Prod.snd) := by
    refine rankIn_congr fun s => ?_
    simp only [List.mem_map, h]
  simp only [Fits, hranks, h]

/-- A batch ranked by its own scores is coherent. -/
theorem coherent_of_ranked (hranked : ∀ a ∈ rs, rank a = rankIn (rs.map score) (score a)) :
    Coherent key groupOf score rank rs := by
  intro a ha b hb _
  rw [hranked a ha, hranked b hb]
  exact ⟨fun hlt => rankIn_lt (List.mem_map_of_mem hb) hlt, fun heq => by rw [heq]⟩

theorem Coherent.deleteWhere (h : Coherent key groupOf score rank t) (p : α → Bool) :
    Coherent key groupOf score rank (deleteWhere p t) := fun a ha b hb =>
  h a (mem_deleteWhere.mp ha).1 b (mem_deleteWhere.mp hb).1

variable [DecidableEq κ]

/-- The batch fits if the table with it is coherent: an entry of a new key was inserted. -/
theorem fits_of_coherent (hranked : ∀ a ∈ rs, rank a = rankIn (rs.map score) (score a))
    (hkeys : ∀ a ∈ rs, ∀ b ∈ rs, key a = key b → score a = score b)
    (h : Coherent key groupOf score rank (insertAll key t rs)) :
    Fits key groupOf score rank t (rs.map fun r => (key r, score r)) := by
  intro e he hnew a ha hgroup
  obtain ⟨r, hr, rfl⟩ := List.mem_map.mp he
  have hpresent : key r ∈ (insertAll key t rs).map key :=
    (mem_keys_insertAll key).mpr (Or.inr (List.mem_map_of_mem hr))
  obtain ⟨r', hr', hkey⟩ := List.mem_map.mp hpresent
  have hmem : r' ∈ rs := by
    rcases mem_insertAll key hr' with hold | hmem
    · exact absurd (List.mem_map.mpr ⟨r', hold, hkey⟩) hnew
    · exact hmem
  have hscore : score r' = score r := hkeys r' hmem r hr hkey
  have hscores : (rs.map fun r => (key r, score r)).map Prod.snd = rs.map score := by
    rw [List.map_map]
    rfl
  have ha' := subset_insertAll key t rs ha
  have hgroup' : groupOf (key a) = groupOf (key r') := by rw [hkey]; exact hgroup
  obtain ⟨hless, hequal⟩ := h a ha' r' hr' hgroup'
  obtain ⟨hmore, -⟩ := h r' hr' a ha' hgroup'.symm
  rw [hranked r' hmem, hscore] at hless hequal hmore
  rw [hscores]
  exact ⟨hmore, hless, hequal⟩

/-- The table with the batch is coherent if the batch fits. -/
theorem coherent_of_fits (hranked : ∀ a ∈ rs, rank a = rankIn (rs.map score) (score a))
    (hold : Coherent key groupOf score rank t)
    (h : Fits key groupOf score rank t (rs.map fun r => (key r, score r))) :
    Coherent key groupOf score rank (insertAll key t rs) := by
  have hscores : (rs.map fun r => (key r, score r)).map Prod.snd = rs.map score := by
    rw [List.map_map]
    rfl
  have hfit : ∀ r ∈ rs, key r ∉ t.map key → ∀ a ∈ t, groupOf (key a) = groupOf (key r) →
      (score a < score r → rank r < rank a) ∧ (score r < score a → rank a < rank r) ∧
        (score a = score r → rank a = rank r) := by
    intro r hr hnew a ha hgroup
    rw [hranked r hr, ← hscores]
    exact h (key r, score r) (List.mem_map.mpr ⟨r, hr, rfl⟩) hnew a ha hgroup
  intro a ha b hb hgroup
  rcases mem_insertAll_fresh key ha with ha | ⟨ha, hnewa⟩ <;>
    rcases mem_insertAll_fresh key hb with hb | ⟨hb, hnewb⟩
  · exact hold a ha b hb hgroup
  · obtain ⟨-, hmore, hequal⟩ := hfit b hb hnewb a ha hgroup
    exact ⟨hmore, hequal⟩
  · obtain ⟨hless, -, hequal⟩ := hfit a ha hnewa b hb hgroup.symm
    exact ⟨hless, fun heq => (hequal heq.symm).symm⟩
  · exact coherent_of_ranked hranked a ha b hb hgroup

/-- **A batch keeps the table coherent** exactly when it fits. -/
theorem coherent_insertAll_iff (hranked : ∀ a ∈ rs, rank a = rankIn (rs.map score) (score a))
    (hkeys : ∀ a ∈ rs, ∀ b ∈ rs, key a = key b → score a = score b)
    (hold : Coherent key groupOf score rank t) :
    Coherent key groupOf score rank (insertAll key t rs) ↔
      Fits key groupOf score rank t (rs.map fun r => (key r, score r)) :=
  ⟨fits_of_coherent hranked hkeys, coherent_of_fits hranked hold⟩

end Tx3Lift.Lib
