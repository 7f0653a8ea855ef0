import Tx3Lift.Core.Basic
import Tx3Lift.Lib.Ranking

/-!
# `select_matches`

Model of the pure selection of `bin/tracker/src/process.rs` (lines 227–303): the best
candidate of each source, ranked across sources, and the mode filter. `α` is the payload
that candidates carry along.

* `bestPerSource_spec`: one best candidate for each source that occurs.
* `mem_selectMatches`: every survivor is one of the candidates.
* `selectMatches_sources_nodup`: no two survivors are of one source.
* `selectMatches_all`: every survivor is ranked by the distinct scores of all survivors.
* `selectMatches_meets_spec`: what the two modes return, for every list of candidates.
* `selectMatches_perm`, `survivors_without`: the order of the candidates does not matter, and
  the candidates of one source do not decide which candidates of the others survive.
-/

namespace Tx3Lift

open Lib

variable {α : Type}

/-- `MatchMode` (`config.rs`). -/
inductive MatchMode where
  | all
  | best
deriving DecidableEq

/-- `Candidate`. -/
structure Candidate (α : Type) where
  sourceName : String
  txName : String
  score : ℕ
  payload : α

/-- `Ranked`. -/
structure Ranked (α : Type) where
  candidate : Candidate α
  matchRank : ℕ

/-! ## Model -/

/-- `replace` against an incumbent (lines 260–266). -/
def Candidate.replaces (cand existing : Candidate α) : Bool :=
  decide (cand.score > existing.score) ||
    (decide (cand.score = existing.score) && decide (cand.txName < existing.txName))

/-- The body of the loop of step (1) (lines 255–270). -/
def keepBest (best : BTreeMap String (Candidate α)) (cand : Candidate α) :
    BTreeMap String (Candidate α) :=
  match best[cand.sourceName]? with
  | none => best.insert cand.sourceName cand
  | some existing => if cand.replaces existing then best.insert cand.sourceName cand else best

/-- `best_per_source.into_values()`. -/
def bestPerSource (candidates : List (Candidate α)) : List (Candidate α) :=
  (candidates.foldl keepBest ∅).toList.map Prod.snd

/-- The order of `sort_by` (lines 275–279): score descending, then source name. -/
def Candidate.before (a b : Candidate α) : Prop :=
  ((compare b.score a.score).then (compare a.sourceName b.sourceName)) ≠ .gt

instance : DecidableRel (Candidate.before (α := α)) := fun _ _ =>
  inferInstanceAs (Decidable (_ ≠ _))

/-- The loop that assigns dense ranks (lines 281–293). -/
def denseRanks : ℕ → Option ℕ → List (Candidate α) → List (Ranked α)
  | _, _, [] => []
  | rank, prevScore, cand :: rest =>
    if prevScore ≠ some cand.score then
      { candidate := cand, matchRank := rank + 1 } :: denseRanks (rank + 1) (some cand.score) rest
    else { candidate := cand, matchRank := rank } :: denseRanks rank prevScore rest

/-- `select_matches` (lines 251–303). -/
def selectMatches (candidates : List (Candidate α)) (mode : MatchMode) : List (Ranked α) :=
  let survivors := (bestPerSource candidates).insertionSort Candidate.before
  let ranked := denseRanks 0 none survivors
  match mode with
  | .all => ranked
  | .best => ranked.filter fun r => decide (r.matchRank = 1)

/-! ## The three steps -/

theorem replaces_iff {a b : Candidate α} : a.replaces b = true ↔
    b.score < a.score ∨ (a.score = b.score ∧ a.txName < b.txName) := by
  simp [Candidate.replaces]

theorem replaces_eq_false_iff {a b : Candidate α} : a.replaces b = false ↔
    a.score < b.score ∨ (a.score = b.score ∧ b.txName ≤ a.txName) := by
  rw [← Bool.not_eq_true, replaces_iff]
  rcases lt_trichotomy a.score b.score with h | h | h
  · simp [h, h.not_gt, h.ne]
  · simp only [h, lt_self_iff_false, true_and, false_or, not_lt]
  · simp [h, h.not_gt, h.ne']

theorem replaces_preference : Preference (Candidate.replaces (α := α)) := by
  constructor
  · intro a
    exact replaces_eq_false_iff.mpr (Or.inr ⟨rfl, le_rfl⟩)
  · intro a b c hac hbc
    rw [replaces_eq_false_iff] at hac ⊢
    rw [replaces_iff] at hbc
    rcases hac with hac | ⟨hac, hname⟩ <;> rcases hbc with hbc | ⟨hbc, hname'⟩
    · exact Or.inl (hac.trans hbc)
    · exact Or.inl (hbc ▸ hac)
    · exact Or.inl (hac ▸ hbc)
    · exact Or.inr ⟨hac.trans hbc.symm, hname'.le.trans hname⟩

theorem keepBest_eq :
    keepBest (α := α) = keepBestBy Candidate.sourceName Candidate.replaces := by
  funext best cand
  unfold keepBest keepBestBy
  cases best[cand.sourceName]? <;> rfl

theorem bestPerSource_eq (candidates : List (Candidate α)) :
    bestPerSource candidates =
      bestPerKey Candidate.sourceName Candidate.replaces candidates := by
  rw [bestPerSource, bestPerKey, keepBest_eq]

theorem before_iff {a b : Candidate α} : a.before b ↔
    b.score < a.score ∨ (b.score = a.score ∧ a.sourceName ≤ b.sourceName) := by
  unfold Candidate.before
  rcases lt_trichotomy b.score a.score with h | h | h
  · rw [compare_lt_iff_lt.mpr h]
    simp [h]
  · rw [compare_eq_iff_eq.mpr h]
    simp only [Ordering.then, compare_le_iff_le, h, lt_self_iff_false, true_and, false_or]
  · rw [compare_gt_iff_gt.mpr h]
    simp [h.not_gt, h.ne']

instance : Std.Total (Candidate.before (α := α)) := ⟨fun a b => by
  simp only [before_iff]
  rcases lt_trichotomy a.score b.score with h | h | h
  · exact Or.inr (Or.inl h)
  · rcases le_total a.sourceName b.sourceName with hname | hname
    · exact Or.inl (Or.inr ⟨h.symm, hname⟩)
    · exact Or.inr (Or.inr ⟨h, hname⟩)
  · exact Or.inl (Or.inl h)⟩

instance : IsTrans (Candidate α) Candidate.before := ⟨fun a b c => by
  simp only [before_iff]
  rintro (hab | ⟨hab, hname⟩) (hbc | ⟨hbc, hname'⟩)
  · exact Or.inl (hbc.trans hab)
  · exact Or.inl (hbc ▸ hab)
  · exact Or.inl (hab ▸ hbc)
  · exact Or.inr ⟨hbc.trans hab, hname.trans hname'⟩⟩

theorem denseRanks_eq (xs : List (Candidate α)) : ∀ rank prevScore,
    denseRanks rank prevScore xs = (denseRanksBy Candidate.score rank prevScore xs).map
      fun e => { candidate := e.1, matchRank := e.2 } := by
  induction xs with
  | nil => intro _ _; rfl
  | cons c xs ih =>
    intro rank prevScore
    rw [denseRanks, denseRanksBy, ih, ih]
    split_ifs <;> rfl

/-! ## Survivors -/

theorem bestPerSource_spec {candidates : List (Candidate α)} :
    ((bestPerSource candidates).map Candidate.sourceName).Nodup ∧
      ∀ c ∈ bestPerSource candidates, c ∈ candidates := by
  rw [bestPerSource_eq]
  obtain ⟨hnodup, hbest, -⟩ :=
    bestPerKey_spec Candidate.sourceName replaces_preference candidates
  exact ⟨hnodup, fun c hc => (hbest c hc).mem⟩

/-! ## Ranks, order and independence -/

/-- The best candidates in the order of step (2). -/
def survivors (candidates : List (Candidate α)) : List (Candidate α) :=
  (bestPerSource candidates).insertionSort Candidate.before

theorem mem_survivors {candidates : List (Candidate α)} {c : Candidate α} :
    c ∈ survivors candidates ↔ c ∈ bestPerSource candidates :=
  List.mem_insertionSort _

theorem survivors_nodup (candidates : List (Candidate α)) :
    ((survivors candidates).map Candidate.sourceName).Nodup :=
  ((List.perm_insertionSort _ _).map _).nodup_iff.mpr bestPerSource_spec.1

/-- Every survivor is ranked by the distinct scores of all survivors. -/
theorem selectMatches_all (candidates : List (Candidate α)) :
    selectMatches candidates .all = (survivors candidates).map fun c =>
      { candidate := c
        matchRank := rankIn ((survivors candidates).map Candidate.score) c.score } := by
  have hsorted : (survivors candidates).Pairwise fun a b => b.score ≤ a.score := by
    refine (List.pairwise_insertionSort Candidate.before (bestPerSource candidates)).imp ?_
    intro a b h
    rcases before_iff.mp h with h | ⟨h, -⟩
    · exact h.le
    · exact h.le
  change denseRanks 0 none (survivors candidates) = _
  rw [denseRanks_eq, denseRanksBy_eq Candidate.score hsorted, List.map_map]
  rfl

theorem selectMatches_best (candidates : List (Candidate α)) :
    selectMatches candidates .best =
      (selectMatches candidates .all).filter fun r => decide (r.matchRank = 1) := rfl

/-- The survivors of either mode are among those of mode `All`. -/
theorem selectMatches_sublist (candidates : List (Candidate α)) (mode : MatchMode) :
    (selectMatches candidates mode).Sublist (selectMatches candidates .all) := by
  cases mode with
  | all => exact List.Sublist.refl _
  | best => exact List.filter_sublist

theorem mem_selectMatches {candidates : List (Candidate α)} {mode : MatchMode} {r : Ranked α}
    (h : r ∈ selectMatches candidates mode) : r.candidate ∈ candidates := by
  have hall := (selectMatches_sublist candidates mode).subset h
  rw [selectMatches_all] at hall
  obtain ⟨c, hc, rfl⟩ := List.mem_map.mp hall
  exact bestPerSource_spec.2 c (mem_survivors.mp hc)

theorem selectMatches_sources_nodup (candidates : List (Candidate α)) (mode : MatchMode) :
    ((selectMatches candidates mode).map fun r => r.candidate.sourceName).Nodup := by
  refine List.Nodup.sublist ((selectMatches_sublist candidates mode).map _) ?_
  rw [selectMatches_all, List.map_map]
  exact survivors_nodup candidates

/-- In mode `All` one best candidate of each source survives. -/
theorem selectMatches_all_spec (candidates : List (Candidate α)) :
    (∀ r ∈ selectMatches candidates .all,
      BestOf Candidate.sourceName Candidate.replaces candidates r.candidate) ∧
      ∀ c ∈ candidates, ∃ r ∈ selectMatches candidates .all,
        r.candidate.sourceName = c.sourceName := by
  obtain ⟨-, hbest, hkeys⟩ :=
    bestPerKey_spec Candidate.sourceName replaces_preference candidates
  rw [selectMatches_all]
  constructor
  · intro r hr
    obtain ⟨c, hc, rfl⟩ := List.mem_map.mp hr
    rw [mem_survivors, bestPerSource_eq] at hc
    exact hbest c hc
  · intro c hc
    obtain ⟨d, hd, hname⟩ := hkeys c hc
    rw [← bestPerSource_eq, ← mem_survivors] at hd
    exact ⟨_, List.mem_map_of_mem hd, hname⟩

/-- No two candidates are of one transaction of one source. -/
def DistinctCandidates (candidates : List (Candidate α)) : Prop :=
  (candidates.map fun c => (c.sourceName, c.txName)).Nodup

section Distinct

variable {candidates candidates' : List (Candidate α)}

theorem mem_bestPerSource (hdistinct : DistinctCandidates candidates) {c : Candidate α} :
    c ∈ bestPerSource candidates ↔
      BestOf Candidate.sourceName Candidate.replaces candidates c := by
  rw [bestPerSource_eq]
  refine mem_bestPerKey replaces_preference fun c hc d hd hname hcd hdc => ?_
  have hequal : c.txName = d.txName := by
    rcases replaces_eq_false_iff.mp hcd with h | ⟨h, hle⟩ <;>
      rcases replaces_eq_false_iff.mp hdc with h' | ⟨h', hle'⟩
    · omega
    · omega
    · omega
    · exact le_antisymm hle' hle
  exact List.inj_on_of_nodup_map hdistinct hc hd (Prod.ext hname hequal)

theorem bestPerSource_nodup (candidates : List (Candidate α)) : (bestPerSource candidates).Nodup :=
  bestPerSource_spec.1.of_map

/-- Two survivors of one score and one name are the same. -/
theorem before_antisymm {a b : Candidate α} (ha : a ∈ bestPerSource candidates)
    (hb : b ∈ bestPerSource candidates) (hab : a.before b) (hba : b.before a) : a = b := by
  have hname : a.sourceName = b.sourceName := by
    rcases before_iff.mp hab with h | ⟨h, hle⟩ <;> rcases before_iff.mp hba with h' | ⟨h', hle'⟩
    · omega
    · omega
    · omega
    · exact le_antisymm hle hle'
  exact List.inj_on_of_nodup_map bestPerSource_spec.1 ha hb hname

theorem survivors_perm (hdistinct : DistinctCandidates candidates)
    (h : candidates'.Perm candidates) : survivors candidates' = survivors candidates := by
  have hdistinct' : DistinctCandidates candidates' := (h.map _).nodup_iff.mpr hdistinct
  have hbest : (bestPerSource candidates').Perm (bestPerSource candidates) := by
    refine (List.perm_ext_iff_of_nodup (bestPerSource_nodup _) (bestPerSource_nodup _)).mpr ?_
    intro c
    rw [mem_bestPerSource hdistinct', mem_bestPerSource hdistinct]
    exact ⟨fun hc => ⟨h.subset hc.mem, fun d hd => hc.best d (h.symm.subset hd)⟩,
      fun hc => ⟨h.symm.subset hc.mem, fun d hd => hc.best d (h.subset hd)⟩⟩
  exact (insertionSort_congr (fun a ha b hb => before_antisymm ha hb) hbest).symm

/-- The result does not depend on the order in which the candidates were collected. -/
theorem selectMatches_perm (hdistinct : DistinctCandidates candidates)
    (h : candidates'.Perm candidates) (mode : MatchMode) :
    selectMatches candidates' mode = selectMatches candidates mode := by
  have hall : selectMatches candidates' .all = selectMatches candidates .all := by
    rw [selectMatches_all, selectMatches_all, survivors_perm hdistinct h]
  cases mode with
  | all => exact hall
  | best => rw [selectMatches_best, selectMatches_best, hall]

/-- Without the candidates of one source the others survive as before. -/
theorem survivors_without (hdistinct : DistinctCandidates candidates) (name : String) :
    survivors (candidates.filter fun c => decide (c.sourceName ≠ name)) =
      (survivors candidates).filter fun c => decide (c.sourceName ≠ name) := by
  have hdistinct' : DistinctCandidates (candidates.filter fun c => decide (c.sourceName ≠ name)) :=
    List.Nodup.sublist (List.filter_sublist.map _) hdistinct
  have hbest : (bestPerSource (candidates.filter fun c => decide (c.sourceName ≠ name))).Perm
      ((bestPerSource candidates).filter fun c => decide (c.sourceName ≠ name)) := by
    refine (List.perm_ext_iff_of_nodup (bestPerSource_nodup _)
      ((bestPerSource_nodup _).filter _)).mpr fun c => ?_
    rw [List.mem_filter, mem_bestPerSource hdistinct', mem_bestPerSource hdistinct,
      decide_eq_true_eq]
    constructor
    · rintro ⟨hmem, hbest⟩
      obtain ⟨hc, hname⟩ := List.mem_filter.mp hmem
      refine ⟨⟨hc, fun d hd hkey => hbest d ?_ hkey⟩, by simpa using hname⟩
      exact List.mem_filter.mpr ⟨hd, by rw [hkey]; exact hname⟩
    · rintro ⟨⟨hc, hbest⟩, hname⟩
      exact ⟨List.mem_filter.mpr ⟨hc, by simpa using hname⟩,
        fun d hd hkey => hbest d (List.mem_of_mem_filter hd) hkey⟩
  rw [survivors, survivors, ← insertionSort_filter fun a ha b hb => before_antisymm ha hb]
  refine (insertionSort_congr (fun a ha b hb => ?_) hbest).symm
  exact before_antisymm (List.mem_of_mem_filter ha) (List.mem_of_mem_filter hb)

end Distinct

/-! ## The specification -/

section Specification

variable {candidates : List (Candidate α)}

/-- `c` is the one candidate that its source keeps: of the highest score, and of the least
    `tx_name` among those. -/
structure KeptOfSource (candidates : List (Candidate α)) (c : Candidate α) : Prop where
  mem : c ∈ candidates
  score : ∀ d ∈ candidates, d.sourceName = c.sourceName → d.score ≤ c.score
  txName : ∀ d ∈ candidates, d.sourceName = c.sourceName → d.score = c.score → c.txName ≤ d.txName

/-- What `select_matches` is for: `all` and `best` are its results in the two modes. -/
structure SelectionSpec (candidates : List (Candidate α)) (all best : List (Ranked α)) : Prop where
  /-- One entry for each source. -/
  once : (all.map fun r => r.candidate.sourceName).Nodup
  sources : ∀ name, name ∈ all.map (fun r => r.candidate.sourceName) ↔
    name ∈ candidates.map Candidate.sourceName
  kept : ∀ r ∈ all, KeptOfSource candidates r.candidate
  /-- By score descending, then by source name ascending. -/
  sorted : all.Pairwise fun r r' => r'.candidate.score < r.candidate.score ∨
    (r'.candidate.score = r.candidate.score ∧ r.candidate.sourceName < r'.candidate.sourceName)
  /-- Equal scores share a rank and no rank is left out. -/
  rank : ∀ r ∈ all, r.matchRank =
    1 + ((all.map fun r' => r'.candidate.score).toFinset.filter (r.candidate.score < ·)).card
  best_eq : best = all.filter fun r => decide (∀ r' ∈ all, r'.candidate.score ≤ r.candidate.score)
  best_ne_nil : candidates ≠ [] → best ≠ []

theorem keptOfSource_of_bestOf {c : Candidate α}
    (h : BestOf Candidate.sourceName Candidate.replaces candidates c) :
    KeptOfSource candidates c := by
  have hworse : ∀ d ∈ candidates, d.sourceName = c.sourceName →
      d.score < c.score ∨ (d.score = c.score ∧ c.txName ≤ d.txName) := fun d hd hname =>
    replaces_eq_false_iff.mp (h.best d hd hname)
  refine ⟨h.mem, fun d hd hname => ?_, fun d hd hname hscore => ?_⟩
  · rcases hworse d hd hname with hlt | ⟨heq, -⟩
    · exact hlt.le
    · exact heq.le
  · rcases hworse d hd hname with hlt | ⟨-, hle⟩
    · exact absurd hscore hlt.ne
    · exact hle

theorem map_score_selectMatches (candidates : List (Candidate α)) :
    (selectMatches candidates .all).map (fun r => r.candidate.score) =
      (survivors candidates).map Candidate.score := by
  rw [selectMatches_all, List.map_map]
  rfl

theorem matchRank_eq_rankIn {r : Ranked α} (hr : r ∈ selectMatches candidates .all) :
    r.matchRank = rankIn ((survivors candidates).map Candidate.score) r.candidate.score ∧
      r.candidate.score ∈ (survivors candidates).map Candidate.score := by
  rw [selectMatches_all] at hr
  obtain ⟨c, hc, rfl⟩ := List.mem_map.mp hr
  exact ⟨rfl, List.mem_map_of_mem hc⟩

/-- The ranks stay in `u32` as long as the number of sources does. -/
theorem matchRank_le_length {r : Ranked α} (hr : r ∈ selectMatches candidates .all) :
    r.matchRank ≤ (selectMatches candidates .all).length := by
  have hlen := congrArg List.length (map_score_selectMatches candidates)
  rw [List.length_map] at hlen
  rw [(matchRank_eq_rankIn hr).1, hlen]
  exact (Finset.card_filter_le _ _).trans (List.toFinset_card_le _)

/-- The entries are in strict order: two survivors of one score differ in their source. -/
theorem selectMatches_sorted (candidates : List (Candidate α)) :
    (selectMatches candidates .all).Pairwise fun r r' =>
      r'.candidate.score < r.candidate.score ∨ (r'.candidate.score = r.candidate.score ∧
        r.candidate.sourceName < r'.candidate.sourceName) := by
  have hsorted := List.pairwise_insertionSort Candidate.before (bestPerSource candidates)
  have hnames : (survivors candidates).Pairwise fun a b => a.sourceName ≠ b.sourceName :=
    List.pairwise_map.mp (survivors_nodup candidates)
  rw [selectMatches_all, List.pairwise_map]
  refine (hsorted.and hnames).imp fun {a b} h => ?_
  obtain ⟨hbefore, hne⟩ := h
  exact (before_iff.mp hbefore).imp_right fun h => ⟨h.1, lt_of_le_of_ne h.2 hne⟩

/-- Rank 1 is that of the highest score among the entries. -/
theorem matchRank_eq_one_iff_highest {r : Ranked α} (hr : r ∈ selectMatches candidates .all) :
    r.matchRank = 1 ↔
      ∀ r' ∈ selectMatches candidates .all, r'.candidate.score ≤ r.candidate.score := by
  obtain ⟨hrank, hmem⟩ := matchRank_eq_rankIn hr
  rw [hrank, rankIn_eq_one_iff hmem, ← map_score_selectMatches, List.forall_mem_map]

/-- The first entry has the highest score. -/
theorem selectMatches_best_ne_nil (h : candidates ≠ []) :
    selectMatches candidates .best ≠ [] := by
  obtain ⟨c, hc⟩ := List.exists_mem_of_ne_nil _ h
  obtain ⟨r, hr, -⟩ := (selectMatches_all_spec candidates).2 c hc
  have hsorted := selectMatches_sorted candidates
  cases hall : selectMatches candidates .all with
  | nil => rw [hall] at hr; cases hr
  | cons first rest =>
    have hfirst : first ∈ selectMatches candidates .all := by rw [hall]; exact List.mem_cons_self
    have hone : first.matchRank = 1 := by
      refine (matchRank_eq_one_iff_highest hfirst).mpr fun r' hr' => ?_
      rw [hall] at hr' hsorted
      rcases List.mem_cons.mp hr' with rfl | hr'
      · exact le_rfl
      · rcases (List.pairwise_cons.mp hsorted).1 r' hr' with hlt | ⟨heq, -⟩
        · exact hlt.le
        · exact heq.le
    rw [selectMatches_best]
    exact List.ne_nil_of_mem (List.mem_filter.mpr ⟨hfirst, decide_eq_true hone⟩)

/-- **`select_matches` meets its specification**, in any order of the candidates. -/
theorem selectMatches_meets_spec (candidates : List (Candidate α))
    (hdistinct : DistinctCandidates candidates) :
    SelectionSpec candidates (selectMatches candidates .all) (selectMatches candidates .best) ∧
      ∀ (candidates' : List (Candidate α)) (mode : MatchMode), candidates'.Perm candidates →
        selectMatches candidates' mode = selectMatches candidates mode := by
  obtain ⟨hbest, hsources⟩ := selectMatches_all_spec candidates
  refine ⟨⟨selectMatches_sources_nodup candidates .all, fun name => ?_,
    fun r hr => keptOfSource_of_bestOf (hbest r hr), selectMatches_sorted candidates,
    fun r hr => ?_, ?_, selectMatches_best_ne_nil⟩,
    fun candidates' mode h => selectMatches_perm hdistinct h mode⟩
  · constructor
    · intro hname
      obtain ⟨r, hr, rfl⟩ := List.mem_map.mp hname
      exact List.mem_map_of_mem (hbest r hr).mem
    · intro hname
      obtain ⟨c, hc, rfl⟩ := List.mem_map.mp hname
      obtain ⟨r, hr, hrname⟩ := hsources c hc
      exact List.mem_map.mpr ⟨r, hr, hrname⟩
  · obtain ⟨hrank, hmem⟩ := matchRank_eq_rankIn hr
    rw [hrank, rankIn_eq_card_higher hmem, map_score_selectMatches]
  · rw [selectMatches_best]
    refine List.filter_congr fun r hr => ?_
    rw [decide_eq_decide]
    exact matchRank_eq_one_iff_highest hr

end Specification

/-- Five candidates of three sources: a better transaction in `dex`, a tie within `vault` and
    one across sources. -/
def Sample.candidates : List (Candidate Unit) :=
  [⟨"vault", "unlock", 5, ()⟩, ⟨"dex", "swap", 3, ()⟩, ⟨"vault", "lock", 5, ()⟩,
    ⟨"dex", "limit", 5, ()⟩, ⟨"bridge", "send", 2, ()⟩]

theorem selectMatches_meets_spec_sample :
    SelectionSpec Sample.candidates (selectMatches Sample.candidates .all)
        (selectMatches Sample.candidates .best) ∧
      selectMatches Sample.candidates.reverse .best = selectMatches Sample.candidates .best := by
  have hdistinct : DistinctCandidates Sample.candidates := by
    simp [DistinctCandidates, Sample.candidates]
  obtain ⟨hspec, hperm⟩ := selectMatches_meets_spec Sample.candidates hdistinct
  exact ⟨hspec, hperm _ .best (List.reverse_perm _)⟩

end Tx3Lift
