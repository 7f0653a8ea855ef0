import Tx3Lift.Core.Strengthen

/-!
# Kinds of expressions

Model of `classify` (`crates/tx3-lift/src/expr.rs`, lines 3–65): constant, driven by a parameter, or
computed.

* `combine_eq_const`, `combine_eq_computed`: the worst kind of a list counts.
* `classify_of_constAddress`, …: every constant that is read off an expression is of kind `const`.
* `classify_stable`: setting parameters changes no constant expression and keeps computed ones.
-/

namespace Tx3Lift

open Lib Tir

/-! ## Model -/

/-- `ExprKind`. -/
inductive ExprKind where
  | const
  | paramDriven
  | computed
deriving DecidableEq

/-- The body of the loop of `combine`. -/
def ExprKind.join : ExprKind → ExprKind → ExprKind
  | .const, .const => .const
  | _, .computed => .computed
  | .computed, _ => .computed
  | _, _ => .paramDriven

/-- `combine` (lines 54–64). -/
def combine (kinds : List ExprKind) : ExprKind := kinds.foldl ExprKind.join .const

mutual

/-- `classify` (lines 10–52). The operands of computed expressions and the queries of inputs are not
    visited. -/
def classify : Expression → ExprKind
  | .none => .const
  | .bytes _ => .const
  | .number _ => .const
  | .bool _ => .const
  | .string _ => .const
  | .address _ => .const
  | .hash _ => .const
  | .utxoRefs _ => .const
  | .utxoSet => .const
  | .list xs => combine (classifyAll xs)
  | .map pairs => combine (classifyPairs pairs)
  | .tuple elements => combine (classifyAll elements)
  | .struct _ fields => combine (classifyAll fields)
  | .assets assets => combine (classifyAssets assets)
  | .evalParam (.set inner) => classify inner
  | .evalParam (.expectValue _) => .paramDriven
  | .evalParam (.expectInput _ _) => .paramDriven
  | .evalParam .expectFees => .paramDriven
  | .evalBuiltIn _ => .computed
  | .evalCompiler _ => .computed
  | .evalCoerce _ => .computed
  | .adHocDirective => .computed

/-- `xs.iter().map(classify)`. -/
def classifyAll : List Expression → List ExprKind
  | [] => []
  | x :: xs => classify x :: classifyAll xs

/-- The `Expression::Map` arm: keys and values in turn. -/
def classifyPairs : List (Expression × Expression) → List ExprKind
  | [] => []
  | (k, v) :: pairs => classify k :: classify v :: classifyPairs pairs

/-- The `Expression::Assets` arm: policy, name and amount of each asset. -/
def classifyAssets : List AssetExpr → List ExprKind
  | [] => []
  | ⟨policy, assetName, amount⟩ :: assets =>
    classify policy :: classify assetName :: classify amount :: classifyAssets assets

end

/-! ## The worst kind -/

section Combine

variable {kinds : List ExprKind}

theorem combine_concat (kinds : List ExprKind) (k : ExprKind) :
    combine (kinds ++ [k]) = (combine kinds).join k := by
  rw [combine, List.foldl_append]
  rfl

theorem join_eq_const {k l : ExprKind} : k.join l = .const ↔ k = .const ∧ l = .const := by
  cases k <;> cases l <;> decide

theorem join_eq_computed {k l : ExprKind} :
    k.join l = .computed ↔ k = .computed ∨ l = .computed := by
  cases k <;> cases l <;> decide

theorem combine_eq_const : combine kinds = .const ↔ ∀ k ∈ kinds, k = .const := by
  induction kinds using List.reverseRecOn with
  | nil => simp [combine]
  | append_singleton kinds k ih => rw [combine_concat, join_eq_const, ih]; simp [or_imp, forall_and]

theorem combine_eq_computed : combine kinds = .computed ↔ .computed ∈ kinds := by
  induction kinds using List.reverseRecOn with
  | nil => simp [combine]
  | append_singleton kinds k ih =>
    rw [combine_concat, join_eq_computed, ih]
    simp [eq_comm]

end Combine

/-! ## What setting parameters does -/

/-- The kinds after setting parameters: if all were constant nothing was set, and what was computed
    still is. -/
structure KindsKept {α : Type} (kinds : α → List ExprKind) (x x' : α) : Prop where
  const : (∀ k ∈ kinds x, k = .const) → x' = x
  computed : .computed ∈ kinds x → .computed ∈ kinds x'

/-- What setting parameters in an expression does to its kind. -/
def Kept (e e' : Expression) : Prop := KindsKept (fun e => [classify e]) e e'

theorem kept_iff {e e' : Expression} : Kept e e' ↔
    (classify e = .const → e' = e) ∧ (classify e = .computed → classify e' = .computed) := by
  constructor
  · intro h
    exact ⟨by simpa using h.const, by simpa [eq_comm] using h.computed⟩
  · rintro ⟨hconst, hcomputed⟩
    exact ⟨by simpa using hconst, by simpa [eq_comm] using hcomputed⟩

/-- A list of parts whose kinds stand side by side. -/
theorem KindsKept.append {α β γ : Type} {kinds : α → List ExprKind} {rest : β → List ExprKind}
    {all : γ → List ExprKind} {x x' : α} {xs xs' : β} {y y' : γ} (hx : KindsKept kinds x x')
    (hxs : KindsKept rest xs xs') (hy : all y = kinds x ++ rest xs)
    (hy' : all y' = kinds x' ++ rest xs') (heq : x' = x → xs' = xs → y' = y) :
    KindsKept all y y' := by
  constructor
  · intro h
    rw [hy] at h
    exact heq (hx.const fun k hk => h k (List.mem_append_left _ hk))
      (hxs.const fun k hk => h k (List.mem_append_right _ hk))
  · intro h
    rw [hy, List.mem_append] at h
    rw [hy', List.mem_append]
    exact h.imp hx.computed hxs.computed

theorem classifyAll_kept {xs xs' : List Expression} (h : List.Forall₂ Expression.Sets xs xs')
    (ih : ∀ x ∈ xs, ∀ x', x.Sets x' → Kept x x') : KindsKept classifyAll xs xs' := by
  induction h with
  | nil => exact ⟨fun _ => rfl, id⟩
  | @cons x x' xs xs' hx _ ihxs =>
    refine (ih x List.mem_cons_self x' hx).append
      (ihxs fun y hy => ih y (List.mem_cons_of_mem x hy)) ?_ ?_ ?_
    · rw [classifyAll]; rfl
    · rw [classifyAll]; rfl
    · rintro rfl rfl; rfl

theorem classifyPairs_kept {ps ps' : List (Expression × Expression)}
    (h : List.Forall₂ (PairSets Expression.Sets) ps ps')
    (ih : ∀ p ∈ ps, ∀ p', PairSets Expression.Sets p p' → Kept p.1 p'.1 ∧ Kept p.2 p'.2) :
    KindsKept classifyPairs ps ps' := by
  induction h with
  | nil => exact ⟨fun _ => rfl, id⟩
  | @cons p p' ps ps' hp _ ihps =>
    obtain ⟨hkey, hvalue⟩ := ih p List.mem_cons_self p' hp
    have hboth : KindsKept (fun p : Expression × Expression => [classify p.1, classify p.2]) p p' :=
      hkey.append hvalue rfl rfl Prod.ext
    refine hboth.append (ihps fun q hq => ih q (List.mem_cons_of_mem p hq)) ?_ ?_ ?_
    · rw [classifyPairs]; rfl
    · rw [classifyPairs]; rfl
    · rintro rfl rfl; rfl

theorem classifyAssets_cons (a : AssetExpr) (as : List AssetExpr) :
    classifyAssets (a :: as) =
      [classify a.policy, classify a.assetName, classify a.amount] ++ classifyAssets as := by
  obtain ⟨policy, assetName, amount⟩ := a
  rw [classifyAssets]
  rfl

theorem classifyAssets_kept {as as' : List AssetExpr}
    (h : List.Forall₂ (AssetSets Expression.Sets) as as')
    (ih : ∀ a ∈ as, ∀ a', AssetSets Expression.Sets a a' →
      Kept a.policy a'.policy ∧ Kept a.assetName a'.assetName ∧ Kept a.amount a'.amount) :
    KindsKept classifyAssets as as' := by
  induction h with
  | nil => exact ⟨fun _ => rfl, id⟩
  | @cons a a' as as' ha _ ihas =>
    obtain ⟨hpolicy, hname, hamount⟩ := ih a List.mem_cons_self a' ha
    have hpair : KindsKept (fun e : Expression × Expression => [classify e.1, classify e.2])
        (a.assetName, a.amount) (a'.assetName, a'.amount) :=
      hname.append hamount rfl rfl fun hn ha => by rw [hn, ha]
    have hasset : KindsKept (fun a : AssetExpr =>
        [classify a.policy, classify a.assetName, classify a.amount]) a a' := by
      refine hpolicy.append hpair rfl rfl fun hp he => ?_
      obtain ⟨policy, assetName, amount⟩ := a
      obtain ⟨policy', assetName', amount'⟩ := a'
      cases hp
      cases he
      rfl
    refine hasset.append (ihas fun b hb => ih b (List.mem_cons_of_mem a hb)) ?_ ?_ ?_
    · exact classifyAssets_cons a as
    · exact classifyAssets_cons a' as'
    · rintro rfl rfl; rfl

/-- An expression with the kind of a list of parts. -/
theorem KindsKept.kept {α : Type} {kinds : α → List ExprKind} {x x' : α} {node : α → Expression}
    (h : KindsKept kinds x x') (hnode : ∀ y, classify (node y) = combine (kinds y)) :
    Kept (node x) (node x') := by
  refine kept_iff.mpr ⟨fun hconst => ?_, fun hcomputed => ?_⟩
  · rw [hnode, combine_eq_const] at hconst
    rw [h.const hconst]
  · rw [hnode, combine_eq_computed] at hcomputed ⊢
    exact h.computed hcomputed

/-- Constant expressions stay what they are, and computed ones stay computed. -/
theorem kept_of_sets {e e' : Expression} (h : e.Sets e') : Kept e e' := by
  cases h with
  | same => exact ⟨fun _ => rfl, id⟩
  | @list xs xs' h =>
    have hall := classifyAll_kept h fun x hx x' hx' => kept_of_sets hx'
    exact hall.kept fun y => by rw [classify]
  | @tuple xs xs' h =>
    have hall := classifyAll_kept h fun x hx x' hx' => kept_of_sets hx'
    exact hall.kept fun y => by rw [classify]
  | @struct n xs xs' h =>
    have hall := classifyAll_kept h fun x hx x' hx' => kept_of_sets hx'
    exact hall.kept fun y => by rw [classify]
  | @map ps ps' h =>
    have hall := classifyPairs_kept h fun p hp p' hp' => by
      cases hp' with
      | @mk k k' v v' hkey hvalue =>
        have hsize : 1 + sizeOf k + sizeOf v < sizeOf ps := List.sizeOf_lt_of_mem hp
        exact ⟨kept_of_sets hkey, kept_of_sets hvalue⟩
    exact hall.kept fun y => by rw [classify]
  | @assets xs xs' h =>
    have hall := classifyAssets_kept h fun a ha a' ha' => by
      cases ha' with
      | @mk p p' n n' a a' hpolicy hname hamount =>
        have hsize : 1 + sizeOf p + sizeOf n + sizeOf a < sizeOf xs := List.sizeOf_lt_of_mem ha
        exact ⟨kept_of_sets hpolicy, kept_of_sets hname, kept_of_sets hamount⟩
    exact hall.kept fun y => by rw [classify]
  | evalBuiltIn h => exact kept_iff.mpr ⟨fun hconst => by simp [classify] at hconst, fun _ => rfl⟩
  | evalCompiler h => exact kept_iff.mpr ⟨fun hconst => by simp [classify] at hconst, fun _ => rfl⟩
  | evalCoerce h => exact kept_iff.mpr ⟨fun hconst => by simp [classify] at hconst, fun _ => rfl⟩
  | value name hc => exact kept_iff.mpr ⟨by simp [classify], by simp [classify]⟩
  | inner h =>
    obtain ⟨hconst, hcomputed⟩ := kept_iff.mp (kept_of_sets h)
    refine kept_iff.mpr ⟨fun hkind => ?_, fun hkind => ?_⟩
    · rw [classify] at hkind
      rw [hconst hkind]
    · rw [classify] at hkind ⊢
      exact hcomputed hkind
  | query name h1 h2 h3 h4 h5 => exact kept_iff.mpr ⟨by simp [classify], by simp [classify]⟩
termination_by sizeOf e

/-! ## What is read off an expression -/

theorem classify_peel (e : Expression) : classify (peel e) = classify e := by
  induction e using peel.induct with
  | case1 inner ih => rw [peel, ih, classify]
  | case2 e hnot =>
    congr 1
    unfold peel
    split
    · exact absurd rfl (hnot _)
    · rfl

/-- The `const_*` readers find something in constant expressions only. -/
theorem classify_of_read {e : Expression} (h : (constAddress e).isSome ∨ (constNumber e).isSome ∨
    (constBytes e).isSome ∨ (constUtxoRefs e).isSome) : classify e = .const := by
  rw [← classify_peel]
  rcases h with h | h | h | h
  · obtain ⟨a, ha⟩ := Option.isSome_iff_exists.mp h
    rw [constAddress_eq_some.mp ha, classify]
  · obtain ⟨n, hn⟩ := Option.isSome_iff_exists.mp h
    rw [constNumber_eq_some.mp hn, classify]
  · obtain ⟨b, hb⟩ := Option.isSome_iff_exists.mp h
    rcases constBytes_eq_some.mp hb with hb | hb
    · rw [hb, classify]
    · rw [hb, classify]
  · obtain ⟨refs, hrefs⟩ := Option.isSome_iff_exists.mp h
    rw [constUtxoRefs_eq_some.mp hrefs, classify]

/-- A query is read off a parameter only. -/
theorem classify_of_query {e : Expression} (h : (expectInputQuery e).isSome) :
    classify e = .paramDriven := by
  obtain ⟨query, hquery⟩ := Option.isSome_iff_exists.mp h
  obtain ⟨name, hname⟩ := expectInputQuery_eq_some.mp hquery
  rw [← classify_peel, hname, classify]

/-- **The kind of an expression says what arguments can still do.** Setting parameters, anywhere in
    it, changes nothing in a constant expression and leaves a computed one computed. What the
    matcher and the fingerprint read as a constant is constant, and what they read as an input query
    is driven by a parameter. -/
theorem classify_stable (e : Expression) :
    (classify e = .const → ∀ e', e.Sets e' → e' = e) ∧
    (classify e = .computed → ∀ e', e.Sets e' → classify e' = .computed) ∧
    ((constAddress e).isSome ∨ (constNumber e).isSome ∨ (constBytes e).isSome ∨
      (constUtxoRefs e).isSome → classify e = .const) ∧
    ((expectInputQuery e).isSome → classify e = .paramDriven) :=
  ⟨fun hconst _ h => (kept_iff.mp (kept_of_sets h)).1 hconst,
    fun hcomputed _ h => (kept_iff.mp (kept_of_sets h)).2 hcomputed, classify_of_read,
    classify_of_query⟩

end Tx3Lift
