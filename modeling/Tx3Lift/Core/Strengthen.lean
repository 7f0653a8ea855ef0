import Tx3Lift.Core.Fingerprint
import Tx3Lift.Lib.Lists

/-!
# Setting more parameters

A fingerprint is extracted from a template in which runtime parameters may still be open. Setting
any of them, wherever they occur, can only make the fingerprint ask for more.

* `Expression.Sets`: one expression comes from another by setting value parameters.
* `peel_sets`: under its layers of set parameters an expression keeps its shape, or it was an
  open parameter; every walker of `expr.rs` looks at that shape only.
* `constPoliciesIn_subset`, `constUtxoRefs_cases`, …: one lemma for each walker.
* `extract_strengthens`: the fingerprints.
-/

namespace Tx3Lift

open Lib Tir

/-! ## Setting value parameters -/

/-- What a value parameter may be set to: if it is a list of UTxO references, it has one. -/
def IsArgument (c : Expression) : Prop := ∀ refs, constUtxoRefs c = some refs → refs.length = 1

/-- The expression that `apply_args` puts in a set parameter. -/
def ArgValue.toExpression : ArgValue → Expression
  | .int n => .number n
  | .bool b => .bool b
  | .string s => .string s
  | .bytes b => .bytes b
  | .address b => .address b
  | .utxoRef r => .utxoRefs [r]
  | .utxoSet => .utxoSet

theorem isArgument_toExpression (v : ArgValue) : IsArgument v.toExpression := by
  intro refs h
  cases v with
  | utxoRef r =>
    cases h
    rfl
  | _ => cases h

/-- Keys and values of two map entries are related. -/
inductive PairSets (R : Expression → Expression → Prop) :
    Expression × Expression → Expression × Expression → Prop
  | mk {k k' v v' : Expression} (hkey : R k k') (hvalue : R v v') : PairSets R (k, v) (k', v')

/-- The parts of two assets are related. -/
inductive AssetSets (R : Expression → Expression → Prop) : AssetExpr → AssetExpr → Prop
  | mk {p p' n n' a a' : Expression} (hpolicy : R p p') (hname : R n n') (hamount : R a a') :
      AssetSets R ⟨p, n, a⟩ ⟨p', n', a'⟩

/-- The second expression comes from the first by setting any of its value parameters. -/
inductive Tir.Expression.Sets : Expression → Expression → Prop
  | same (e : Expression) : Sets e e
  | list {xs xs' : List Expression} (h : List.Forall₂ Sets xs xs') : Sets (.list xs) (.list xs')
  | map {ps ps' : List (Expression × Expression)} (h : List.Forall₂ (PairSets Sets) ps ps') :
      Sets (.map ps) (.map ps')
  | tuple {xs xs' : List Expression} (h : List.Forall₂ Sets xs xs') :
      Sets (.tuple xs) (.tuple xs')
  | struct {n : ℕ} {xs xs' : List Expression} (h : List.Forall₂ Sets xs xs') :
      Sets (.struct n xs) (.struct n xs')
  | assets {xs xs' : List AssetExpr} (h : List.Forall₂ (AssetSets Sets) xs xs') :
      Sets (.assets xs) (.assets xs')
  | evalBuiltIn {xs xs' : List Expression} (h : List.Forall₂ Sets xs xs') :
      Sets (.evalBuiltIn xs) (.evalBuiltIn xs')
  | evalCompiler {xs xs' : List Expression} (h : List.Forall₂ Sets xs xs') :
      Sets (.evalCompiler xs) (.evalCompiler xs')
  | evalCoerce {e e' : Expression} (h : Sets e e') : Sets (.evalCoerce e) (.evalCoerce e')
  | value (name : String) {c : Expression} (hc : IsArgument c) :
      Sets (.evalParam (.expectValue name)) (.evalParam (.set c))
  | inner {e e' : Expression} (h : Sets e e') :
      Sets (.evalParam (.set e)) (.evalParam (.set e'))
  | query (name : String) {q q' : InputQuery} (haddress : Sets q.address q'.address)
      (hmin : Sets q.minAmount q'.minAmount) (href : Sets q.ref q'.ref) (hmany : q'.many = q.many)
      (hcollateral : q'.collateral = q.collateral) :
      Sets (.evalParam (.expectInput name q)) (.evalParam (.expectInput name q'))

/-- The second template comes from the first by setting any of its value parameters. -/
structure Tir.Tx.Sets (t t' : Tir.Tx) : Prop where
  references : List.Forall₂ Expression.Sets t.references t'.references
  inputs : List.Forall₂ (fun i i' => Expression.Sets i.utxos i'.utxos) t.inputs t'.inputs
  outputs : List.Forall₂ (fun o o' => Expression.Sets o.address o'.address ∧
    Expression.Sets o.amount o'.amount ∧ o'.optional = o.optional) t.outputs t'.outputs
  validity : Option.Rel (fun v v' => Expression.Sets v.since v'.since ∧
    Expression.Sets v.till v'.till) t.validity t'.validity
  mints : List.Forall₂ (fun m m' => Expression.Sets m.amount m'.amount) t.mints t'.mints
  burns : List.Forall₂ (fun m m' => Expression.Sets m.amount m'.amount) t.burns t'.burns
  collateral : List.Forall₂ (fun c c' => Expression.Sets c.utxos c'.utxos)
    t.collateral t'.collateral
  signers : Option.Rel (fun s s' => List.Forall₂ Expression.Sets s.signers s'.signers)
    t.signers t'.signers
  metadata : List.Forall₂ (fun m m' => Expression.Sets m.key m'.key ∧
    Expression.Sets m.value m'.value) t.metadata t'.metadata

/-! ## Under the set parameters -/

/-- The expression under the layers of set parameters. -/
def peel : Expression → Expression
  | .evalParam (.set inner) => peel inner
  | e => e

/-- What setting parameters does to the expression under the layers: it is set further, or it
    was an open parameter. -/
theorem peel_sets {e : Expression} : ∀ {e' : Expression}, e.Sets e' →
    (peel e).Sets (peel e') ∨
      ∃ name c, peel e = .evalParam (.expectValue name) ∧ IsArgument c ∧ peel e' = peel c := by
  induction e using peel.induct with
  | case1 inner ih =>
    intro e' h
    cases h with
    | same => exact Or.inl (.same _)
    | inner h => simpa only [peel] using ih h
  | case2 e hnot =>
    intro e' h
    have hpeel : peel e = e := by
      unfold peel
      split
      · exact absurd rfl (hnot _)
      · rfl
    rw [hpeel]
    cases h with
    | same => exact Or.inl (by rw [hpeel]; exact .same _)
    | list h => exact Or.inl (.list h)
    | map h => exact Or.inl (.map h)
    | tuple h => exact Or.inl (.tuple h)
    | struct h => exact Or.inl (.struct h)
    | assets h => exact Or.inl (.assets h)
    | evalBuiltIn h => exact Or.inl (.evalBuiltIn h)
    | evalCompiler h => exact Or.inl (.evalCompiler h)
    | evalCoerce h => exact Or.inl (.evalCoerce h)
    | value name hc => exact Or.inr ⟨name, _, rfl, hc, rfl⟩
    | inner h => exact absurd rfl (hnot _)
    | query name h1 h2 h3 h4 h5 => exact Or.inl (.query name h1 h2 h3 h4 h5)

/-! ## The walkers -/

section Walkers

variable {e e' : Expression}

theorem constAddress_eq_some {a : ByteBuf} : constAddress e = some a ↔ peel e = .address a := by
  induction e using peel.induct with
  | case1 inner ih => rw [constAddress, peel, ih]
  | case2 e hnot => cases e <;> simp_all [constAddress, peel]

theorem constNumber_eq_some {n : ℤ} : constNumber e = some n ↔ peel e = .number n := by
  induction e using peel.induct with
  | case1 inner ih => rw [constNumber, peel, ih]
  | case2 e hnot => cases e <;> simp_all [constNumber, peel]

theorem constBytes_eq_some {b : ByteBuf} :
    constBytes e = some b ↔ peel e = .bytes b ∨ peel e = .hash b := by
  induction e using peel.induct with
  | case1 inner ih => rw [constBytes, peel, ih]
  | case2 e hnot => cases e <;> simp_all [constBytes, peel]

theorem constUtxoRefs_eq_some {refs : List Tir.UtxoRef} :
    constUtxoRefs e = some refs ↔ peel e = .utxoRefs refs := by
  induction e using peel.induct with
  | case1 inner ih => rw [constUtxoRefs, peel, ih]
  | case2 e hnot => cases e <;> simp_all [constUtxoRefs, peel]

theorem expectInputQuery_eq_some {query : InputQuery} :
    expectInputQuery e = some query ↔ ∃ name, peel e = .evalParam (.expectInput name query) := by
  induction e using peel.induct with
  | case1 inner ih => rw [expectInputQuery, peel, ih]
  | case2 e hnot =>
    cases e with
    | evalParam p => cases p <;> simp_all [expectInputQuery, peel]
    | _ => simp [expectInputQuery, peel]

/-- A shape that has no parameter in it stays under the layers. -/
theorem peel_eq_of_sets {x : Expression} (hx : ∀ y, x.Sets y → y = x)
    (hopen : ∀ name, x ≠ .evalParam (.expectValue name)) (he : peel e = x) (h : e.Sets e') :
    peel e' = x := by
  rcases peel_sets h with h | ⟨name, c, hname, -, -⟩
  · rw [he] at h
    exact hx _ h
  · exact absurd (he.symm.trans hname) (hopen name)

theorem constAddress_sets (h : e.Sets e') {a : ByteBuf} (ha : constAddress e = some a) :
    constAddress e' = some a := by
  rw [constAddress_eq_some] at ha ⊢
  exact peel_eq_of_sets (fun y hy => by cases hy; rfl) (by simp) ha h

theorem constNumber_sets (h : e.Sets e') {n : ℤ} (hn : constNumber e = some n) :
    constNumber e' = some n := by
  rw [constNumber_eq_some] at hn ⊢
  exact peel_eq_of_sets (fun y hy => by cases hy; rfl) (by simp) hn h

theorem constBytes_sets (h : e.Sets e') {b : ByteBuf} (hb : constBytes e = some b) :
    constBytes e' = some b := by
  rw [constBytes_eq_some] at hb ⊢
  rcases hb with hb | hb
  · exact Or.inl (peel_eq_of_sets (fun y hy => by cases hy; rfl) (by simp) hb h)
  · exact Or.inr (peel_eq_of_sets (fun y hy => by cases hy; rfl) (by simp) hb h)

/-- A constant list of references stays; what becomes one is a single reference. -/
theorem constUtxoRefs_cases (h : e.Sets e') : constUtxoRefs e' = constUtxoRefs e ∨
    (constUtxoRefs e = none ∧ ∃ r, constUtxoRefs e' = some [r]) := by
  cases hrefs : constUtxoRefs e with
  | some refs =>
    rw [constUtxoRefs_eq_some] at hrefs
    refine Or.inl (constUtxoRefs_eq_some.mpr ?_)
    exact peel_eq_of_sets (fun y hy => by cases hy; rfl) (by simp) hrefs h
  | none =>
    cases hrefs' : constUtxoRefs e' with
    | none => exact Or.inl rfl
    | some refs' =>
      have hpeel' : peel e' = .utxoRefs refs' := constUtxoRefs_eq_some.mp hrefs'
      rcases peel_sets h with h | ⟨name, c, -, hc, hset⟩
      · -- nothing but the list itself is set to a list of references
        rw [hpeel'] at h
        generalize hx : peel e = x at h
        cases h
        rw [constUtxoRefs_eq_some.mpr hx] at hrefs
        cases hrefs
      · have hone : refs'.length = 1 :=
          hc refs' (constUtxoRefs_eq_some.mpr (hset.symm.trans hpeel'))
        obtain ⟨r, rfl⟩ := List.length_eq_one_iff.mp hone
        exact Or.inr ⟨rfl, r, rfl⟩

theorem expectInputQuery_sets (h : e.Sets e') {query : InputQuery}
    (hquery : expectInputQuery e = some query) :
    ∃ query', expectInputQuery e' = some query' ∧ query.address.Sets query'.address ∧
      query.minAmount.Sets query'.minAmount ∧ query'.many = query.many := by
  obtain ⟨name, hname⟩ := expectInputQuery_eq_some.mp hquery
  rcases peel_sets h with h | ⟨name', c, hname', -, -⟩
  · rw [hname] at h
    generalize hx : peel e' = x at h
    cases h with
    | same => exact ⟨query, expectInputQuery_eq_some.mpr ⟨name, hx⟩, .same _, .same _, rfl⟩
    | query _ haddress hmin _ hmany _ =>
      exact ⟨_, expectInputQuery_eq_some.mpr ⟨name, hx⟩, haddress, hmin, hmany⟩
  · rw [hname] at hname'
    cases hname'

theorem constPolicy_sets {a a' : AssetExpr} (h : AssetSets Expression.Sets a a') {p : ByteBuf}
    (hp : a.constPolicy = some p) : a'.constPolicy = some p := by
  obtain ⟨hpolicy, -, -⟩ := h
  unfold AssetExpr.constPolicy at hp ⊢
  rw [Option.filter_eq_some_iff] at hp ⊢
  exact ⟨constBytes_sets hpolicy hp.1, hp.2⟩

/-- No policy is lost. -/
theorem constPoliciesIn_subset : ∀ {e' : Expression}, e.Sets e' →
    constPoliciesIn e ⊆ constPoliciesIn e' := by
  refine constPoliciesIn.induct (fun e => ∀ {e' : Expression}, e.Sets e' →
    constPoliciesIn e ⊆ constPoliciesIn e') (fun xs => ∀ {xs' : List Expression},
      List.Forall₂ Expression.Sets xs xs' → constPoliciesInList xs ⊆ constPoliciesInList xs')
    ?_ ?_ ?_ ?_ ?_ ?_ e
  · intro xs e' h
    cases h with
    | same => exact List.Subset.refl _
    | assets h =>
      simpa only [constPoliciesIn] using
        filterMap_subset_of_forall₂ h fun _ _ ha _ hp => constPolicy_sets ha hp
  · intro xs ih e' h
    cases h with
    | same => exact List.Subset.refl _
    | list h => simpa only [constPoliciesIn] using ih h
  · intro inner ih e' h
    cases h with
    | same => exact List.Subset.refl _
    | inner h => simpa only [constPoliciesIn] using ih h
  · -- no other expression has policies
    intro e h1 h2 h3 e' _
    rw [constPoliciesIn]
    · exact List.nil_subset _
    · exact h1
    · exact h2
    · exact h3
  · intro xs' _
    exact List.nil_subset _
  · intro x xs ihx ihxs xs' h
    obtain ⟨x', xs'', hx, hxs, rfl⟩ := List.forall₂_cons_left_iff.mp h
    rw [constPoliciesInList, constPoliciesInList]
    exact List.append_subset.mpr ⟨List.subset_append_of_subset_left _ (ihx hx),
      List.subset_append_of_subset_right _ (ihxs hxs)⟩

end Walkers

/-! ## What the items of a template contribute -/

section Items

variable {i i' : Tir.Input} {e e' : Expression}

theorem queryAddress_sets (h : i.utxos.Sets i'.utxos) {a : ByteBuf} (ha : i.queryAddress = some a) :
    i'.queryAddress = some a := by
  obtain ⟨query, hquery, haddr⟩ := Option.bind_eq_some_iff.mp ha
  obtain ⟨query', hquery', haddress, -, -⟩ := expectInputQuery_sets h hquery
  exact Option.bind_eq_some_iff.mpr ⟨query', hquery', constAddress_sets haddress haddr⟩

theorem queryPolicies_subset (h : i.utxos.Sets i'.utxos) : i.queryPolicies ⊆ i'.queryPolicies := by
  unfold Tir.Input.queryPolicies
  cases hquery : expectInputQuery i.utxos with
  | none => exact List.nil_subset _
  | some query =>
    obtain ⟨query', hquery', -, hmin, -⟩ := expectInputQuery_sets h hquery
    rw [hquery']
    exact constPoliciesIn_subset hmin

theorem pinnedRefs_subset (h : e.Sets e') : pinnedRefs e ⊆ pinnedRefs e' := by
  unfold pinnedRefs
  rcases constUtxoRefs_cases h with heq | ⟨hnone, -⟩
  · rw [heq]
    exact List.Subset.refl _
  · rw [hnone]
    exact List.nil_subset _

/-- An open reference counts as one, and so does what it is set to. -/
theorem referenceDemand_sets (h : e.Sets e') : referenceDemand e' = referenceDemand e := by
  unfold referenceDemand
  rcases constUtxoRefs_cases h with heq | ⟨hnone, r, hr⟩
  · rw [heq]
  · rw [hnone, hr]
    rfl

theorem isSingle_sets (h : i.utxos.Sets i'.utxos) (hi : i.isSingle = true) :
    i'.isSingle = true := by
  unfold Tir.Input.isSingle at hi ⊢
  cases hquery : expectInputQuery i.utxos with
  | none =>
    rw [hquery] at hi
    cases hi
  | some query =>
    obtain ⟨query', hquery', -, -, hmany⟩ := expectInputQuery_sets h hquery
    rw [hquery] at hi
    rw [hquery']
    dsimp only
    rw [hmany]
    exact hi

theorem demand_le (h : i.utxos.Sets i'.utxos) : i.demand ≤ i'.demand := by
  rcases constUtxoRefs_cases h with heq | ⟨hnone, r, hr⟩
  · cases hrefs : constUtxoRefs i.utxos with
    | some refs => rw [demand_of_refs hrefs, demand_of_refs (heq.trans hrefs)]
    | none =>
      rw [demand_of_none hrefs, demand_of_none (heq.trans hrefs)]
      by_cases hi : i.isSingle = true
      · rw [if_pos hi, if_pos (isSingle_sets h hi)]
      · rw [if_neg hi]
        exact Nat.zero_le _
  · -- an open input is set to one reference
    rw [demand_of_none hnone, demand_of_refs hr]
    by_cases hi : i.isSingle = true
    · rw [if_pos hi]
      rfl
    · rw [if_neg hi]
      exact Nat.zero_le _

end Items

/-! ## What a template contributes -/

section Templates

variable {t t' : Tir.Tx}

theorem Tir.Tx.Sets.valuePolicies_subset (h : t.Sets t') :
    t.inputs.flatMap Tir.Input.queryPolicies ++
        t.outputs.flatMap (fun o => constPoliciesIn o.amount) ⊆
      t'.inputs.flatMap Tir.Input.queryPolicies ++
        t'.outputs.flatMap fun o => constPoliciesIn o.amount :=
  List.append_subset.mpr
    ⟨List.subset_append_of_subset_left _
      (flatMap_subset_of_forall₂ h.inputs fun _ _ hi => queryPolicies_subset hi),
    List.subset_append_of_subset_right _
      (flatMap_subset_of_forall₂ h.outputs fun _ _ ho => constPoliciesIn_subset ho.2.1)⟩

theorem Tir.Tx.Sets.signerKeys_subset (h : t.Sets t') :
    (t.signers.map fun s => s.signers.filterMap constBytes).getD [] ⊆
      (t'.signers.map fun s => s.signers.filterMap constBytes).getD [] := by
  have hrel := h.signers
  cases hs : t.signers with
  | none => exact List.nil_subset _
  | some s =>
    rw [hs] at hrel
    generalize t'.signers = o at hrel
    cases hrel with
    | some hrel =>
      exact filterMap_subset_of_forall₂ hrel fun _ _ hk _ hb => constBytes_sets hk hb

theorem Tir.Tx.Sets.metadataLabels_subset (h : t.Sets t') :
    t.metadata.filterMap metadataLabel ⊆ t'.metadata.filterMap metadataLabel := by
  refine filterMap_subset_of_forall₂ h.metadata fun m m' hm label hlabel => ?_
  obtain ⟨n, hn, hlabel⟩ := Option.bind_eq_some_iff.mp hlabel
  exact Option.bind_eq_some_iff.mpr ⟨n, constNumber_sets hm.1 hn, hlabel⟩

theorem Tir.Tx.Sets.validity_isSome (h : t.Sets t') (hv : t.validity.isSome = true) :
    t'.validity.isSome = true := by
  have hrel := h.validity
  cases hs : t.validity with
  | none => rw [hs] at hv; cases hv
  | some v =>
    rw [hs] at hrel
    generalize t'.validity = o at hrel ⊢
    cases hrel
    rfl

end Templates

/-! ## Fingerprints -/

/-- `fp'` requires all that `fp` requires, and at least as many of everything. -/
structure Fingerprint.WeakerThan (fp fp' : Fingerprint) : Prop where
  inputAddresses : ∀ a ∈ fp.requiredInputAddresses, a ∈ fp'.requiredInputAddresses
  outputAddresses : ∀ a ∈ fp.requiredOutputAddresses, a ∈ fp'.requiredOutputAddresses
  inputRefs : ∀ r ∈ fp.requiredInputRefs, r ∈ fp'.requiredInputRefs
  referenceRefs : ∀ r ∈ fp.requiredReferenceRefs, r ∈ fp'.requiredReferenceRefs
  mintPolicies : ∀ p ∈ fp.requiredMintPolicies, p ∈ fp'.requiredMintPolicies
  burnPolicies : ∀ p ∈ fp.requiredBurnPolicies, p ∈ fp'.requiredBurnPolicies
  valuePolicies : ∀ p ∈ fp.requiredValuePolicies, p ∈ fp'.requiredValuePolicies
  signers : ∀ k ∈ fp.requiredSigners, k ∈ fp'.requiredSigners
  metadataLabels : ∀ l ∈ fp.requiredMetadataLabels, l ∈ fp'.requiredMetadataLabels
  minInputs : fp.minInputs ≤ fp'.minInputs
  minOutputs : fp.minOutputs ≤ fp'.minOutputs
  minMints : fp.minMints ≤ fp'.minMints
  minBurns : fp.minBurns ≤ fp'.minBurns
  minCollateral : fp.minCollateral ≤ fp'.minCollateral
  minReferences : fp.minReferences ≤ fp'.minReferences
  hasValidity : fp.hasValidity = true → fp'.hasValidity = true
  extras : fp.extras = fp'.extras

/-- What the stronger fingerprint accepts the weaker one accepts. -/
theorem Fingerprint.WeakerThan.matchesSummary {fp fp' : Fingerprint} (h : fp.WeakerThan fp')
    {summary : PayloadSummary} (hmatch : fp'.matchesSummary summary = true) :
    fp.matchesSummary summary = true := by
  rw [matchesSummary_iff] at hmatch ⊢
  exact
    { inputAddresses := fun a ha => hmatch.inputAddresses a (h.inputAddresses a ha)
      outputAddresses := fun a ha => hmatch.outputAddresses a (h.outputAddresses a ha)
      inputRefs := fun r hr => hmatch.inputRefs r (h.inputRefs r hr)
      referenceRefs := fun r hr => hmatch.referenceRefs r (h.referenceRefs r hr)
      mintPolicies := fun p hp => hmatch.mintPolicies p (h.mintPolicies p hp)
      burnPolicies := fun p hp => hmatch.burnPolicies p (h.burnPolicies p hp)
      valuePolicies := fun p hp => hmatch.valuePolicies p (h.valuePolicies p hp)
      signers := fun k hk => hmatch.signers k (h.signers k hk)
      metadataLabels := fun l hl => hmatch.metadataLabels l (h.metadataLabels l hl)
      inputCount := h.minInputs.trans hmatch.inputCount
      outputCount := h.minOutputs.trans hmatch.outputCount
      mintCount := h.minMints.trans hmatch.mintCount
      burnCount := h.minBurns.trans hmatch.burnCount
      collateralCount := h.minCollateral.trans hmatch.collateralCount
      referenceCount := h.minReferences.trans hmatch.referenceCount
      validity := fun hv => hmatch.validity (h.hasValidity hv)
      extras := fun kv hkv => hmatch.extras kv (h.extras ▸ hkv) }

/-- **Setting parameters strengthens the fingerprint.** -/
theorem extract_strengthens (T : Tx3) (tii : TiiFile) (txName profileName : String)
    (t t' : Tir.Tx) (args args' : ArgMap) (fp fp' : Fingerprint) (h : t.Sets t')
    (hfp : extract T tii txName profileName t args = .ok fp)
    (hfp' : extract T tii txName profileName t' args' = .ok fp') :
    fp.WeakerThan fp' ∧
      ∀ summary, fp'.matchesSummary summary = true → fp.matchesSummary summary = true := by
  suffices hweaker : fp.WeakerThan fp' from
    ⟨hweaker, fun _ hmatch => hweaker.matchesSummary hmatch⟩
  cases extract_eq.symm.trans hfp
  cases extract_eq.symm.trans hfp'
  exact
    { inputAddresses := mem_insertMany_of_subset
        (filterMap_subset_of_forall₂ h.inputs fun _ _ hi _ ha => queryAddress_sets hi ha)
      outputAddresses := mem_insertMany_of_subset
        (filterMap_subset_of_forall₂ h.outputs fun _ _ ho _ ha => constAddress_sets ho.1 ha)
      inputRefs := mem_insertMany_of_subset (List.map_subset _
        (flatMap_subset_of_forall₂ h.inputs fun _ _ hi => pinnedRefs_subset hi))
      referenceRefs := mem_insertMany_of_subset (List.map_subset _
        (flatMap_subset_of_forall₂ h.references fun _ _ hr => pinnedRefs_subset hr))
      mintPolicies := mem_insertMany_of_subset
        (flatMap_subset_of_forall₂ h.mints fun _ _ hm => constPoliciesIn_subset hm)
      burnPolicies := mem_insertMany_of_subset
        (flatMap_subset_of_forall₂ h.burns fun _ _ hm => constPoliciesIn_subset hm)
      valuePolicies := mem_insertMany_of_subset h.valuePolicies_subset
      signers := mem_insertMany_of_subset h.signerKeys_subset
      metadataLabels := mem_insertMany_of_subset h.metadataLabels_subset
      minInputs := u16TryFrom_mono (sum_map_le_of_forall₂ h.inputs fun _ _ hi => demand_le hi)
      minOutputs := u16TryFrom_mono (sum_map_le_of_forall₂ h.outputs fun o o' ho => by
        rw [Tir.Output.demand, Tir.Output.demand, ho.2.2])
      minMints := by rw [h.mints.length_eq]
      minBurns := by rw [h.burns.length_eq]
      minCollateral := by rw [h.collateral.length_eq]
      minReferences := u16TryFrom_mono (sum_map_le_of_forall₂ h.references fun _ _ hr =>
        (referenceDemand_sets hr).ge)
      hasValidity := h.validity_isSome
      extras := rfl }

/-! ## A sample template

`lock` has one mandatory output, at the address of the party `vault`. -/

namespace Sample

/-- The encoded TIR of `lock`. -/
def lockCbor : ByteBuf :=
  [0xab, 0x64, 0x66, 0x65, 0x65, 0x73, 0x64, 0x4e, 0x6f, 0x6e, 0x65, 0x6a, 0x72, 0x65, 0x66, 0x65,
   0x72, 0x65, 0x6e, 0x63, 0x65, 0x73, 0x80, 0x66, 0x69, 0x6e, 0x70, 0x75, 0x74, 0x73, 0x80, 0x67,
   0x6f, 0x75, 0x74, 0x70, 0x75, 0x74, 0x73, 0x81, 0xa4, 0x67, 0x61, 0x64, 0x64, 0x72, 0x65, 0x73,
   0x73, 0xa1, 0x69, 0x45, 0x76, 0x61, 0x6c, 0x50, 0x61, 0x72, 0x61, 0x6d, 0xa1, 0x6b, 0x45, 0x78,
   0x70, 0x65, 0x63, 0x74, 0x56, 0x61, 0x6c, 0x75, 0x65, 0x82, 0x65, 0x76, 0x61, 0x75, 0x6c, 0x74,
   0x67, 0x41, 0x64, 0x64, 0x72, 0x65, 0x73, 0x73, 0x65, 0x64, 0x61, 0x74, 0x75, 0x6d, 0x64, 0x4e,
   0x6f, 0x6e, 0x65, 0x66, 0x61, 0x6d, 0x6f, 0x75, 0x6e, 0x74, 0x64, 0x4e, 0x6f, 0x6e, 0x65, 0x68,
   0x6f, 0x70, 0x74, 0x69, 0x6f, 0x6e, 0x61, 0x6c, 0xf4, 0x68, 0x76, 0x61, 0x6c, 0x69, 0x64, 0x69,
   0x74, 0x79, 0xf6, 0x65, 0x6d, 0x69, 0x6e, 0x74, 0x73, 0x80, 0x65, 0x62, 0x75, 0x72, 0x6e, 0x73,
   0x80, 0x65, 0x61, 0x64, 0x68, 0x6f, 0x63, 0x80, 0x6a, 0x63, 0x6f, 0x6c, 0x6c, 0x61, 0x74, 0x65,
   0x72, 0x61, 0x6c, 0x80, 0x67, 0x73, 0x69, 0x67, 0x6e, 0x65, 0x72, 0x73, 0xf6, 0x68, 0x6d, 0x65,
   0x74, 0x61, 0x64, 0x61, 0x74, 0x61, 0x80]

/-- `serde_json` on an address, in an expression and in an argument alike. -/
def addressJson (bytes : ByteBuf) : String :=
  "\x7b\"Address\":[" ++ String.intercalate "," (bytes.map fun b => toString b.toNat) ++ "]\x7d"

/-- `serde_json` on the address of the output. -/
def lockAddressJson : Tir.Expression → String
  | .evalParam (.set (.address bytes)) =>
    "\x7b\"EvalParam\":\x7b\"Set\":" ++ addressJson bytes ++ "\x7d\x7d"
  | _ => "\x7b\"EvalParam\":\x7b\"ExpectValue\":[\"vault\",\"Address\"]\x7d\x7d"

def asciiBytes (s : String) : ByteBuf := s.toList.map fun c => UInt8.ofNat c.toNat

/-- `serde_json::to_vec` on `lock`. -/
def lockJson (address : Tir.Expression) : ByteBuf :=
  asciiBytes ("\x7b\"fees\":\"None\",\"references\":[],\"inputs\":[],\"outputs\":[\x7b\"address\":" ++
    lockAddressJson address ++
    ",\"datum\":\"None\",\"amount\":\"None\",\"optional\":false\x7d],\"validity\":null," ++
    "\"mints\":[],\"burns\":[],\"adhoc\":[],\"collateral\":[],\"signers\":null," ++
    "\"metadata\":[]\x7d")

/-- `lock` with this output address. -/
def lockTir (address : Tir.Expression) : Tir.Tx :=
  { references := []
    inputs := []
    outputs := [{ address := address, amount := .none, optional := false }]
    validity := none
    mints := []
    burns := []
    collateral := []
    signers := none
    metadata := []
    json := lockJson address }

/-- `serde_json::to_vec` on arguments that are addresses. -/
def addressArgsJson (args : ArgMap) : ByteBuf :=
  asciiBytes ("\x7b" ++ String.intercalate "," (args.toList.map fun entry =>
    match entry.2 with
    | .address bytes => "\"" ++ entry.1 ++ "\":" ++ addressJson bytes
    | _ => "") ++ "\x7d")

/-- `tx3_tir` on the template: its output address is set if the arguments have it. -/
def tx3 : Tx3 :=
  { tirVersion := fun version =>
      if version = "v1beta0" then .ok .v1Beta0 else .error "unknown TIR version"
    fromBytes := fun bytes _ =>
      if bytes = lockCbor then .ok (lockTir (.evalParam (.expectValue "vault")))
      else .error "failed to fill whole buffer"
    applyArgs := fun tir args =>
      match args["vault"]?, tir.outputs with
      | some (.address bytes), _ :: _ => .ok (lockTir (.evalParam (.set (.address bytes))))
      | _, _ => .ok tir
    argsJson := addressArgsJson
    hexError := fun _ => "Odd number of digits" }

/-- A transaction of a TII with this encoded TIR. -/
def transactionOf (cbor : ByteBuf) : Transaction :=
  { tir := { version := "v1beta0", encoding := .hex, content := hexEncode cbor } }

/-- A document with the one transaction `lock`. -/
def lockTii : TiiFile :=
  { version := "v1beta0"
    protocolName := "sample"
    transactions := HashMap.singleton "lock" (transactionOf lockCbor)
    profiles := HashMap.singleton "preview"
      { parties := HashMap.singleton "vault"
          "addr1wy3zyg3zyg3zyg3zyg3zyg3zyg3zyg3zyg3zyg3zyg3zygsual5c3"
        environment := .object [] } }

/-- `lock` before and after its parameter `vault` is set. -/
theorem sets_lockTir (v : ArgValue) : (lockTir (.evalParam (.expectValue "vault"))).Sets
    (lockTir (.evalParam (.set v.toExpression))) where
  references := .nil
  inputs := .nil
  outputs := .cons ⟨.value "vault" (isArgument_toExpression v), .same _, rfl⟩ .nil
  validity := .none
  mints := .nil
  burns := .nil
  collateral := .nil
  signers := .none
  metadata := .nil

end Sample

theorem extract_strengthens_lock :
    ∃ fp fp', extract Sample.tx3 Sample.lockTii "lock" "preview"
        (Sample.lockTir (.evalParam (.expectValue "vault"))) ∅ = .ok fp ∧
      extract Sample.tx3 Sample.lockTii "lock" "preview"
        (Sample.lockTir (.evalParam (.set (.address (0x71 :: List.replicate 28 0x22))))) ∅ =
          .ok fp' ∧
      fp.WeakerThan fp' ∧
      ∀ summary, fp'.matchesSummary summary = true → fp.matchesSummary summary = true :=
  ⟨_, _, rfl, rfl, extract_strengthens Sample.tx3 Sample.lockTii "lock" "preview" _ _ ∅ ∅ _ _
    (Sample.sets_lockTir (.address (0x71 :: List.replicate 28 0x22))) rfl rfl⟩

end Tx3Lift
