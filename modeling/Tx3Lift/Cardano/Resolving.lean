import Tx3Lift.Cardano.Summarize
import Tx3Lift.Core.Anchors
import Tx3Lift.Core.Fingerprint

/-!
# Resolving more inputs

A payload is matched with the resolved inputs that its caller supplies. The gate and the
pre-filter look for presences only, so they pass whenever they passed with fewer of them.

* `PayloadSummary.Within.hits_le`, `PayloadSummary.Within.matchesSummary`: a summary that has
  more hits as many anchors and passes as many fingerprints.
* `summarizeTx_within`, `summarizeTx_congr`: what the resolved inputs do to a summary.
* `resolving_monotone`: both together.
-/

namespace Tx3Lift

open Lib

/-! ## Summaries that have more -/

/-- `s'` has all that `s` has. -/
structure PayloadSummary.Within (s s' : PayloadSummary) : Prop where
  inputAddresses : ∀ a ∈ s.inputAddresses, a ∈ s'.inputAddresses
  outputAddresses : ∀ a ∈ s.outputAddresses, a ∈ s'.outputAddresses
  outputAddressesWithDatum :
    ∀ a ∈ s.outputAddressesWithDatum, a ∈ s'.outputAddressesWithDatum
  inputRefs : ∀ r ∈ s.inputRefs, r ∈ s'.inputRefs
  referenceRefs : ∀ r ∈ s.referenceRefs, r ∈ s'.referenceRefs
  mintPolicies : ∀ p ∈ s.mintPolicies, p ∈ s'.mintPolicies
  burnPolicies : ∀ p ∈ s.burnPolicies, p ∈ s'.burnPolicies
  valuePolicies : ∀ p ∈ s.valuePolicies, p ∈ s'.valuePolicies
  signers : ∀ k ∈ s.signers, k ∈ s'.signers
  metadataLabels : ∀ l ∈ s.metadataLabels, l ∈ s'.metadataLabels
  inputCount : s.inputCount ≤ s'.inputCount
  outputCount : s.outputCount ≤ s'.outputCount
  mintCount : s.mintCount ≤ s'.mintCount
  burnCount : s.burnCount ≤ s'.burnCount
  collateralCount : s.collateralCount ≤ s'.collateralCount
  referenceCount : s.referenceCount ≤ s'.referenceCount
  hasValidity : s.hasValidity = true → s'.hasValidity = true
  extras : ∀ (k : String) (v : ByteBuf), s.extras[k]? = some v → s'.extras[k]? = some v

section Within

variable {s s' : PayloadSummary}

/-- An anchor may move from the soft to the gating tier, but no presence is lost. -/
theorem PayloadSummary.Within.gating (h : s.Within s') {x : Anchor} (hx : s.Gating x) :
    s'.Gating x := by
  cases x with
  | address a => exact hx.imp (h.inputAddresses a) (h.outputAddressesWithDatum a)
  | utxoRef r => exact hx.imp (h.inputRefs r) (h.referenceRefs r)
  | policy p => exact hx.imp (h.mintPolicies p) (h.burnPolicies p)

theorem PayloadSummary.Within.present (h : s.Within s') {x : Anchor} (hx : s.Present x) :
    s'.Present x := by
  cases x with
  | address a => exact hx.imp h.gating (h.outputAddresses a)
  | utxoRef r => exact h.gating (x := .utxoRef r) hx
  | policy p => exact hx.imp h.gating (h.valuePolicies p)

theorem PayloadSummary.Within.hits_le (h : s.Within s') (anchors : ProtocolAnchors) :
    (anchors.hits s).gating ≤ (anchors.hits s').gating ∧
      (anchors.hits s).total ≤ (anchors.hits s').total := by
  rw [hits_eq, hits_eq]
  constructor
  · exact Set.ncard_le_ncard (fun x hx => ⟨hx.1, h.gating hx.2⟩) (finite_has _ _)
  · exact Set.ncard_le_ncard (fun x hx => ⟨hx.1, h.present hx.2⟩) (finite_has _ _)

theorem PayloadSummary.Within.matchesSummary (h : s.Within s') {fp : Fingerprint}
    (hmatch : fp.matchesSummary s = true) : fp.matchesSummary s' = true := by
  rw [matchesSummary_iff] at hmatch ⊢
  exact
    { inputAddresses := fun a ha => h.inputAddresses a (hmatch.inputAddresses a ha)
      outputAddresses := fun a ha => h.outputAddresses a (hmatch.outputAddresses a ha)
      inputRefs := fun r hr => h.inputRefs r (hmatch.inputRefs r hr)
      referenceRefs := fun r hr => h.referenceRefs r (hmatch.referenceRefs r hr)
      mintPolicies := fun p hp => h.mintPolicies p (hmatch.mintPolicies p hp)
      burnPolicies := fun p hp => h.burnPolicies p (hmatch.burnPolicies p hp)
      valuePolicies := fun p hp => h.valuePolicies p (hmatch.valuePolicies p hp)
      signers := fun k hk => h.signers k (hmatch.signers k hk)
      metadataLabels := fun l hl => h.metadataLabels l (hmatch.metadataLabels l hl)
      inputCount := hmatch.inputCount.trans h.inputCount
      outputCount := hmatch.outputCount.trans h.outputCount
      mintCount := hmatch.mintCount.trans h.mintCount
      burnCount := hmatch.burnCount.trans h.burnCount
      collateralCount := hmatch.collateralCount.trans h.collateralCount
      referenceCount := hmatch.referenceCount.trans h.referenceCount
      validity := fun hv => h.hasValidity (hmatch.validity hv)
      extras := fun kv hkv => h.extras _ _ (hmatch.extras kv hkv) }

end Within

/-! ## Payloads with more resolved inputs -/

/-- The same raw transaction, with entries added to the map of resolved inputs. -/
structure CardanoPayload.Extends (payload' payload : CardanoPayload) : Prop where
  raw : payload'.raw = payload.raw
  entries : ∀ (r : UtxoRef) (resolved : ResolvedOutput),
    payload.resolvedInputs[r]? = some resolved → payload'.resolvedInputs[r]? = some resolved

section Extends

variable (P : Pallas) {payload payload' : CardanoPayload} {tx : MultiEraTx}

theorem CardanoPayload.Extends.parsed (h : payload'.Extends payload) :
    payload'.parsed P = payload.parsed P := by
  rw [CardanoPayload.parsed, CardanoPayload.parsed, h.raw]

theorem CardanoPayload.Extends.resolvedOutput (h : payload'.Extends payload)
    {input : TransactionInput} {output : MultiEraOutput}
    (ho : payload.resolvedOutput P input = some output) :
    payload'.resolvedOutput P input = some output := by
  unfold CardanoPayload.resolvedOutput at ho ⊢
  obtain ⟨resolved, hr, hd⟩ := Option.bind_eq_some_iff.mp ho
  exact Option.bind_eq_some_iff.mpr ⟨resolved, h.entries _ _ hr, hd⟩

/-- More resolved inputs add addresses and policies of inputs to the summary. -/
theorem summarizeTx_within (h : payload'.Extends payload) :
    (summarizeTx P payload tx).Within (summarizeTx P payload' tx) := by
  have haddresses : ∀ a ∈ (summarizeTx P payload tx).inputAddresses,
      a ∈ (summarizeTx P payload' tx).inputAddresses := by
    intro a ha
    obtain ⟨i, hi, o, ho, hat⟩ := (mem_inputAddresses P payload tx).mp ha
    exact (mem_inputAddresses P payload' tx).mpr ⟨i, hi, o, h.resolvedOutput P ho, hat⟩
  have hpolicies : ∀ p ∈ (summarizeTx P payload tx).valuePolicies,
      p ∈ (summarizeTx P payload' tx).valuePolicies := by
    intro p hp
    refine (mem_valuePolicies P payload' tx).mpr
      (((mem_valuePolicies P payload tx).mp hp).imp_left ?_)
    rintro ⟨i, hi, o, ho, hmem⟩
    exact ⟨i, hi, o, h.resolvedOutput P ho, hmem⟩
  rw [summarizeTx_eq, summarizeTx_eq] at haddresses hpolicies ⊢
  exact
    { inputAddresses := haddresses
      outputAddresses := fun _ ha => ha
      outputAddressesWithDatum := fun _ ha => ha
      inputRefs := fun _ hr => hr
      referenceRefs := fun _ hr => hr
      mintPolicies := fun _ hp => hp
      burnPolicies := fun _ hp => hp
      valuePolicies := hpolicies
      signers := fun _ hk => hk
      metadataLabels := fun _ hl => hl
      inputCount := le_rfl
      outputCount := le_rfl
      mintCount := le_rfl
      burnCount := le_rfl
      collateralCount := le_rfl
      referenceCount := le_rfl
      hasValidity := fun hv => hv
      extras := fun _ _ hv => hv }

/-- A summary depends on the entries for spent inputs only. -/
theorem summarizeTx_congr (h : ∀ r ∈ (summarizeTx P payload tx).inputRefs,
    payload'.resolvedInputs[r]? = payload.resolvedInputs[r]?) :
    summarizeTx P payload' tx = summarizeTx P payload tx := by
  have hsame : ∀ i ∈ tx.inputs, payload'.resolvedOutput P i = payload.resolvedOutput P i := by
    intro i hi
    rw [CardanoPayload.resolvedOutput, CardanoPayload.resolvedOutput,
      h i.key ((mem_inputRefs P payload tx).mpr ⟨i, hi, rfl⟩)]
  have haddresses : tx.inputs.filterMap
      (fun i => (payload'.resolvedOutput P i).bind MultiEraOutput.address) =
      tx.inputs.filterMap fun i => (payload.resolvedOutput P i).bind MultiEraOutput.address :=
    List.filterMap_congr fun i hi => by rw [hsame i hi]
  have hpolicies : tx.inputs.flatMap
      (fun i => ((payload'.resolvedOutput P i).map MultiEraOutput.policies).getD []) =
      tx.inputs.flatMap fun i =>
        ((payload.resolvedOutput P i).map MultiEraOutput.policies).getD [] :=
    List.flatMap_congr fun i hi => by rw [hsame i hi]
  rw [summarizeTx_eq, summarizeTx_eq, haddresses, hpolicies]

end Extends

/-- **Resolving more inputs** loses no hit and no match, and entries for references that are
    not spent change nothing. -/
theorem resolving_monotone (P : Pallas) (payload payload' : CardanoPayload)
    (summary : PayloadSummary) (hext : payload'.Extends payload)
    (h : summarize P payload = .ok summary) :
    ∃ summary', summarize P payload' = .ok summary' ∧
      (∀ anchors : ProtocolAnchors,
        (anchors.hits summary).gating ≤ (anchors.hits summary').gating ∧
          (anchors.hits summary).total ≤ (anchors.hits summary').total) ∧
      (∀ fp : Fingerprint, fp.matchesSummary summary = true →
        fp.matchesSummary summary' = true) ∧
      ((∀ r ∈ summary.inputRefs, payload'.resolvedInputs[r]? = payload.resolvedInputs[r]?) →
        summary' = summary) := by
  obtain ⟨tx, hparse, hsummary⟩ := Except.bind_eq_ok h
  cases hsummary
  have hwithin : (summarizeTx P payload tx).Within (summarizeTx P payload' tx) :=
    summarizeTx_within P hext
  exact ⟨summarizeTx P payload' tx, summarize_eq ((hext.parsed P).trans hparse), hwithin.hits_le,
    fun _ hmatch => hwithin.matchesSummary hmatch, summarizeTx_congr P⟩

/-- The sample payload with its input resolved. -/
def Sample.resolvedScript : CardanoPayload :=
  { raw := Sample.scriptTx.cbor
    resolvedInputs := Std.ExtTreeMap.empty.insert (Sample.spentTx.bytes, 0)
      { era := .conway, cbor := Sample.outputCbor Sample.scriptAddress } }

theorem resolving_monotone_sample :
    ∃ summary', summarize (Sample.pallas []) Sample.resolvedScript = .ok summary' ∧
      (∀ anchors : ProtocolAnchors,
        (anchors.hits (summarizeTx (Sample.pallas []) { raw := Sample.scriptTx.cbor }
          Sample.scriptTx)).gating ≤ (anchors.hits summary').gating ∧
        (anchors.hits (summarizeTx (Sample.pallas []) { raw := Sample.scriptTx.cbor }
          Sample.scriptTx)).total ≤ (anchors.hits summary').total) ∧
      (∀ fp : Fingerprint, fp.matchesSummary (summarizeTx (Sample.pallas [])
        { raw := Sample.scriptTx.cbor } Sample.scriptTx) = true →
          fp.matchesSummary summary' = true) ∧
      ((∀ r ∈ (summarizeTx (Sample.pallas []) { raw := Sample.scriptTx.cbor }
          Sample.scriptTx).inputRefs,
        Sample.resolvedScript.resolvedInputs[r]? =
          ({ raw := Sample.scriptTx.cbor } : CardanoPayload).resolvedInputs[r]?) →
        summary' = summarizeTx (Sample.pallas []) { raw := Sample.scriptTx.cbor }
          Sample.scriptTx) :=
  resolving_monotone (Sample.pallas []) { raw := Sample.scriptTx.cbor } Sample.resolvedScript _
    ⟨rfl, by simp⟩ rfl

end Tx3Lift
