import Tx3Lift.Cardano.Payload

/-!
# `summarize`

Model of `crates/tx3-lift-cardano/src/summarize.rs`, loop by loop.

* `foldl_summarizeInput`, `foldl_summarizeOutput`, `foldl_summarizePolicy`: what each
  loop does to the summary, as one record update.
* `summarizeTx_eq`: the whole summary, read off the transaction.
* `mem_inputRefs`, `mem_inputAddresses`, …: the elements of each set of
  `summarize(payload)`, read off the transaction.
-/

namespace Tx3Lift

open Lib

/-! ## Model -/

/-- `for policy in output.value().assets() { summary.value_policies.insert(…) }`. -/
def addValuePolicies (output : MultiEraOutput) (summary : PayloadSummary) : PayloadSummary :=
  { summary with
    valuePolicies := insertMany summary.valuePolicies (output.assets.map fun p => p.policy.bytes) }

/-- The body of the loop over `tx.inputs()` (lines 11–29). -/
def summarizeInput (P : Pallas) (payload : CardanoPayload) (summary : PayloadSummary)
    (input : TransactionInput) : PayloadSummary :=
  let summary := { summary with inputRefs := summary.inputRefs.insert input.key }
  match payload.resolvedOutput P input with
  | none => summary
  | some output =>
    let summary := match output.address with
      | some addr => { summary with inputAddresses := summary.inputAddresses.insert addr }
      | none => summary
    addValuePolicies output summary

/-- The body of the loop over `tx.outputs()` (lines 32–45). -/
def summarizeOutput (summary : PayloadSummary) (output : MultiEraOutput) : PayloadSummary :=
  let summary := match output.address with
    | some addr =>
      let summary := { summary with outputAddresses := summary.outputAddresses.insert addr }
      if output.datum.isSome then
        { summary with
          outputAddressesWithDatum := summary.outputAddressesWithDatum.insert addr }
      else summary
    | none => summary
  addValuePolicies output summary

/-- `has_positive` after the inner loop (lines 54–61). -/
def MultiEraPolicyAssets.hasPositive (policy : MultiEraPolicyAssets) : Bool :=
  policy.assets.any fun asset => decide (asset.anyCoin > 0)

/-- `has_negative` after the inner loop (lines 54–61). -/
def MultiEraPolicyAssets.hasNegative (policy : MultiEraPolicyAssets) : Bool :=
  policy.assets.any fun asset => decide (asset.anyCoin < 0)

/-- The body of the loop over `tx.mints()` (lines 51–74). The local counters are the
    summary's own, which are still 0 when the loop starts. -/
def summarizePolicy (summary : PayloadSummary) (policy : MultiEraPolicyAssets) : PayloadSummary :=
  let summary := if policy.hasPositive then
      { summary with
        mintPolicies := summary.mintPolicies.insert policy.policy.bytes
        mintCount := u16SaturatingAdd summary.mintCount 1 }
    else summary
  if policy.hasNegative then
    { summary with
      burnPolicies := summary.burnPolicies.insert policy.policy.bytes
      burnCount := u16SaturatingAdd summary.burnCount 1 }
  else summary

/-- The summary of a parsed transaction (lines 9–104). -/
def summarizeTx (P : Pallas) (payload : CardanoPayload) (tx : MultiEraTx) : PayloadSummary :=
  let summary := tx.inputs.foldl (summarizeInput P payload) {}
  let summary := { summary with inputCount := u16TryFrom tx.inputs.length }
  let summary := tx.outputs.foldl summarizeOutput summary
  let summary := { summary with outputCount := u16TryFrom tx.outputs.length }
  let summary := tx.mints.foldl summarizePolicy summary
  { summary with
    collateralCount := u16TryFrom tx.collateral.length
    referenceRefs := insertMany summary.referenceRefs (tx.referenceInputs.map TransactionInput.key)
    referenceCount := u16TryFrom tx.referenceInputs.length
    signers := match tx.requiredSigners with
      | some signers => insertMany summary.signers (signers.map fun hash => hash.bytes)
      | none => summary.signers
    metadataLabels := match tx.metadata with
      | some labels => insertMany summary.metadataLabels labels
      | none => summary.metadataLabels
    hasValidity := tx.validityStart.isSome || tx.ttl.isSome }

/-- `summarize` (lines 7–105). -/
def summarize (P : Pallas) (payload : CardanoPayload) : Except CardanoLiftError PayloadSummary := do
  let tx ← payload.parsed P
  return summarizeTx P payload tx

theorem summarize_eq {P : Pallas} {payload : CardanoPayload} {tx : MultiEraTx}
    (h : payload.parsed P = .ok tx) : summarize P payload = .ok (summarizeTx P payload tx) := by
  simp [summarize, h, bind, Except.bind, pure, Except.pure]

/-! ## The loops -/

/-- The policies in the value of an output. -/
def MultiEraOutput.policies (output : MultiEraOutput) : List ByteBuf :=
  output.assets.map fun p => p.policy.bytes

theorem foldl_summarizeInput (P : Pallas) (payload : CardanoPayload) (xs : List TransactionInput)
    (summary : PayloadSummary) :
    xs.foldl (summarizeInput P payload) summary =
      { summary with
        inputRefs := insertMany summary.inputRefs (xs.map TransactionInput.key)
        inputAddresses := insertMany summary.inputAddresses
          (xs.filterMap fun i => (payload.resolvedOutput P i).bind MultiEraOutput.address)
        valuePolicies := insertMany summary.valuePolicies
          (xs.flatMap fun i => ((payload.resolvedOutput P i).map MultiEraOutput.policies).getD []) }
      := by
  induction xs generalizing summary with
  | nil => rfl
  | cons i xs ih =>
    rw [List.foldl_cons, ih, summarizeInput]
    cases hr : payload.resolvedOutput P i with
    | none => simp [hr]
    | some output =>
      cases ha : output.address with
      | none => simp [hr, ha, addValuePolicies, MultiEraOutput.policies, insertMany_append]
      | some addr => simp [hr, ha, addValuePolicies, MultiEraOutput.policies, insertMany_append]

theorem foldl_summarizeOutput (xs : List MultiEraOutput) (summary : PayloadSummary) :
    xs.foldl summarizeOutput summary =
      { summary with
        outputAddresses := insertMany summary.outputAddresses (xs.filterMap MultiEraOutput.address)
        outputAddressesWithDatum := insertMany summary.outputAddressesWithDatum
          ((xs.filter fun o => o.datum.isSome).filterMap MultiEraOutput.address)
        valuePolicies :=
          insertMany summary.valuePolicies (xs.flatMap MultiEraOutput.policies) } := by
  induction xs generalizing summary with
  | nil => rfl
  | cons o xs ih =>
    rw [List.foldl_cons, ih, summarizeOutput]
    cases ha : o.address with
    | none =>
      by_cases hd : o.datum.isSome = true <;>
        simp [ha, hd, addValuePolicies, MultiEraOutput.policies, insertMany_append]
    | some addr =>
      by_cases hd : o.datum.isSome = true <;>
        simp [ha, hd, addValuePolicies, MultiEraOutput.policies, insertMany_append]

theorem foldl_summarizePolicy (xs : List MultiEraPolicyAssets) {summary : PayloadSummary}
    (hmint : summary.mintCount ≤ u16Max) (hburn : summary.burnCount ≤ u16Max) :
    xs.foldl summarizePolicy summary =
      { summary with
        mintPolicies := insertMany summary.mintPolicies
          ((xs.filter MultiEraPolicyAssets.hasPositive).map fun p => p.policy.bytes)
        burnPolicies := insertMany summary.burnPolicies
          ((xs.filter MultiEraPolicyAssets.hasNegative).map fun p => p.policy.bytes)
        mintCount := u16SaturatingAdd summary.mintCount (xs.countP MultiEraPolicyAssets.hasPositive)
        burnCount :=
          u16SaturatingAdd summary.burnCount (xs.countP MultiEraPolicyAssets.hasNegative) } := by
  induction xs generalizing summary with
  | nil => simp [hmint, hburn]
  | cons p xs ih =>
    rw [List.foldl_cons, summarizePolicy]
    by_cases hp : p.hasPositive = true <;> by_cases hn : p.hasNegative = true <;>
      simp (disch := first | assumption | exact u16SaturatingAdd_le _ _)
        [ih, hp, hn, u16SaturatingAdd_assoc, Nat.add_comm]

/-! ## The sets of a summary -/

section Members

variable (P : Pallas) (payload : CardanoPayload) (tx : MultiEraTx)

/-- The summary of a transaction: every set and every count, read off its parts. -/
theorem summarizeTx_eq : summarizeTx P payload tx =
    { inputAddresses := insertMany ∅
        (tx.inputs.filterMap fun i => (payload.resolvedOutput P i).bind MultiEraOutput.address)
      outputAddresses := insertMany ∅ (tx.outputs.filterMap MultiEraOutput.address)
      outputAddressesWithDatum := insertMany ∅
        ((tx.outputs.filter fun o => o.datum.isSome).filterMap MultiEraOutput.address)
      inputRefs := insertMany ∅ (tx.inputs.map TransactionInput.key)
      referenceRefs := insertMany ∅ (tx.referenceInputs.map TransactionInput.key)
      mintPolicies := insertMany ∅
        ((tx.mints.filter MultiEraPolicyAssets.hasPositive).map fun p => p.policy.bytes)
      burnPolicies := insertMany ∅
        ((tx.mints.filter MultiEraPolicyAssets.hasNegative).map fun p => p.policy.bytes)
      valuePolicies := insertMany ∅ ((tx.inputs.flatMap fun i =>
        ((payload.resolvedOutput P i).map MultiEraOutput.policies).getD []) ++
          tx.outputs.flatMap MultiEraOutput.policies)
      signers := insertMany ∅
        ((tx.requiredSigners.map fun signers => signers.map fun hash => hash.bytes).getD [])
      metadataLabels := insertMany ∅ (tx.metadata.getD [])
      inputCount := u16TryFrom tx.inputs.length
      outputCount := u16TryFrom tx.outputs.length
      mintCount := u16TryFrom (tx.mints.countP MultiEraPolicyAssets.hasPositive)
      burnCount := u16TryFrom (tx.mints.countP MultiEraPolicyAssets.hasNegative)
      collateralCount := u16TryFrom tx.collateral.length
      referenceCount := u16TryFrom tx.referenceInputs.length
      hasValidity := tx.validityStart.isSome || tx.ttl.isSome } := by
  have hsigners : (match tx.requiredSigners with
      | some signers => insertMany (∅ : BTreeSet ByteBuf) (signers.map fun hash => hash.bytes)
      | none => ∅) = insertMany ∅
        ((tx.requiredSigners.map fun signers => signers.map fun hash => hash.bytes).getD []) := by
    cases tx.requiredSigners <;> rfl
  have hmetadata : (match tx.metadata with
      | some labels => insertMany (∅ : BTreeSet UInt64) labels
      | none => ∅) = insertMany ∅ (tx.metadata.getD []) := by
    cases tx.metadata <;> rfl
  -- both counters are still 0 when the loop over the mint field starts
  simp (disch := exact Nat.zero_le _) only [summarizeTx, foldl_summarizeInput,
    foldl_summarizeOutput, foldl_summarizePolicy, zero_u16SaturatingAdd, hsigners, hmetadata,
    insertMany_append]

theorem mem_inputRefs {r : UtxoRef} :
    r ∈ (summarizeTx P payload tx).inputRefs ↔ ∃ i ∈ tx.inputs, i.key = r := by
  simp [summarizeTx_eq P payload tx]

theorem mem_inputAddresses {a : ByteBuf} :
    a ∈ (summarizeTx P payload tx).inputAddresses ↔
      ∃ i ∈ tx.inputs, ∃ o, payload.resolvedOutput P i = some o ∧ o.address = some a := by
  simp [summarizeTx_eq P payload tx, Option.bind_eq_some_iff]

theorem mem_outputAddresses {a : ByteBuf} :
    a ∈ (summarizeTx P payload tx).outputAddresses ↔ ∃ o ∈ tx.outputs, o.address = some a := by
  simp [summarizeTx_eq P payload tx]

theorem mem_outputAddressesWithDatum {a : ByteBuf} :
    a ∈ (summarizeTx P payload tx).outputAddressesWithDatum ↔
      ∃ o ∈ tx.outputs, o.address = some a ∧ o.datum.isSome = true := by
  simp only [summarizeTx_eq P payload tx, mem_insertMany_empty, List.mem_filterMap,
    List.mem_filter]
  exact exists_congr fun o => by tauto

theorem mem_mintPolicies {p : ByteBuf} :
    p ∈ (summarizeTx P payload tx).mintPolicies ↔
      ∃ m ∈ tx.mints, m.policy.bytes = p ∧ ∃ a ∈ m.assets, a.anyCoin > 0 := by
  simp only [summarizeTx_eq P payload tx, mem_insertMany_empty, List.mem_map,
    List.mem_filter, MultiEraPolicyAssets.hasPositive, List.any_eq_true, decide_eq_true_eq]
  exact exists_congr fun m => by tauto

theorem mem_burnPolicies {p : ByteBuf} :
    p ∈ (summarizeTx P payload tx).burnPolicies ↔
      ∃ m ∈ tx.mints, m.policy.bytes = p ∧ ∃ a ∈ m.assets, a.anyCoin < 0 := by
  simp only [summarizeTx_eq P payload tx, mem_insertMany_empty, List.mem_map,
    List.mem_filter, MultiEraPolicyAssets.hasNegative, List.any_eq_true, decide_eq_true_eq]
  exact exists_congr fun m => by tauto

theorem mem_referenceRefs {r : UtxoRef} :
    r ∈ (summarizeTx P payload tx).referenceRefs ↔ ∃ i ∈ tx.referenceInputs, i.key = r := by
  simp [summarizeTx_eq P payload tx]

theorem mem_valuePolicies {p : ByteBuf} :
    p ∈ (summarizeTx P payload tx).valuePolicies ↔
      (∃ i ∈ tx.inputs, ∃ o, payload.resolvedOutput P i = some o ∧ p ∈ o.policies) ∨
      ∃ o ∈ tx.outputs, p ∈ o.policies := by
  simp only [summarizeTx_eq P payload tx, mem_insertMany_empty, List.mem_append,
    List.mem_flatMap]
  refine or_congr_left (exists_congr fun i => and_congr_right fun _ => ?_)
  cases payload.resolvedOutput P i <;> simp

end Members

end Tx3Lift
