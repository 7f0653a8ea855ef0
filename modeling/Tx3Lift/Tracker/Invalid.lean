import Tx3Lift.Tracker.Specialization

/-!
# Transactions that failed script validation

When the validity flag of a transaction is false the ledger takes only its collateral: no
body input is spent, no body output is created and nothing is minted. Nothing on the path
from `summarize` to the rows reads the flag.

* `gating_eq_iff`: the body adds nothing to the gating count iff every anchor it engages is
  also referenced.
* `failed_engages_iff`: when a failed transaction engages nothing through its body.
-/

namespace Tx3Lift

open Lib

/-- What is left of a failed transaction on chain, besides its collateral: its references. -/
def MultiEraTx.withoutBodyEffects (tx : MultiEraTx) : MultiEraTx :=
  { tx with inputs := [], outputs := [], mints := [] }

/-- The body engages no anchor that the reference inputs do not engage as well. -/
structure BodyInert (P : Pallas) (anchors : ProtocolAnchors) (payload : CardanoPayload)
    (tx : MultiEraTx) : Prop where
  address : ∀ a ∈ anchors.addresses, ¬EngagesAddress P payload tx a
  utxoRef : ∀ i ∈ tx.inputs, i.key ∈ anchors.utxoRefs → ∃ j ∈ tx.referenceInputs, j.key = i.key
  policy : ∀ p ∈ anchors.policies, ¬MintsOrBurns tx p

section Gating

variable (P : Pallas) (anchors : ProtocolAnchors) (payload : CardanoPayload) (tx : MultiEraTx)

/-- Without the body only the keys of reference inputs gate. -/
theorem gating_withoutBodyEffects (x : Anchor) :
    (summarizeTx P payload tx.withoutBodyEffects).Gating x ↔
      ∃ j ∈ tx.referenceInputs, x = .utxoRef j.key := by
  rw [gating_summarizeTx]
  cases x with
  | address a => simp [MultiEraTx.withoutBodyEffects, SpentFrom, DatumOutputAt]
  | utxoRef r => simp [MultiEraTx.withoutBodyEffects, eq_comm]
  | policy p => simp [MultiEraTx.withoutBodyEffects, MintsOrBurns]

theorem bodyInert_iff :
    BodyInert P anchors payload tx ↔
      ∀ x, anchors.Has x → (summarizeTx P payload tx).Gating x →
        (summarizeTx P payload tx.withoutBodyEffects).Gating x := by
  simp only [gating_withoutBodyEffects, gating_summarizeTx P payload tx]
  constructor
  · intro h x hx hg
    cases x with
    | address a => exact absurd hg (h.address a hx)
    | utxoRef r =>
      obtain ⟨i, hi, rfl⟩ := hg
      rcases List.mem_append.mp hi with hi | hi
      · obtain ⟨j, hj, hkey⟩ := h.utxoRef i hi hx
        exact ⟨j, hj, by rw [hkey]⟩
      · exact ⟨i, hi, rfl⟩
    | policy p => exact absurd hg (h.policy p hx)
  · intro h
    refine ⟨fun a ha hg => ?_, fun i hi hmem => ?_, fun p hp hg => ?_⟩
    · obtain ⟨j, -, hj⟩ := h (.address a) ha hg
      cases hj
    · obtain ⟨j, hj, heq⟩ := h (.utxoRef i.key) hmem ⟨i, List.mem_append_left _ hi, rfl⟩
      exact ⟨j, hj, (Anchor.utxoRef.inj heq).symm⟩
    · obtain ⟨j, -, hj⟩ := h (.policy p) hp hg
      cases hj

/-- What gates without the body gates with it. -/
theorem gating_mono (x : Anchor)
    (h : (summarizeTx P payload tx.withoutBodyEffects).Gating x) :
    (summarizeTx P payload tx).Gating x := by
  obtain ⟨j, hj, rfl⟩ := (gating_withoutBodyEffects P payload tx x).mp h
  exact (gating_summarizeTx P payload tx _).mpr ⟨j, List.mem_append_right _ hj, rfl⟩

/-- The body adds nothing to the gating count iff every anchor it engages is also
    referenced. -/
theorem gating_eq_iff :
    (anchors.hits (summarizeTx P payload tx)).gating =
        (anchors.hits (summarizeTx P payload tx.withoutBodyEffects)).gating ↔
      BodyInert P anchors payload tx := by
  rw [bodyInert_iff]
  simp only [hits_eq]
  have hsub : {x | anchors.Has x ∧ (summarizeTx P payload tx.withoutBodyEffects).Gating x} ⊆
      {x | anchors.Has x ∧ (summarizeTx P payload tx).Gating x} := fun x hx =>
    ⟨hx.1, gating_mono P payload tx x hx.2⟩
  constructor
  · intro hcard x hx hg
    have heq := Set.eq_of_subset_of_ncard_le hsub hcard.le (finite_has _ _)
    have hmem : x ∈ {x | anchors.Has x ∧ (summarizeTx P payload tx).Gating x} := ⟨hx, hg⟩
    rw [← heq] at hmem
    exact hmem.2
  · intro h
    congr 1
    ext x
    exact ⟨fun hx => ⟨hx.1, h x hx.1 hx.2⟩, fun hx => hsub hx⟩

end Gating

/-- A failed transaction engages nothing through its body: no gating hit comes from it, and no
    source has a row on its account. -/
structure BodyIgnored (D : Deps) (specialized : List SpecializedTii) (payload : CardanoPayload)
    (tx : MultiEraTx) : Prop where
  hits : ∀ spec ∈ specialized,
    (spec.anchors.hits (summarizeTx D.toPallas payload tx)).gating =
      (spec.anchors.hits (summarizeTx D.toPallas payload tx.withoutBodyEffects)).gating
  rows : ∀ blockSlot blockHash mode rows,
    runSpecializations D specialized payload blockSlot blockHash mode = .ok rows →
    ∀ row ∈ rows, ∃ spec ∈ specialized, spec.name = row.sourceName ∧
      (spec.anchors.hits (summarizeTx D.toPallas payload tx.withoutBodyEffects)).gates = true

/-- **Failed transactions.** The body of a failed transaction is ignored exactly when it
    engages no anchor that is not also referenced. -/
theorem failed_engages_iff (D : Deps) (specialized : List SpecializedTii)
    (payload : CardanoPayload) (tx : MultiEraTx) (hparse : payload.parsed D.toPallas = .ok tx)
    (_hinvalid : tx.isValid = false) :
    BodyIgnored D specialized payload tx ↔
      ∀ spec ∈ specialized, BodyInert D.toPallas spec.anchors payload tx := by
  constructor
  · intro h spec hspec
    exact (gating_eq_iff _ _ _ _).mp (h.hits spec hspec)
  · intro h
    refine ⟨fun spec hspec => (gating_eq_iff _ _ _ _).mpr (h spec hspec), ?_⟩
    intro blockSlot blockHash mode rows hrows row hrow
    obtain ⟨spec, hspec, hname, hgates⟩ :=
      ((runSpecializations_spec hparse hrows).1 row hrow).source
    refine ⟨spec, hspec, hname, ?_⟩
    rw [AnchorHits.gates, ← (gating_eq_iff _ _ _ _).mpr (h spec hspec)]
    exact hgates

theorem failed_engages_sample :
    BodyIgnored (Sample.deps []) [Sample.source] { raw := Sample.failedTx.cbor } Sample.failedTx ↔
      ∀ spec ∈ [Sample.source], BodyInert (Sample.deps []).toPallas spec.anchors
        { raw := Sample.failedTx.cbor } Sample.failedTx :=
  failed_engages_iff (Sample.deps []) [Sample.source] { raw := Sample.failedTx.cbor }
    Sample.failedTx rfl rfl

/-- A failed transaction with a datum output at the script address gates, and the tracker has a
    row for it. -/
theorem failed_transaction_matches :
    Sample.failedTx.isValid = false ∧
    (Sample.source.anchors.hits
      (summarizeTx (Sample.pallas []) { raw := Sample.failedTx.cbor } Sample.failedTx)).gating = 1 ∧
    (Sample.source.anchors.hits (summarizeTx (Sample.pallas []) { raw := Sample.failedTx.cbor }
      Sample.failedTx.withoutBodyEffects)).gating = 0 ∧
    ∃ row, runSpecializations (Sample.deps []) [Sample.source] { raw := Sample.failedTx.cbor } 100
      (List.replicate 32 0x55) .all = .ok [row] ∧ row.sourceName = Sample.source.name :=
  ⟨rfl, by decide, by decide, _, rfl, rfl⟩

end Tx3Lift
