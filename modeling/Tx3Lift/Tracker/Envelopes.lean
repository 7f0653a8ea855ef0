import Tx3Lift.Cardano.Resolving
import Tx3Lift.Tracker.Provenance

/-!
# What of an envelope is read

An envelope carries the decoded transaction of the upstream beside the native bytes of its block.
Of the former only the hash is read, and the original bytes of the outputs that the transaction of
the block itself spends or references.

* `getElem?_collectResolvedInputs`: the map of resolved outputs, read off the envelope.
* `runSpecializations_agree`: payloads that agree on the outputs of their transaction.
* `own_outputs_decide`: streams of envelopes that agree are handled alike.
-/

namespace Tx3Lift

open Lib Tir

/-! ## Payloads that agree -/

/-- The same raw transaction, with the same entries for the outputs it spends or references. -/
structure CardanoPayload.Agrees (tx : MultiEraTx) (payload' payload : CardanoPayload) : Prop where
  raw : payload'.raw = payload.raw
  entries : ∀ input ∈ tx.inputs ++ tx.referenceInputs,
    payload'.resolvedInputs[input.key]? = payload.resolvedInputs[input.key]?

/-- Computations that go on alike from what they return so far. -/
theorem Except.bind_congr_ok {χ α β : Type} {x : Except χ α} {f g : α → Except χ β}
    (h : ∀ a, x = .ok a → f a = g a) : (x >>= f) = x >>= g := by
  cases x with
  | error e => rfl
  | ok a => exact h a rfl

/-- Tests that agree on the elements claim the same slots. -/
theorem claim_congr {α : Type} {p q : α → Bool} (once : Bool) :
    ∀ {xs : List α}, (∀ x ∈ xs, p x = q x) → ∀ (i : ℕ) (consumed : List Bool),
      claim p once i xs consumed = claim q once i xs consumed := by
  intro xs
  induction xs with
  | nil => intro _ i consumed; rfl
  | cons x xs ih =>
    intro h i consumed
    have hrest := ih fun y hy => h y (List.mem_cons_of_mem x hy)
    rw [claim, claim, h x List.mem_cons_self, hrest, hrest]

section Agrees

variable {P : Pallas} {bech32 : String → Except String ByteBuf} {payload payload' : CardanoPayload}
  {tx : MultiEraTx}

theorem CardanoPayload.Agrees.parsed (h : payload'.Agrees tx payload) :
    payload'.parsed P = payload.parsed P := by
  rw [CardanoPayload.parsed, CardanoPayload.parsed, h.raw]

theorem CardanoPayload.Agrees.summarizeTx (h : payload'.Agrees tx payload) :
    summarizeTx P payload' tx = summarizeTx P payload tx := by
  refine summarizeTx_congr P fun r hr => ?_
  obtain ⟨input, hinput, rfl⟩ := (mem_inputRefs P payload tx).mp hr
  exact h.entries input (List.mem_append_left _ hinput)

theorem CardanoPayload.Agrees.assignInputOn (h : payload'.Agrees tx payload) :
    assignInputOn P payload' tx = assignInputOn P payload tx := by
  have haddress : ∀ reqAddr, ∀ input ∈ tx.inputs,
      addressOk P payload' reqAddr input = addressOk P payload reqAddr input := by
    intro reqAddr input hinput
    unfold addressOk CardanoPayload.resolvedOutput
    rw [h.entries input (List.mem_append_left _ hinput)]
  funext tirInput consumed
  unfold Tx3Lift.assignInputOn
  cases constUtxoRefs tirInput.utxos with
  | some refs => rfl
  | none =>
    cases expectInputQuery tirInput.utxos with
    | none => rfl
    | some query =>
      show some _ = some _
      rw [claim_congr _ (haddress (constAddress query.address))]

/-- Payloads that agree are matched alike. -/
theorem CardanoPayload.Agrees.matchTx (h : payload'.Agrees tx payload)
    (hparse : payload.parsed P = .ok tx) (t : Tir.Tx) (profileName txName : String) :
    matchTx P t payload' profileName txName = matchTx P t payload profileName txName := by
  rw [matchTx_parsed hparse, matchTx_parsed (h.parsed.trans hparse), h.assignInputOn]

theorem CardanoPayload.Agrees.resolvedParts (h : payload'.Agrees tx payload)
    {input : TransactionInput} (hinput : input ∈ tx.inputs ++ tx.referenceInputs) :
    resolvedParts P payload' input.key = resolvedParts P payload input.key := by
  unfold Tx3Lift.resolvedParts
  rw [h.entries input hinput]

theorem CardanoPayload.Agrees.liftInputs (h : payload'.Agrees tx payload) (t : Tir.Tx)
    (a : MatchAssignment) (parties : Parties) :
    liftInputs P t tx payload' a parties = liftInputs P t tx payload a parties := by
  have hbody : liftInput P payload' tx = liftInput P payload tx := by
    funext tirInput st slot
    unfold liftInput
    cases hslot : tx.inputs[slot]? with
    | none => rfl
    | some input =>
      have hinput := List.mem_append_left tx.referenceInputs (List.mem_of_getElem? hslot)
      simp only [h.resolvedParts hinput]
  unfold Tx3Lift.liftInputs
  rw [hbody]

theorem CardanoPayload.Agrees.liftInputsSimple (h : payload'.Agrees tx payload)
    (map : List (List ℕ)) :
    liftInputsSimple P tx map payload' = liftInputsSimple P tx map payload := by
  have hbody : liftReference P payload' tx = liftReference P payload tx := by
    funext i out slot
    unfold liftReference
    cases hslot : tx.referenceInputs[slot]? with
    | none => rfl
    | some input =>
      have hinput := List.mem_append_right tx.inputs (List.mem_of_getElem? hslot)
      simp only [h.resolvedParts hinput]
  unfold Tx3Lift.liftInputsSimple
  rw [hbody]

/-- Payloads that agree are lifted alike. -/
theorem CardanoPayload.Agrees.lift (h : payload'.Agrees tx payload)
    (hparse : payload.parsed P = .ok tx) (tii : TiiFile) (txName profileName : String) (t : Tir.Tx)
    (a : MatchAssignment) :
    lift P bech32 tii txName profileName t payload' a =
      lift P bech32 tii txName profileName t payload a := by
  unfold Tx3Lift.lift
  rw [h.parsed.trans hparse, hparse]
  simp only [Except.ok_bind, h.liftInputs, h.liftInputsSimple]

end Agrees

section Rows

variable {D : Deps} {specialized : List SpecializedTii} {payload payload' : CardanoPayload}
  {tx : MultiEraTx}

/-- Payloads that agree have the same rows. -/
theorem runSpecializations_agree (h : payload'.Agrees tx payload)
    (hparse : payload.parsed D.toPallas = .ok tx) (slot : UInt64) (hash : ByteBuf)
    (mode : MatchMode) :
    runSpecializations D specialized payload' slot hash mode =
      runSpecializations D specialized payload slot hash mode := by
  have hparse' : payload'.parsed D.toPallas = .ok tx := h.parsed.trans hparse
  have hcandidates : candidatesOf D payload' tx = candidatesOf D payload tx := by
    funext spec
    unfold candidatesOf SpecializedTii.candidateAt
    simp only [h.summarizeTx, h.matchTx hparse]
  have hlift : liftSurvivor D payload' slot hash = liftSurvivor D payload slot hash := by
    funext r
    unfold liftSurvivor
    simp only [h.lift hparse]
  simp only [runSpecializations, summarize_eq hparse, summarize_eq hparse', liftCardano,
    Except.ok_bind, collectCandidates_parsed hparse, collectCandidates_parsed hparse', hcandidates,
    hlift]

end Rows

/-! ## Envelopes that agree -/

/-- The original bytes that the decoded transaction has for an output: the last entry that has any
    counts, reference inputs after inputs. -/
def U5cTx.bytesFor (tx : U5cTx) (r : UtxoRef) : Option ByteBuf :=
  (tx.inputs ++ tx.referenceInputs).reverse.findSome? fun input =>
    if (input.txHash, input.outputIndex) = r then input.asOutput.bind U5cTxOutput.originalCbor
    else none

/-- The map of resolved outputs. -/
theorem getElem?_collectResolvedInputs (tx : U5cTx) (era : Era) (r : UtxoRef) :
    (collectResolvedInputs tx era)[r]? = (tx.bytesFor r).map fun cbor =>
      { era := era, cbor := cbor } := by
  rw [collectResolvedInputs]
  refine (getElem?_foldl_insert (fun input : U5cTxInput => (input.txHash, input.outputIndex))
    (fun input => (input.asOutput.bind U5cTxOutput.originalCbor).map fun cbor =>
      ({ era := era, cbor := cbor } : ResolvedOutput)) ?_ _ ∅ r).trans ?_
  · intro out input
    cases input.asOutput.bind U5cTxOutput.originalCbor with
    | none => rfl
    | some cbor => rfl
  · rw [Std.ExtTreeMap.getElem?_empty, Option.or_none, U5cTx.bytesFor, List.map_findSome?]
    congr 1
    funext input
    rw [Function.comp_apply]
    split_ifs
    · rfl
    · rfl

/-- The bytes that an envelope has for an output. -/
def AnyChainTx.bytesFor (anyTx : AnyChainTx) (r : UtxoRef) : Option ByteBuf :=
  anyTx.chain.bind fun tx => tx.bytesFor r

/-- Envelopes of the same hash in the same block, which have the same bytes for the outputs that
    the transaction of this hash in the block spends or references. -/
structure AnyChainTx.Agrees (P : Pallas) (anyTx' anyTx : AnyChainTx) : Prop where
  block : anyTx'.block = anyTx.block
  txHash : anyTx'.txHash = anyTx.txHash
  outputs : ∀ block payload tx, Presents P anyTx block payload tx →
    ∀ input ∈ tx.inputs ++ tx.referenceInputs,
      anyTx'.bytesFor input.key = anyTx.bytesFor input.key

/-- Responses that agree. -/
inductive ActionAgrees (P : Pallas) : Option Action → Option Action → Prop
  | apply {anyTx' anyTx : AnyChainTx} (h : anyTx'.Agrees P anyTx) :
      ActionAgrees P (some (.apply anyTx')) (some (.apply anyTx))
  | undo {anyTx' anyTx : AnyChainTx} (hblock : anyTx'.block = anyTx.block)
      (htxHash : anyTx'.txHash = anyTx.txHash) :
      ActionAgrees P (some (.undo anyTx')) (some (.undo anyTx))
  | idle (block' block : BlockRef) : ActionAgrees P (some (.idle block')) (some (.idle block))
  | empty : ActionAgrees P none none

section Envelopes

variable {D : Deps} {cfg : Config} {specialized : List SpecializedTii} {mode : MatchMode}
  {anyTx anyTx' : AnyChainTx}

/-- The payloads of envelopes that agree. -/
theorem AnyChainTx.Agrees.payload {cardanoTx cardanoTx' : U5cTx} {block : Option AnyChainBlock}
    {multiEraBlock : MultiEraBlock} {targetHash : Hash 32} {target tx : MultiEraTx}
    (h : (⟨some cardanoTx', block⟩ : AnyChainTx).Agrees D.toPallas ⟨some cardanoTx, block⟩)
    (hdecoded : (⟨some cardanoTx, block⟩ : AnyChainTx).decodedBlock D.toPallas = some multiEraBlock)
    (hhash : Hash.ofBytes? 32 cardanoTx.hash = some targetHash)
    (hfind : multiEraBlock.txs.find? (fun t => t.hash = targetHash) = some target)
    (hparse : (⟨target.cbor, ∅⟩ : CardanoPayload).parsed D.toPallas = .ok tx) :
    (CardanoPayload.withResolvedInputs ⟨target.cbor, ∅⟩
        (collectResolvedInputs cardanoTx' multiEraBlock.era)).Agrees tx
      (CardanoPayload.withResolvedInputs ⟨target.cbor, ∅⟩
        (collectResolvedInputs cardanoTx multiEraBlock.era)) := by
  refine ⟨rfl, fun input hinput => ?_⟩
  have hbytes : cardanoTx'.bytesFor input.key = cardanoTx.bytesFor input.key :=
    h.outputs multiEraBlock _ tx
      ⟨hdecoded, ⟨cardanoTx, targetHash, target, rfl, hhash, hfind, rfl⟩, hparse⟩ input hinput
  show (collectResolvedInputs cardanoTx' multiEraBlock.era)[input.key]? =
    (collectResolvedInputs cardanoTx multiEraBlock.era)[input.key]?
  rw [getElem?_collectResolvedInputs, getElem?_collectResolvedInputs, hbytes]

/-- Envelopes that agree give the same rows, or fail alike. -/
theorem applyRows_agree (h : anyTx'.Agrees D.toPallas anyTx) :
    applyRows D specialized mode anyTx' = applyRows D specialized mode anyTx := by
  obtain ⟨chain', block'⟩ := anyTx'
  obtain ⟨chain, block⟩ := anyTx
  obtain rfl : block' = block := h.block
  match chain, chain', block' with
  | none, none, _ => rfl
  | none, some _, _ => cases h.txHash
  | some _, none, _ => cases h.txHash
  | some _, some _, none => rfl
  | some cardanoTx, some cardanoTx', some native =>
    have hsame : cardanoTx'.hash = cardanoTx.hash := Option.some.inj h.txHash
    unfold applyRows
    simp only [hsame]
    split_ifs with hempty
    · rfl
    refine Except.bind_congr_ok fun multiEraBlock hblock => ?_
    refine Except.bind_congr_ok fun targetHash hhash => ?_
    refine Except.bind_congr_ok fun target hfind => ?_
    refine Except.bind_congr_ok fun payload hpayload => ?_
    have hne : native.nativeBytes ≠ [] := by simpa using hempty
    have hdecoded : (⟨some cardanoTx, some native⟩ : AnyChainTx).decodedBlock D.toPallas =
        some multiEraBlock :=
      decodedBlock_eq_some.mpr ⟨native, rfl, hne, Except.mapError_eq_ok.mp hblock⟩
    obtain ⟨tx, hparse, hraw⟩ := Except.bind_eq_ok (liftCardano_eq_ok.mp hpayload)
    cases hraw
    have hagrees := h.payload hdecoded (okOr_eq_ok.mp hhash) (okOr_eq_ok.mp hfind) hparse
    rw [runSpecializations_agree hagrees hparse]

/-- One response. -/
theorem handleAction_agree {a a' : Option Action} (h : ActionAgrees D.toPallas a' a)
    (store : Store) :
    handleAction D cfg specialized store a' = handleAction D cfg specialized store a := by
  cases h with
  | apply h =>
    show applyTx D specialized cfg.mode store _ = applyTx D specialized cfg.mode store _
    rw [applyTx, applyTx, applyRows_agree h]
  | @undo anyTx' anyTx hblock htxHash =>
    obtain ⟨chain', block'⟩ := anyTx'
    obtain ⟨chain, block⟩ := anyTx
    obtain rfl : block' = block := hblock
    cases chain with
    | none =>
      cases chain' with
      | none => rfl
      | some _ => cases htxHash
    | some cardanoTx =>
      cases chain' with
      | none => cases htxHash
      | some cardanoTx' =>
        have hsame : cardanoTx'.hash = cardanoTx.hash := Option.some.inj htxHash
        show Except.ok (store.undoTx cardanoTx'.hash _).1 =
          Except.ok (store.undoTx cardanoTx.hash _).1
        rw [hsame]
        rfl
  | idle block' block => rfl
  | empty => rfl

end Envelopes

/-- **Only the outputs of the transaction itself are read.** Two streams whose envelopes carry the
    same blocks and hashes, and the same original bytes for what each transaction of a block spends
    or references, are handled alike from every database, whatever else the upstream put into the
    envelopes. -/
theorem own_outputs_decide (D : Deps) (cfg : Config) (specialized : List SpecializedTii)
    (start : Store) (es es' : List (Option Action))
    (h : List.Forall₂ (ActionAgrees D.toPallas) es' es) :
    run (handleAction D cfg specialized) start es' =
      run (handleAction D cfg specialized) start es := by
  induction h generalizing start with
  | nil => rfl
  | cons ha _ ih =>
    rw [run, run, List.foldlM_cons, List.foldlM_cons, handleAction_agree ha]
    exact bind_congr fun store => ih store

namespace Sample

/-- A reference input that no transaction has: its transaction id is too short. -/
def strayInput : U5cTxInput :=
  { txHash := [0x01], outputIndex := 7, asOutput := some { originalCbor := some [0xff] } }

/-- The same envelope with the stray reference input. -/
def noisy (anyTx : AnyChainTx) : AnyChainTx :=
  { anyTx with chain := anyTx.chain.map fun tx =>
      { tx with referenceInputs := tx.referenceInputs ++ [strayInput] } }

theorem noisy_agrees (P : Pallas) (anyTx : AnyChainTx) : (noisy anyTx).Agrees P anyTx := by
  obtain ⟨chain, block⟩ := anyTx
  refine ⟨rfl, ?_, fun _ _ _ _ input _ => ?_⟩
  · cases chain with
    | none => rfl
    | some tx => rfl
  · cases chain with
    | none => rfl
    | some tx =>
      have hkey : ([0x01], 7) ≠ input.key := by
        intro heq
        have hlen := congrArg (fun r : UtxoRef => r.1.length) heq
        simp [TransactionInput.key, input.hash.length_eq] at hlen
      show U5cTx.bytesFor _ _ = U5cTx.bytesFor _ _
      simp [U5cTx.bytesFor, strayInput, hkey]

end Sample

theorem own_outputs_decide_sample :
    run (handleAction Sample.chainDeps Sample.cfg [Sample.source]) Store.empty
        [some (.apply (Sample.noisy (Sample.envelope Sample.childBytes Sample.scriptTx))),
         some (.undo (Sample.noisy (Sample.envelope Sample.childBytes Sample.scriptTx))),
         some (.apply (Sample.noisy (Sample.envelope Sample.rivalBytes Sample.scriptTx)))] =
      run (handleAction Sample.chainDeps Sample.cfg [Sample.source]) Store.empty
        [some (.apply (Sample.envelope Sample.childBytes Sample.scriptTx)),
         some (.undo (Sample.envelope Sample.childBytes Sample.scriptTx)),
         some (.apply (Sample.envelope Sample.rivalBytes Sample.scriptTx))] :=
  own_outputs_decide Sample.chainDeps Sample.cfg [Sample.source] Store.empty _ _
    (.cons (.apply (Sample.noisy_agrees _ _)) (.cons (.undo rfl rfl)
      (.cons (.apply (Sample.noisy_agrees _ _)) .nil)))

end Tx3Lift
