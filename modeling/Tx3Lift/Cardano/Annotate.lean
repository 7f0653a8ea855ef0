import Tx3Lift.Cardano.Lifting
import Tx3Lift.Cardano.Matching
import Tx3Lift.Core.Strengthen
import Tx3Lift.Lib.Emit

/-!
# Lifting what was matched

`lift` walks the maps of an assignment and reads the payload again. For an assignment that
`match_tx` returned:

* `liftInputs_eq`, `liftInputsSimple_eq`, `liftOutputs_eq`, `liftMints_eq`: the nested loops
  as one loop over the positions of their map.
* `lift_faithful`: one annotation for each slot, in order, with the data of that slot.
* `lift_ok_iff`: `lift` succeeds exactly when the resolved outputs that the matcher did not
  look at can be decoded.
-/

namespace Tx3Lift

open Lib Tir

/-! ## A sample with a query

`spend` has one input query, at the runtime address `payer`. -/

namespace Sample

/-- The encoded TIR of `spend`. -/
def spendCbor : ByteBuf :=
  [0xab, 0x64, 0x66, 0x65, 0x65, 0x73, 0x64, 0x4e, 0x6f, 0x6e, 0x65, 0x6a, 0x72, 0x65, 0x66, 0x65,
   0x72, 0x65, 0x6e, 0x63, 0x65, 0x73, 0x80, 0x66, 0x69, 0x6e, 0x70, 0x75, 0x74, 0x73, 0x81, 0xa3,
   0x64, 0x6e, 0x61, 0x6d, 0x65, 0x66, 0x73, 0x6f, 0x75, 0x72, 0x63, 0x65, 0x65, 0x75, 0x74, 0x78,
   0x6f, 0x73, 0xa1, 0x69, 0x45, 0x76, 0x61, 0x6c, 0x50, 0x61, 0x72, 0x61, 0x6d, 0xa1, 0x6b, 0x45,
   0x78, 0x70, 0x65, 0x63, 0x74, 0x49, 0x6e, 0x70, 0x75, 0x74, 0x82, 0x66, 0x73, 0x6f, 0x75, 0x72,
   0x63, 0x65, 0xa5, 0x67, 0x61, 0x64, 0x64, 0x72, 0x65, 0x73, 0x73, 0xa1, 0x69, 0x45, 0x76, 0x61,
   0x6c, 0x50, 0x61, 0x72, 0x61, 0x6d, 0xa1, 0x6b, 0x45, 0x78, 0x70, 0x65, 0x63, 0x74, 0x56, 0x61,
   0x6c, 0x75, 0x65, 0x82, 0x65, 0x70, 0x61, 0x79, 0x65, 0x72, 0x67, 0x41, 0x64, 0x64, 0x72, 0x65,
   0x73, 0x73, 0x6a, 0x6d, 0x69, 0x6e, 0x5f, 0x61, 0x6d, 0x6f, 0x75, 0x6e, 0x74, 0x64, 0x4e, 0x6f,
   0x6e, 0x65, 0x63, 0x72, 0x65, 0x66, 0x64, 0x4e, 0x6f, 0x6e, 0x65, 0x64, 0x6d, 0x61, 0x6e, 0x79,
   0xf4, 0x6a, 0x63, 0x6f, 0x6c, 0x6c, 0x61, 0x74, 0x65, 0x72, 0x61, 0x6c, 0xf4, 0x68, 0x72, 0x65,
   0x64, 0x65, 0x65, 0x6d, 0x65, 0x72, 0x64, 0x4e, 0x6f, 0x6e, 0x65, 0x67, 0x6f, 0x75, 0x74, 0x70,
   0x75, 0x74, 0x73, 0x80, 0x68, 0x76, 0x61, 0x6c, 0x69, 0x64, 0x69, 0x74, 0x79, 0xf6, 0x65, 0x6d,
   0x69, 0x6e, 0x74, 0x73, 0x80, 0x65, 0x62, 0x75, 0x72, 0x6e, 0x73, 0x80, 0x65, 0x61, 0x64, 0x68,
   0x6f, 0x63, 0x80, 0x6a, 0x63, 0x6f, 0x6c, 0x6c, 0x61, 0x74, 0x65, 0x72, 0x61, 0x6c, 0x80, 0x67,
   0x73, 0x69, 0x67, 0x6e, 0x65, 0x72, 0x73, 0xf6, 0x68, 0x6d, 0x65, 0x74, 0x61, 0x64, 0x61, 0x74,
   0x61, 0x80]

/-- `serde_json::to_vec` on `spend`. -/
def spendJson : ByteBuf :=
  asciiBytes ("\x7b\"fees\":\"None\",\"references\":[],\"inputs\":[\x7b\"name\":\"source\",\"utxos\":" ++
    "\x7b\"EvalParam\":\x7b\"ExpectInput\":[\"source\",\x7b\"address\":\x7b\"EvalParam\":" ++
    "\x7b\"ExpectValue\":[\"payer\",\"Address\"]\x7d\x7d,\"min_amount\":\"None\",\"ref\":\"None\"," ++
    "\"many\":false,\"collateral\":false\x7d]\x7d\x7d,\"redeemer\":\"None\"\x7d],\"outputs\":[]," ++
    "\"validity\":null,\"mints\":[],\"burns\":[],\"adhoc\":[],\"collateral\":[],\"signers\":null," ++
    "\"metadata\":[]\x7d")

/-- `spend`. -/
def spendTir : Tir.Tx :=
  { references := []
    inputs := [{ name := "source", utxos := .evalParam (.expectInput "source"
      { address := .evalParam (.expectValue "payer"), minAmount := .none, ref := .none,
        many := false, collateral := false }) }]
    outputs := []
    validity := none
    mints := []
    burns := []
    collateral := []
    signers := none
    metadata := []
    json := spendJson }

/-- `tx3_tir` with `spend` among the templates, under arguments without `payer`. -/
def spendTx3 : Tx3 :=
  { tx3 with
    fromBytes := fun bytes version =>
      if bytes = spendCbor then .ok spendTir else tx3.fromBytes bytes version }

/-- A document with the one transaction `spend`. -/
def spendTii : TiiFile :=
  { version := "v1beta0"
    protocolName := "sample"
    transactions := HashMap.singleton "spend" (transactionOf spendCbor)
    profiles := HashMap.singleton "preview" vaultProfile }

def vaultArgs : ArgMap := Std.ExtTreeMap.empty.insert "vault" (.address scriptAddress)

theorem argsFromProfile_vault : argsFromProfile bech32 vaultProfile ∅ = .ok vaultArgs := rfl

theorem decodeTir_transactionOf {T : Tx3} {cbor : ByteBuf} {tir : Tir.Tx}
    (hversion : T.tirVersion "v1beta0" = .ok .v1Beta0)
    (h : T.fromBytes cbor .v1Beta0 = .ok tir) : decodeTir T (transactionOf cbor) = .ok tir :=
  decodeTir_eq_ok hversion (decodeContent_hexEncode T "v1beta0" cbor) h

theorem tirVersion_tx3 : tx3.tirVersion "v1beta0" = .ok .v1Beta0 := by
  simp only [tx3, if_true]

theorem fromBytes_spendCbor : spendTx3.fromBytes spendCbor .v1Beta0 = .ok spendTir := by
  simp only [spendTx3, if_true]

theorem specialize_spend : specialize spendTx3 bech32 spendTii "spend" "preview" ∅ = .ok spendTir :=
  specialize_eq_ok.mpr ⟨transactionOf spendCbor, vaultProfile, vaultArgs, spendTir, rfl, rfl,
    argsFromProfile_vault, decodeTir_transactionOf tirVersion_tx3 fromBytes_spendCbor, rfl⟩

/-- `lock`, specialized to the script address. -/
def lockScriptTir : Tir.Tx := lockTir (.evalParam (.set (.address scriptAddress)))

/-- An output of the Byron era: the address is an array, not a byte string. -/
def byronCbor : ByteBuf :=
  [0x82, 0x82, 0xd8, 0x18, 0x58, 0x21, 0x83, 0x58, 0x1c] ++ List.replicate 28 0x55 ++
    [0xa0, 0x00, 0x1a, 0x63, 0x15, 0x2e, 0xe3, 0x1a, 0x00, 0x1e, 0x84, 0x80]

/-- The sample transaction with its input resolved to these bytes, under the era of its
    block. -/
def resolvedPayload (cbor : ByteBuf) : CardanoPayload :=
  { raw := scriptTx.cbor
    resolvedInputs := Std.ExtTreeMap.empty.insert (spentTx.bytes, 0)
      { era := .conway, cbor := cbor } }

end Sample

/-! ## The loops over positions -/

section Loops

variable (P : Pallas) (payload : CardanoPayload) (tx : MultiEraTx) (specialized : Tir.Tx)

/-- One round of `lift_inputs`, at a position of the input map. -/
def liftInputAt (st : List InputAnnotation × Parties) (p : ℕ × ℕ) :
    Except CardanoLiftError (List InputAnnotation × Parties) :=
  match specialized.inputs[p.1]? with
  | none => return st
  | some tirInput => liftInput P payload tx tirInput st p.2

theorem liftInputs_eq (a : MatchAssignment) (parties : Parties) :
    liftInputs P specialized tx payload a parties =
      (positions a.inputMap).foldlM (liftInputAt P payload tx specialized) ([], parties) := by
  have hskip : ∀ (slots : List ℕ) (st : List InputAnnotation × Parties),
      slots.foldlM (fun st _ => (return st : Except CardanoLiftError _)) st = .ok st := by
    intro slots
    induction slots with
    | nil => intro st; rfl
    | cons s slots ih => intro st; exact ih st
  have hentry : ∀ (st : List InputAnnotation × Parties) (entry : List ℕ × ℕ),
      (match specialized.inputs[entry.2]? with
        | none => return st
        | some tirInput => entry.1.foldlM (liftInput P payload tx tirInput) st) =
      entry.1.foldlM (fun st s => liftInputAt P payload tx specialized st (entry.2, s)) st := by
    intro st entry
    unfold liftInputAt
    dsimp only
    cases specialized.inputs[entry.2]? with
    | none => exact (hskip entry.1 st).symm
    | some tirInput => rfl
  have hloops := foldlM_zipIdx
    (fun k st s => liftInputAt P payload tx specialized st (k, s)) a.inputMap ([], parties)
  rw [← hloops]
  unfold liftInputs
  congr 1
  funext st entry
  exact hentry st entry

theorem liftInputsSimple_eq (map : List (List ℕ)) :
    liftInputsSimple P tx map payload =
      (positions map).foldlM (fun out p => liftReference P payload tx p.1 out p.2) [] :=
  foldlM_zipIdx (liftReference P payload tx) map []

theorem liftOutputs_eq (a : MatchAssignment) (parties : Parties) :
    liftOutputs P tx a parties =
      (positions a.outputMap).foldl (fun st p => liftOutput P tx p.1 st p.2) ([], parties) :=
  foldl_zipIdx (liftOutput P tx) a.outputMap ([], parties)

/-- The annotation of one policy of the mint field. -/
def annotateMint (tirIdx : ℕ) (policy : MultiEraPolicyAssets) : MintAnnotation :=
  { tirMintIndex := tirIdx
    policy := policy.policy.bytes
    policyName := none
    assets := policy.assets.map fun a => (a.name, a.anyCoin)
    redeemer := none }

theorem liftMints_eq (map : List (List ℕ)) :
    liftMints tx map =
      (positions map).filterMap fun p => tx.mints[p.2]?.map (annotateMint p.1) :=
  flatMap_zipIdx (fun k slot => tx.mints[slot]?.map (annotateMint k)) map

end Loops

/-! ## What one round reads -/

/-- The resolved output of an input decodes, if the map has one. -/
def CardanoPayload.Readable (P : Pallas) (payload : CardanoPayload) (input : TransactionInput) :
    Prop :=
  ∀ resolved, payload.resolvedInputs[input.key]? = some resolved →
    ∃ output, P.decodeOutput resolved.era resolved.cbor = .ok output

/-- The address that an input shows: that of its resolved output, empty if there is none. -/
def CardanoPayload.addressOf (P : Pallas) (payload : CardanoPayload) (input : TransactionInput) :
    ByteBuf :=
  ((payload.resolvedOutput P input).bind MultiEraOutput.address).getD []

/-- An input, if there is one, has a resolved output that decodes to `output`. -/
def CardanoPayload.ResolvesTo (P : Pallas) (payload : CardanoPayload)
    (input : Option TransactionInput) (output : MultiEraOutput) : Prop :=
  ∃ i, input = some i ∧ payload.resolvedOutput P i = some output

section Rounds

variable {P : Pallas} {payload : CardanoPayload} {tx : MultiEraTx} {specialized : Tir.Tx}

theorem resolvedParts_eq_ok_iff {input : TransactionInput} :
    (∃ parts, resolvedParts P payload input.key = .ok parts) ↔ payload.Readable P input := by
  unfold resolvedParts CardanoPayload.Readable
  cases payload.resolvedInputs[input.key]? with
  | none => simp [pure, Except.pure]
  | some resolved =>
    cases hd : P.decodeOutput resolved.era resolved.cbor <;>
      simp [hd, pallasResult, bind, Except.bind, pure, Except.pure]

/-- The parts that are read: those of the resolved output, empty if there is none. -/
theorem resolvedParts_spec {input : TransactionInput}
    {parts : ByteBuf × CanonicalAssets × Option TypedDatum}
    (h : resolvedParts P payload input.key = .ok parts) :
    parts = ((payload.resolvedOutput P input).map fun output =>
      (output.address.getD [], collectAssets output, decodeInlineDatum P output)).getD
        ([], [], none) := by
  unfold resolvedParts at h
  unfold CardanoPayload.resolvedOutput
  cases hr : payload.resolvedInputs[input.key]? with
  | none =>
    rw [hr] at h
    cases h
    rfl
  | some resolved =>
    rw [hr] at h
    obtain ⟨output, hd, h⟩ := Except.bind_eq_ok h
    cases h
    rw [Option.bind_some, pallasResult_eq_ok.mp hd]
    rfl

theorem resolvedParts_address {input : TransactionInput}
    {parts : ByteBuf × CanonicalAssets × Option TypedDatum}
    (h : resolvedParts P payload input.key = .ok parts) : parts.1 = payload.addressOf P input := by
  rw [resolvedParts_spec h]
  unfold CardanoPayload.addressOf
  cases payload.resolvedOutput P input <;> rfl

/-- A round of `lift_inputs` fails exactly when it meets a resolved output that does not
    decode. -/
theorem liftInputAt_ok_iff (st : List InputAnnotation × Parties) (p : ℕ × ℕ) :
    (∃ st', liftInputAt P payload tx specialized st p = .ok st') ↔
      ∀ tirInput input, specialized.inputs[p.1]? = some tirInput → tx.inputs[p.2]? = some input →
        payload.Readable P input := by
  unfold liftInputAt liftInput
  cases specialized.inputs[p.1]? with
  | none => simp [pure, Except.pure]
  | some tirInput =>
    cases tx.inputs[p.2]? with
    | none => simp [pure, Except.pure]
    | some input =>
      refine (Except.exists_bind_eq_ok fun parts => ⟨_, rfl⟩).trans ?_
      rw [resolvedParts_eq_ok_iff]
      simp

theorem liftReference_ok_iff (out : List InputAnnotation) (p : ℕ × ℕ) :
    (∃ out', liftReference P payload tx p.1 out p.2 = .ok out') ↔
      ∀ input, tx.referenceInputs[p.2]? = some input → payload.Readable P input := by
  unfold liftReference
  cases tx.referenceInputs[p.2]? with
  | none => simp [pure, Except.pure]
  | some input =>
    refine (Except.exists_bind_eq_ok fun parts => ⟨_, rfl⟩).trans ?_
    rw [resolvedParts_eq_ok_iff]
    simp

end Rounds

/-! ## Labels -/

/-- The annotation of a spent input labels the slot at the position `p` of the input map. -/
def InputLabel (P : Pallas) (payload : CardanoPayload) (tx : MultiEraTx) (specialized : Tir.Tx)
    (p : ℕ × ℕ) (ann : InputAnnotation) : Prop :=
  ∃ tirInput input, specialized.inputs[p.1]? = some tirInput ∧ tx.inputs[p.2]? = some input ∧
    ann.tirInputName = tirInput.name ∧ ann.utxoRef = input.key ∧
    (input.index.toNat < 2 ^ 32 → input.IsRef ann.utxoRef) ∧
    ann.address = payload.addressOf P input

/-- The annotation of a reference input labels the slot at `p` of the reference map. -/
def ReferenceLabel (P : Pallas) (payload : CardanoPayload) (tx : MultiEraTx)
    (specialized : Tir.Tx) (p : ℕ × ℕ) (ann : InputAnnotation) : Prop :=
  ∃ tirRef input, specialized.references[p.1]? = some tirRef ∧
    tx.referenceInputs[p.2]? = some input ∧
    ann.tirInputName = "ref_" ++ toString p.1 ∧ ann.utxoRef = input.key ∧
    (input.index.toNat < 2 ^ 32 → input.IsRef ann.utxoRef) ∧
    ann.address = payload.addressOf P input

/-- The annotation of an output labels the slot at `p` of the output map. -/
def OutputLabel (tx : MultiEraTx) (specialized : Tir.Tx) (p : ℕ × ℕ) (ann : OutputAnnotation) :
    Prop :=
  ∃ tirOutput output, specialized.outputs[p.1]? = some tirOutput ∧
    tx.outputs[p.2]? = some output ∧ ann.tirOutputIndex = p.1 ∧
    ann.address = output.address.getD []

/-- The annotation of a mint or burn labels the slot at `p` of its map; `items` are the
    template's mints or burns. -/
def MintLabel (tx : MultiEraTx) (items : List Tir.Mint) (p : ℕ × ℕ) (ann : MintAnnotation) :
    Prop :=
  ∃ tirMint policy, items[p.1]? = some tirMint ∧ tx.mints[p.2]? = some policy ∧
    ann.tirMintIndex = p.1 ∧ ann.policy = policy.policy.bytes

/-- One annotation for each position of the map, in order, and no slot at two positions. -/
structure Labelled {α : Type} (Label : ℕ × ℕ → α → Prop)
    (map : List (List ℕ)) (annotations : List α) : Prop where
  each : List.Forall₂ Label (positions map) annotations
  once : ((positions map).map Prod.snd).Nodup

/-- The annotations of `lifted` are the slots of the assignment. -/
structure LiftFaithful (P : Pallas) (payload : CardanoPayload) (tx : MultiEraTx)
    (specialized : Tir.Tx) (a : MatchAssignment) (lifted : Lifted) : Prop where
  inputs : Labelled (InputLabel P payload tx specialized) a.inputMap lifted.inputs
  references : Labelled (ReferenceLabel P payload tx specialized) a.referenceMap lifted.references
  outputs : Labelled (OutputLabel tx specialized) a.outputMap lifted.outputs
  mints : Labelled (MintLabel tx specialized.mints) a.mintMap lifted.mints
  burns : Labelled (MintLabel tx specialized.burns) a.burnMap lifted.burns

section Faithful

variable {P : Pallas} {payload : CardanoPayload} {tx : MultiEraTx} {specialized : Tir.Tx}

/-- A map that `match_tx` returned: one entry for each item, distinct slots in range. -/
structure SlotMap {β : Type} (items : List β) (range : ℕ) (map : List (List ℕ)) : Prop where
  length_eq : map.length = items.length
  nodup : map.flatten.Nodup
  inRange : ∀ s ∈ map.flatten, s < range

theorem slotMap_of_assignAll {β : Type} {f : β → List Bool → Option (List ℕ × List Bool)} {n : ℕ}
    {items : List β} {map : List (List ℕ)}
    (h : assignAll f items (List.replicate n false) = some map)
    (hf : ∀ b u m u', u.length = n → f b u = some (m, u') → Claims u m u') :
    SlotMap items n map := by
  have htrivial : ∀ b u m u', u.length = n → f b u = some (m, u') → Claims u m u' ∧ True :=
    fun b u m u' hu hm => ⟨hf b u m u' hu hm, trivial⟩
  obtain ⟨hall, hnodup, hrange⟩ := assignAll_spec htrivial h
  exact ⟨hall.length_eq.symm, hnodup, hrange⟩

/-- The maps of an assignment that `match_tx` returned. -/
structure SlotMaps (tx : MultiEraTx) (t : Tir.Tx) (a : MatchAssignment) : Prop where
  inputs : SlotMap t.inputs tx.inputs.length a.inputMap
  outputs : SlotMap t.outputs tx.outputs.length a.outputMap
  mints : SlotMap t.mints tx.mints.length a.mintMap
  burns : SlotMap t.burns tx.mints.length a.burnMap
  references : SlotMap t.references tx.referenceInputs.length a.referenceMap

theorem slotMaps_of_matchTx {profileName txName : String} {a : MatchAssignment}
    (hparse : payload.parsed P = .ok tx)
    (hmatch : matchTx P specialized payload profileName txName = .ok (some a)) :
    SlotMaps tx specialized a := by
  obtain ⟨hin, hout, hmint, hburn, href⟩ := matchTx_eq hparse hmatch
  exact
    { inputs := slotMap_of_assignAll hin fun _ _ _ _ hu h => (assignInputOn_claims hu h).1
      outputs := slotMap_of_assignAll hout fun _ _ _ _ hu h => (matchOutput_spec hu h).1
      mints := slotMap_of_assignAll hmint fun _ _ _ _ hu h => (matchMint_spec hu h).1
      burns := slotMap_of_assignAll hburn fun _ _ _ _ hu h => (matchBurn_spec hu h).1
      references := slotMap_of_assignAll href fun _ _ _ _ hu h => matchReference_claims hu h }

/-- Annotations appended one for each position, over a map that `match_tx` returned. -/
theorem labelled_of_slotMap {α β γ : Type} {Label : ℕ × ℕ → α → Prop}
    {items : List β} {xs : List γ} {map : List (List ℕ)} {annotations : List α}
    (hmap : SlotMap items xs.length map)
    (h : (∀ p ∈ positions map, (∃ item, items[p.1]? = some item) ∧ ∃ x, xs[p.2]? = some x) →
      List.Forall₂ Label (positions map) annotations) : Labelled Label map annotations := by
  refine ⟨h fun p hp => mem_positions_range hmap.length_eq hmap.inRange hp, ?_⟩
  rw [positions_slots]
  exact hmap.nodup

/-- What a round of `lift_inputs` appends, from the parts of the resolved output. -/
theorem liftInputAt_spec {st st' : List InputAnnotation × Parties} {p : ℕ × ℕ}
    {tirInput : Tir.Input} {input : TransactionInput}
    (hitem : specialized.inputs[p.1]? = some tirInput) (hslot : tx.inputs[p.2]? = some input)
    (h : liftInputAt P payload tx specialized st p = .ok st') :
    ∃ parts, resolvedParts P payload input.key = .ok parts ∧
      st'.1 = st.1 ++
        [{ tirInputName := tirInput.name, utxoRef := input.key, address := parts.1,
           party := (matchParty parts.1 st.2 .input).1, assets := parts.2.1, datum := parts.2.2,
           redeemer := none }] := by
  simp only [liftInputAt, hitem, liftInput, hslot] at h
  obtain ⟨parts, hparts, h⟩ := Except.bind_eq_ok h
  cases h
  exact ⟨parts, hparts, rfl⟩

theorem liftReference_spec {out out' : List InputAnnotation} {p : ℕ × ℕ}
    {input : TransactionInput} (hslot : tx.referenceInputs[p.2]? = some input)
    (h : liftReference P payload tx p.1 out p.2 = .ok out') :
    ∃ parts, resolvedParts P payload input.key = .ok parts ∧
      out' = out ++
        [{ tirInputName := "ref_" ++ toString p.1, utxoRef := input.key, address := parts.1,
           party := none, assets := parts.2.1, datum := parts.2.2, redeemer := none }] := by
  simp only [liftReference, hslot] at h
  obtain ⟨parts, hparts, h⟩ := Except.bind_eq_ok h
  cases h
  exact ⟨parts, hparts, rfl⟩

theorem liftInputAt_emits {st st' : List InputAnnotation × Parties} {p : ℕ × ℕ}
    {tirInput : Tir.Input} {input : TransactionInput}
    (hitem : specialized.inputs[p.1]? = some tirInput) (hslot : tx.inputs[p.2]? = some input)
    (h : liftInputAt P payload tx specialized st p = .ok st') :
    ∃ ann, st'.1 = st.1 ++ [ann] ∧ InputLabel P payload tx specialized p ann := by
  obtain ⟨parts, hparts, hann⟩ := liftInputAt_spec hitem hslot h
  exact ⟨_, hann, tirInput, input, hitem, hslot, rfl, rfl, fun hfit => (key_eq_iff hfit _).mp rfl,
    resolvedParts_address hparts⟩

theorem liftReference_emits {out out' : List InputAnnotation} {p : ℕ × ℕ} {tirRef : Expression}
    {input : TransactionInput} (hitem : specialized.references[p.1]? = some tirRef)
    (hslot : tx.referenceInputs[p.2]? = some input)
    (h : liftReference P payload tx p.1 out p.2 = .ok out') :
    ∃ ann, out' = out ++ [ann] ∧ ReferenceLabel P payload tx specialized p ann := by
  obtain ⟨parts, hparts, hann⟩ := liftReference_spec hslot h
  exact ⟨_, hann, tirRef, input, hitem, hslot, rfl, rfl, fun hfit => (key_eq_iff hfit _).mp rfl,
    resolvedParts_address hparts⟩

theorem liftOutput_emits (st : List OutputAnnotation × Parties) {p : ℕ × ℕ}
    {tirOutput : Tir.Output} {output : MultiEraOutput}
    (hitem : specialized.outputs[p.1]? = some tirOutput)
    (hslot : tx.outputs[p.2]? = some output) :
    ∃ ann, (liftOutput P tx p.1 st p.2).1 = st.1 ++ [ann] ∧ OutputLabel tx specialized p ann := by
  simp only [liftOutput, hslot]
  exact ⟨_, rfl, tirOutput, output, hitem, hslot, rfl, rfl⟩

theorem liftMints_labels {items : List Tir.Mint} {map : List (List ℕ)}
    (hin : ∀ p ∈ positions map, (∃ item, items[p.1]? = some item) ∧ ∃ x, tx.mints[p.2]? = some x) :
    List.Forall₂ (MintLabel tx items) (positions map) (liftMints tx map) := by
  rw [liftMints_eq]
  refine filterMap_emits fun p hp => ?_
  obtain ⟨⟨item, hitem⟩, policy, hslot⟩ := hin p hp
  exact ⟨_, by rw [hslot]; rfl, item, policy, hitem, hslot, rfl, rfl⟩

section Passes

variable {a : MatchAssignment} {lifted : Lifted} {parties afterInputs : Parties}

/-- What every round of a pass over a match establishes of the annotation it appends. -/
theorem LiftRun.inputs_each {R : ℕ × ℕ → InputAnnotation → Prop}
    (hrun : LiftRun P specialized payload a lifted tx parties afterInputs)
    (hmaps : SlotMaps tx specialized a)
    (hround : ∀ p st st' tirInput input, specialized.inputs[p.1]? = some tirInput →
      tx.inputs[p.2]? = some input → liftInputAt P payload tx specialized st p = .ok st' →
      ∃ ann, st'.1 = st.1 ++ [ann] ∧ R p ann) :
    List.Forall₂ R (positions a.inputMap) lifted.inputs := by
  have hinputs := hrun.inputs
  rw [liftInputs_eq] at hinputs
  obtain ⟨anns, hanns, hall⟩ := foldlM_emits (fun p hp st st' h => by
    obtain ⟨⟨tirInput, hitem⟩, input, hslot⟩ :=
      mem_positions_range hmaps.inputs.length_eq hmaps.inputs.inRange hp
    exact hround p st st' tirInput input hitem hslot h) hinputs
  change lifted.inputs = [] ++ anns at hanns
  rw [hanns]
  exact hall

theorem LiftRun.references_each {R : ℕ × ℕ → InputAnnotation → Prop}
    (hrun : LiftRun P specialized payload a lifted tx parties afterInputs)
    (hmaps : SlotMaps tx specialized a)
    (hround : ∀ p out out' tirRef input, specialized.references[p.1]? = some tirRef →
      tx.referenceInputs[p.2]? = some input →
      liftReference P payload tx p.1 out p.2 = .ok out' → ∃ ann, out' = out ++ [ann] ∧ R p ann) :
    List.Forall₂ R (positions a.referenceMap) lifted.references := by
  have hreferences := hrun.references
  rw [liftInputsSimple_eq] at hreferences
  obtain ⟨anns, hanns, hall⟩ := foldlM_emits (fun p hp out out' h => by
    obtain ⟨⟨tirRef, hitem⟩, input, hslot⟩ :=
      mem_positions_range hmaps.references.length_eq hmaps.references.inRange hp
    exact hround p out out' tirRef input hitem hslot h) hreferences
  rw [hanns]
  exact hall

theorem LiftRun.outputs_each {R : ℕ × ℕ → OutputAnnotation → Prop}
    (hrun : LiftRun P specialized payload a lifted tx parties afterInputs)
    (hmaps : SlotMaps tx specialized a)
    (hround : ∀ p st tirOutput output, specialized.outputs[p.1]? = some tirOutput →
      tx.outputs[p.2]? = some output →
      ∃ ann, (liftOutput P tx p.1 st p.2).1 = st.1 ++ [ann] ∧ R p ann) :
    List.Forall₂ R (positions a.outputMap) lifted.outputs := by
  rw [hrun.outputs, liftOutputs_eq]
  obtain ⟨anns, hanns, hall⟩ := foldl_emits
    (fun st (p : ℕ × ℕ) => liftOutput P tx p.1 st p.2) Prod.fst
    (fun p hp st => by
      obtain ⟨⟨tirOutput, hitem⟩, output, hslot⟩ :=
        mem_positions_range hmaps.outputs.length_eq hmaps.outputs.inRange hp
      exact hround p st tirOutput output hitem hslot) ([], afterInputs)
  rw [hanns]
  exact hall

/-- The passes over a match label its slots. -/
theorem LiftRun.inputs_labelled
    (hrun : LiftRun P specialized payload a lifted tx parties afterInputs)
    (hmaps : SlotMaps tx specialized a) :
    Labelled (InputLabel P payload tx specialized) a.inputMap lifted.inputs :=
  labelled_of_slotMap hmaps.inputs fun _ =>
    hrun.inputs_each hmaps fun _ _ _ _ _ hitem hslot h => liftInputAt_emits hitem hslot h

theorem LiftRun.references_labelled
    (hrun : LiftRun P specialized payload a lifted tx parties afterInputs)
    (hmaps : SlotMaps tx specialized a) :
    Labelled (ReferenceLabel P payload tx specialized) a.referenceMap lifted.references :=
  labelled_of_slotMap hmaps.references fun _ =>
    hrun.references_each hmaps fun _ _ _ _ _ hitem hslot h => liftReference_emits hitem hslot h

theorem LiftRun.outputs_labelled
    (hrun : LiftRun P specialized payload a lifted tx parties afterInputs)
    (hmaps : SlotMaps tx specialized a) :
    Labelled (OutputLabel tx specialized) a.outputMap lifted.outputs :=
  labelled_of_slotMap hmaps.outputs fun _ =>
    hrun.outputs_each hmaps fun _ st _ _ hitem hslot => liftOutput_emits st hitem hslot

end Passes

end Faithful

/-- **`lift` labels what was matched.** Every slot of the assignment gets one annotation, in
    the order of the map, with the name or index of its template item and the reference,
    address or policy of the payload's own element; nothing else is labelled, and nothing
    twice. -/
theorem lift_faithful (P : Pallas) (bech32 : String → Except String ByteBuf) (tii : TiiFile)
    (txName profileName : String) (specialized : Tir.Tx) (payload : CardanoPayload)
    (tx : MultiEraTx) (profileName' txName' : String) (a : MatchAssignment) (lifted : Lifted)
    (hparse : payload.parsed P = .ok tx)
    (hmatch : matchTx P specialized payload profileName' txName' = .ok (some a))
    (hlift : lift P bech32 tii txName profileName specialized payload a = .ok lifted) :
    LiftFaithful P payload tx specialized a lifted := by
  have hmaps := slotMaps_of_matchTx hparse hmatch
  obtain ⟨profile, parties, afterInputs, -, -, hrun⟩ := lift_spec hparse hlift
  refine ⟨hrun.inputs_labelled hmaps, hrun.references_labelled hmaps, hrun.outputs_labelled hmaps,
    ?_, ?_⟩
  · rw [hrun.mints]
    exact labelled_of_slotMap hmaps.mints liftMints_labels
  · rw [hrun.burns]
    exact labelled_of_slotMap hmaps.burns liftMints_labels

set_option maxRecDepth 4000 in
theorem lift_faithful_spend :
    ∃ lifted, lift (Sample.pallas []) Sample.bech32 Sample.spendTii "spend" "preview"
        Sample.spendTir (Sample.resolvedPayload (Sample.outputCbor Sample.scriptAddress))
        ⟨"", "", [[0]], [], [], [], [], []⟩ = .ok lifted ∧
      LiftFaithful (Sample.pallas [])
        (Sample.resolvedPayload (Sample.outputCbor Sample.scriptAddress)) Sample.scriptTx
        Sample.spendTir ⟨"", "", [[0]], [], [], [], [], []⟩ lifted :=
  ⟨_, rfl, lift_faithful _ Sample.bech32 Sample.spendTii "spend" "preview" _ _ _ "" "" _ _ rfl rfl
    rfl⟩

/-! ## When lifting succeeds -/

/-- The resolved outputs that the matcher accepted without looking at them can be decoded:
    those of the inputs pinned by the template or found by a query without a constant address,
    and those of the reference inputs. -/
structure BlindReadable (P : Pallas) (payload : CardanoPayload) (tx : MultiEraTx)
    (specialized : Tir.Tx) (a : MatchAssignment) : Prop where
  inputs : ∀ (k : ℕ) (tirInput : Tir.Input) (slots : List ℕ),
    specialized.inputs[k]? = some tirInput → tirInput.queryAddress = none →
    a.inputMap[k]? = some slots →
    ∀ s ∈ slots, ∀ input, tx.inputs[s]? = some input → payload.Readable P input
  references : ∀ slots ∈ a.referenceMap, ∀ s ∈ slots, ∀ input,
    tx.referenceInputs[s]? = some input → payload.Readable P input

section Succeeds

variable {P : Pallas} {payload : CardanoPayload} {tx : MultiEraTx} {specialized : Tir.Tx}
  {bech32 : String → Except String ByteBuf}

theorem profileParties_ok {profile : Profile}
    (h : ∀ entry ∈ profile.parties.entries, ∃ bytes, bech32 entry.2 = .ok bytes) :
    ∃ parties, profileParties bech32 profile = .ok parties := by
  refine (foldlM_eq_ok_iff (fun parties entry => ?_) _ _).mpr h
  unfold decodeBech32Address
  cases bech32 entry.2 <;> simp

/-- A query with a constant address has looked at what it accepted. -/
theorem readable_of_addressOk {input : TransactionInput} {req : ByteBuf}
    (h : addressOk P payload (some req) input = true) : payload.Readable P input := by
  intro resolved hresolved
  unfold addressOk CardanoPayload.resolvedOutput at h
  rw [hresolved, Option.bind_some] at h
  cases hd : P.decodeOutput resolved.era resolved.cbor with
  | error e => simp [hd, Except.toOption] at h
  | ok output => exact ⟨output, rfl⟩

theorem liftInputs_ok_iff (a : MatchAssignment) (parties : Parties) :
    (∃ r, liftInputs P specialized tx payload a parties = .ok r) ↔
      ∀ p ∈ positions a.inputMap, ∀ tirInput input, specialized.inputs[p.1]? = some tirInput →
        tx.inputs[p.2]? = some input → payload.Readable P input := by
  rw [liftInputs_eq]
  exact foldlM_eq_ok_iff liftInputAt_ok_iff _ _

theorem liftInputsSimple_ok_iff (map : List (List ℕ)) :
    (∃ r, liftInputsSimple P tx map payload = .ok r) ↔
      ∀ p ∈ positions map, ∀ input, tx.referenceInputs[p.2]? = some input →
        payload.Readable P input := by
  rw [liftInputsSimple_eq]
  exact foldlM_eq_ok_iff liftReference_ok_iff _ _

/-- What was looked at is readable, so the input loop depends on the blind slots only. -/
theorem liftInputs_ok_iff_blind {a : MatchAssignment} (parties : Parties)
    (hin : assignAll (assignInputOn P payload tx) specialized.inputs
      (List.replicate tx.inputs.length false) = some a.inputMap) :
    (∃ r, liftInputs P specialized tx payload a parties = .ok r) ↔
      ∀ (k : ℕ) (tirInput : Tir.Input) (slots : List ℕ),
        specialized.inputs[k]? = some tirInput → tirInput.queryAddress = none →
        a.inputMap[k]? = some slots →
        ∀ s ∈ slots, ∀ input, tx.inputs[s]? = some input → payload.Readable P input := by
  rw [liftInputs_ok_iff]
  obtain ⟨htests, -⟩ := assignAll_spec (f := assignInputOn P payload tx)
    (fun _ _ _ _ hu h => assignInputOn_claims hu h) hin
  constructor
  · intro h k tirInput slots hk _ hslots s hs input hinput
    exact h (k, s) (mem_positions.mpr ⟨slots, hslots, hs⟩) tirInput input hk hinput
  · rintro h ⟨k, s⟩ hp tirInput input hk hinput
    obtain ⟨slots, hslots, hs⟩ := mem_positions.mp hp
    cases haddr : tirInput.queryAddress with
    | none => exact h k tirInput slots hk haddr hslots s hs input hinput
    | some req =>
      obtain ⟨query, hquery, hreq⟩ := Option.bind_eq_some_iff.mp haddr
      obtain ⟨input', hinput', hok⟩ := forall₂_getElem? htests hk hslots query hquery s hs
      cases hinput.symm.trans hinput'
      rw [hreq] at hok
      exact readable_of_addressOk hok

end Succeeds

/-- **When a match can be lifted.** Nothing but an unreadable resolved output stops `lift`,
    and only at a slot that the matcher accepted without looking. -/
theorem lift_ok_iff (P : Pallas) (T : Tx3) (bech32 : String → Except String ByteBuf)
    (tii : TiiFile) (txName profileName : String) (extraArgs : ArgMap) (specialized : Tir.Tx)
    (payload : CardanoPayload) (tx : MultiEraTx) (profileName' txName' : String)
    (a : MatchAssignment)
    (hspecialize : specialize T bech32 tii txName profileName extraArgs = .ok specialized)
    (hparse : payload.parsed P = .ok tx)
    (hmatch : matchTx P specialized payload profileName' txName' = .ok (some a)) :
    (∃ lifted, lift P bech32 tii txName profileName specialized payload a = .ok lifted) ↔
      BlindReadable P payload tx specialized a := by
  obtain ⟨hin, -⟩ := matchTx_eq hparse hmatch
  obtain ⟨_, profile, args, _, _, hprofile, hargs, _, _⟩ := specialize_eq_ok.mp hspecialize
  have hfound : tii.profiles.get? profileName = some profile := lookupProfile_eq_ok.mp hprofile
  obtain ⟨parties, hparties⟩ := profileParties_ok (argsFromProfile_parties hargs)
  have hrefs : (∃ r, liftInputsSimple P tx a.referenceMap payload = .ok r) ↔
      ∀ slots ∈ a.referenceMap, ∀ s ∈ slots, ∀ input, tx.referenceInputs[s]? = some input →
        payload.Readable P input := by
    rw [liftInputsSimple_ok_iff]
    constructor
    · intro h slots hslots s hs
      obtain ⟨k, hk⟩ := List.mem_iff_getElem?.mp hslots
      exact h (k, s) (mem_positions.mpr ⟨slots, hk, hs⟩)
    · intro h p hp
      obtain ⟨slots, hk, hs⟩ := mem_positions.mp hp
      exact h slots (List.mem_of_getElem? hk) p.2 hs
  have hblind := liftInputs_ok_iff_blind (P := P) parties hin
  constructor
  · rintro ⟨lifted, hlift⟩
    obtain ⟨profile', parties', afterInputs, hprofile', hparties', hrun⟩ := lift_spec hparse hlift
    cases hfound.symm.trans hprofile'
    cases hparties.symm.trans hparties'
    exact ⟨hblind.mp ⟨_, hrun.inputs⟩, hrefs.mp ⟨_, hrun.references⟩⟩
  · rintro ⟨hinputs, hreferences⟩
    obtain ⟨⟨inputs, parties'⟩, hinputs⟩ := hblind.mpr hinputs
    obtain ⟨references, hreferences⟩ := hrefs.mpr hreferences
    simp [lift, hparse, hfound, okOr, hparties, hinputs, hreferences, bind, Except.bind, pure,
      Except.pure]

set_option maxRecDepth 4000 in
theorem lift_ok_iff_spend :
    (∃ lifted, lift (Sample.pallas []) Sample.bech32 Sample.spendTii "spend" "preview"
        Sample.spendTir (Sample.resolvedPayload (Sample.outputCbor Sample.scriptAddress))
        ⟨"", "", [[0]], [], [], [], [], []⟩ = .ok lifted) ↔
      BlindReadable (Sample.pallas [])
        (Sample.resolvedPayload (Sample.outputCbor Sample.scriptAddress)) Sample.scriptTx
        Sample.spendTir ⟨"", "", [[0]], [], [], [], [], []⟩ :=
  lift_ok_iff _ Sample.spendTx3 Sample.bech32 Sample.spendTii "spend" "preview" ∅ _ _ _ "" "" _
    Sample.specialize_spend rfl rfl

set_option maxRecDepth 4000 in
/-- A query whose address is a runtime parameter accepts an input whose resolved output is of
    the Byron era, which does not decode under the era of the block. -/
theorem lift_fails_unreadable :
    ∃ a, specialize Sample.spendTx3 Sample.bech32 Sample.spendTii "spend" "preview" ∅ =
        .ok Sample.spendTir ∧
      (Sample.resolvedPayload Sample.byronCbor).parsed (Sample.pallas []) = .ok Sample.scriptTx ∧
      matchTx (Sample.pallas []) Sample.spendTir (Sample.resolvedPayload Sample.byronCbor) "" "" =
        .ok (some a) ∧
      ¬∃ lifted, lift (Sample.pallas []) Sample.bech32 Sample.spendTii "spend" "preview"
        Sample.spendTir (Sample.resolvedPayload Sample.byronCbor) a = .ok lifted := by
  refine ⟨⟨"", "", [[0]], [], [], [], [], []⟩, Sample.specialize_spend, rfl, rfl, ?_⟩
  rintro ⟨lifted, hlift⟩
  have hfails : lift (Sample.pallas []) Sample.bech32 Sample.spendTii "spend" "preview"
      Sample.spendTir (Sample.resolvedPayload Sample.byronCbor)
      ⟨"", "", [[0]], [], [], [], [], []⟩ = .error (.pallasDecode "end of input bytes") := rfl
  rw [hfails] at hlift
  cases hlift

end Tx3Lift
