import Tx3Lift.Cardano.Annotate
import Tx3Lift.Core.Strengthen
import Tx3Lift.Lib.Totals

/-!
# The assets of an annotation

What `collect_assets` (`crates/tx3-lift-cardano/src/lifting.rs`, lines 237–244) keeps of the
value of an output: the coin. The native assets of the output are dropped in all three places
that call it.

* `collectAssets_whole_iff`: the value of an output comes through whole exactly when the
  output holds no native asset.
* `lift_assets_iff`: so do the values that a lifted transaction shows.
-/

namespace Tx3Lift

open Lib Tir

/-! ## Values -/

/-- An asset of an on-chain value: the coin, or a native asset. -/
inductive ChainAsset where
  | coin
  | native (policy name : ByteBuf)
deriving DecidableEq

/-- Its class in an annotation. -/
def ChainAsset.toClass : ChainAsset → AssetClass
  | .coin => .naked
  | .native policy name => .defined policy name

/-- The native assets of an output, one by one. -/
def MultiEraOutput.natives (output : MultiEraOutput) : List ((ByteBuf × ByteBuf) × ℤ) :=
  output.assets.flatMap fun policy =>
    policy.assets.map fun asset => ((policy.policy.bytes, asset.name), asset.anyCoin)

/-- How much of an asset the value of an output holds. -/
def MultiEraOutput.amountOf (output : MultiEraOutput) : ChainAsset → ℤ
  | .coin => output.coin.toNat
  | .native policy name => total Prod.fst Prod.snd output.natives (policy, name)

/-- How much an annotation gives of a class. -/
def CanonicalAssets.amountOf (assets : CanonicalAssets) (assetClass : AssetClass) : ℤ :=
  total Prod.fst Prod.snd assets assetClass

/-- The annotation gives the whole value of the output. -/
def AssetsWhole (assets : CanonicalAssets) (output : MultiEraOutput) : Prop :=
  ∀ asset : ChainAsset, assets.amountOf asset.toClass = output.amountOf asset

/-- The output holds no native asset. -/
def MultiEraOutput.CoinOnly (output : MultiEraOutput) : Prop :=
  ∀ policy name, output.amountOf (.native policy name) = 0

theorem collectAssets_amountOf (output : MultiEraOutput) (asset : ChainAsset) :
    (collectAssets output).amountOf asset.toClass =
      if asset = .coin then output.amountOf .coin else 0 := by
  unfold collectAssets CanonicalAssets.amountOf
  by_cases hzero : (output.coin.toNat : ℤ) = 0
  · rw [if_neg (not_not.mpr hzero), total_nil]
    cases asset with
    | coin => exact hzero.symm
    | native policy name => rfl
  · rw [if_pos hzero, CanonicalAssets.fromNakedAmount, total_cons, total_nil, add_zero]
    cases asset <;> rfl

/-- **What is lost.** The value of an output comes through whole exactly when the output holds
    no native asset. -/
theorem collectAssets_whole_iff (output : MultiEraOutput) :
    AssetsWhole (collectAssets output) output ↔ output.CoinOnly := by
  unfold AssetsWhole MultiEraOutput.CoinOnly
  constructor
  · intro h policy name
    have hnative := h (.native policy name)
    rw [collectAssets_amountOf] at hnative
    exact hnative.symm
  · intro h asset
    rw [collectAssets_amountOf]
    cases asset with
    | coin => rfl
    | native policy name => exact (h policy name).symm

/-! ## Lifted values -/

section Lifted

variable (P : Pallas) (payload : CardanoPayload) (tx : MultiEraTx)

/-- The annotations show whole values: of the resolved outputs of the assigned inputs and
    references, and of the assigned outputs. The annotation of an input or reference that the
    payload does not resolve is not compared with anything. -/
structure LiftedWhole (a : MatchAssignment) (lifted : Lifted) : Prop where
  inputs : List.Forall₂ (fun p (ann : InputAnnotation) => ∀ output,
    payload.ResolvesTo P tx.inputs[p.2]? output → AssetsWhole ann.assets output)
    (positions a.inputMap) lifted.inputs
  references : List.Forall₂ (fun p (ann : InputAnnotation) => ∀ output,
    payload.ResolvesTo P tx.referenceInputs[p.2]? output → AssetsWhole ann.assets output)
    (positions a.referenceMap) lifted.references
  outputs : List.Forall₂ (fun p (ann : OutputAnnotation) => ∀ output,
    tx.outputs[p.2]? = some output → AssetsWhole ann.assets output)
    (positions a.outputMap) lifted.outputs

/-- The outputs whose values the annotations show hold no native asset. -/
structure CoinsOnly (a : MatchAssignment) : Prop where
  inputs : ∀ p ∈ positions a.inputMap, ∀ output,
    payload.ResolvesTo P tx.inputs[p.2]? output → output.CoinOnly
  references : ∀ p ∈ positions a.referenceMap, ∀ output,
    payload.ResolvesTo P tx.referenceInputs[p.2]? output → output.CoinOnly
  outputs : ∀ p ∈ positions a.outputMap, ∀ output,
    tx.outputs[p.2]? = some output → output.CoinOnly

end Lifted

section Rounds

variable {P : Pallas} {payload : CardanoPayload} {tx : MultiEraTx} {specialized : Tir.Tx}

theorem resolvedParts_assets {input : TransactionInput} {output : MultiEraOutput}
    {parts : ByteBuf × CanonicalAssets × Option TypedDatum}
    (h : resolvedParts P payload input.key = .ok parts)
    (houtput : payload.resolvedOutput P input = some output) :
    parts.2.1 = collectAssets output := by
  rw [resolvedParts_spec h, houtput]
  rfl

/-- The assets of an annotation are collected from the output behind its slot. -/
theorem liftInputAt_assets {st st' : List InputAnnotation × Parties} {p : ℕ × ℕ}
    {tirInput : Tir.Input} {input : TransactionInput}
    (hitem : specialized.inputs[p.1]? = some tirInput) (hslot : tx.inputs[p.2]? = some input)
    (h : liftInputAt P payload tx specialized st p = .ok st') :
    ∃ ann, st'.1 = st.1 ++ [ann] ∧ ∀ output, payload.ResolvesTo P tx.inputs[p.2]? output →
      ann.assets = collectAssets output := by
  obtain ⟨parts, hparts, hann⟩ := liftInputAt_spec hitem hslot h
  refine ⟨_, hann, ?_⟩
  rintro output ⟨i, hi, houtput⟩
  cases hslot.symm.trans hi
  exact resolvedParts_assets hparts houtput

theorem liftReference_assets {out out' : List InputAnnotation} {p : ℕ × ℕ}
    {input : TransactionInput} (hslot : tx.referenceInputs[p.2]? = some input)
    (h : liftReference P payload tx p.1 out p.2 = .ok out') :
    ∃ ann, out' = out ++ [ann] ∧ ∀ output,
      payload.ResolvesTo P tx.referenceInputs[p.2]? output →
      ann.assets = collectAssets output := by
  obtain ⟨parts, hparts, hann⟩ := liftReference_spec hslot h
  refine ⟨_, hann, ?_⟩
  rintro output ⟨i, hi, houtput⟩
  cases hslot.symm.trans hi
  exact resolvedParts_assets hparts houtput

theorem liftOutput_assets (st : List OutputAnnotation × Parties) {p : ℕ × ℕ}
    {output : MultiEraOutput} (hslot : tx.outputs[p.2]? = some output) :
    ∃ ann, (liftOutput P tx p.1 st p.2).1 = st.1 ++ [ann] ∧ ∀ output,
      tx.outputs[p.2]? = some output → ann.assets = collectAssets output := by
  simp only [liftOutput, hslot]
  refine ⟨_, rfl, ?_⟩
  intro output' houtput'
  cases houtput'
  rfl

end Rounds

/-- An annotation with the assets that `collect_assets` gives is whole exactly when the
    output it describes holds the coin only. -/
theorem whole_iff_coinOnly {assets : CanonicalAssets} {Shown : MultiEraOutput → Prop}
    (h : ∀ output, Shown output → assets = collectAssets output) :
    (∀ output, Shown output → AssetsWhole assets output) ↔
      ∀ output, Shown output → output.CoinOnly := by
  constructor
  · intro hwhole output hshown
    have houtput := hwhole output hshown
    rw [h output hshown] at houtput
    exact (collectAssets_whole_iff output).mp houtput
  · intro hcoin output hshown
    rw [h output hshown]
    exact (collectAssets_whole_iff output).mpr (hcoin output hshown)

/-- **Lifted values.** The values that a lifted transaction shows come through whole exactly
    when none of the outputs behind them holds a native asset. -/
theorem lift_assets_iff (P : Pallas) (bech32 : String → Except String ByteBuf) (tii : TiiFile)
    (txName profileName : String) (specialized : Tir.Tx) (payload : CardanoPayload)
    (tx : MultiEraTx) (profileName' txName' : String) (a : MatchAssignment) (lifted : Lifted)
    (hparse : payload.parsed P = .ok tx)
    (hmatch : matchTx P specialized payload profileName' txName' = .ok (some a))
    (hlift : lift P bech32 tii txName profileName specialized payload a = .ok lifted) :
    LiftedWhole P payload tx a lifted ↔ CoinsOnly P payload tx a := by
  have hmaps := slotMaps_of_matchTx hparse hmatch
  obtain ⟨profile, parties, afterInputs, -, -, hrun⟩ := lift_spec hparse hlift
  have hin := hrun.inputs_each hmaps fun p _ _ _ _ hitem hslot h =>
    liftInputAt_assets hitem hslot h
  have href := hrun.references_each hmaps fun p _ _ _ _ _ hslot h => liftReference_assets hslot h
  have hout := hrun.outputs_each hmaps fun p st _ _ _ hslot => liftOutput_assets st hslot
  have hiffin := forall₂_iff_of_forall₂ hin fun _ _ h => whole_iff_coinOnly h
  have hiffref := forall₂_iff_of_forall₂ href fun _ _ h => whole_iff_coinOnly h
  have hiffout := forall₂_iff_of_forall₂ hout fun _ _ h => whole_iff_coinOnly h
  constructor
  · rintro ⟨h₁, h₂, h₃⟩
    exact ⟨hiffin.mp h₁, hiffref.mp h₂, hiffout.mp h₃⟩
  · rintro ⟨h₁, h₂, h₃⟩
    exact ⟨hiffin.mpr h₁, hiffref.mpr h₂, hiffout.mpr h₃⟩

namespace Sample

/-- A policy with one token. -/
def tokenPolicy : Hash 28 := ⟨List.replicate 28 0x88, rfl⟩

def tokenName : ByteBuf := [0x54, 0x4f, 0x4b, 0x45, 0x4e]

def tokenOutput : MultiEraOutput :=
  { address := some scriptAddress
    coin := 2000000
    assets := [{ policy := tokenPolicy, assets := [{ name := tokenName, anyCoin := 5 }] }]
    datum := none }

def tokenOutputCbor : ByteBuf :=
  [0xa2, 0x00, 0x58, 0x1d] ++ scriptAddress ++
    [0x01, 0x82, 0x1a, 0x00, 0x1e, 0x84, 0x80, 0xa1, 0x58, 0x1c] ++ tokenPolicy.bytes ++
    [0xa1, 0x45] ++ tokenName ++ [0x05]

def tokenTxHash : Hash 32 :=
  ⟨[0x0c, 0xa1, 0xfa, 0xd7, 0x4d, 0x75, 0x69, 0xf2, 0xa7, 0x3e, 0x92, 0x46, 0x49, 0x64, 0x47, 0x1d,
    0xe8, 0xef, 0x36, 0x99, 0x18, 0xb8, 0x50, 0xdc, 0x59, 0x70, 0x41, 0x2b, 0x9f, 0xd3, 0x15, 0xf9],
    rfl⟩

/-- `scriptTx` with five tokens in its output. -/
def tokenTx : MultiEraTx :=
  { scriptTx with
    hash := tokenTxHash
    cbor := [0x84, 0xa3, 0x00, 0x81, 0x82, 0x58, 0x20] ++ spentTx.bytes ++ [0x00, 0x01, 0x81] ++
      tokenOutputCbor ++ [0x02, 0x1a, 0x00, 0x03, 0x0d, 0x40, 0xa0, 0xf5, 0xf6]
    outputs := [tokenOutput] }

end Sample

set_option maxRecDepth 4000 in
theorem lift_assets_iff_lock :
    ∃ lifted, lift (Sample.pallas []) Sample.bech32 Sample.lockTii "lock" "preview"
        Sample.lockScriptTir (Sample.payloadOf Sample.scriptTx)
        ⟨"", "", [], [[0]], [], [], [], []⟩ = .ok lifted ∧
      (LiftedWhole (Sample.pallas []) (Sample.payloadOf Sample.scriptTx) Sample.scriptTx
          ⟨"", "", [], [[0]], [], [], [], []⟩ lifted ↔
        CoinsOnly (Sample.pallas []) (Sample.payloadOf Sample.scriptTx) Sample.scriptTx
          ⟨"", "", [], [[0]], [], [], [], []⟩) :=
  ⟨_, rfl, lift_assets_iff _ Sample.bech32 Sample.lockTii "lock" "preview" _ _ _ "" "" _ _ rfl rfl
    rfl⟩

set_option maxRecDepth 4000 in
/-- The five tokens of the output are lost. -/
theorem lift_drops_tokens :
    ∃ a lifted, (Sample.payloadOf Sample.tokenTx).parsed (Sample.pallasOf Sample.tokenTx) =
        .ok Sample.tokenTx ∧
      matchTx (Sample.pallasOf Sample.tokenTx) Sample.lockScriptTir
        (Sample.payloadOf Sample.tokenTx) "preview" "lock" = .ok (some a) ∧
      lift (Sample.pallasOf Sample.tokenTx) Sample.bech32 Sample.lockTii "lock" "preview"
        Sample.lockScriptTir (Sample.payloadOf Sample.tokenTx) a = .ok lifted ∧
      ¬ LiftedWhole (Sample.pallasOf Sample.tokenTx) (Sample.payloadOf Sample.tokenTx)
        Sample.tokenTx a lifted := by
  refine ⟨⟨"lock", "preview", [], [[0]], [], [], [], []⟩, _, Sample.parsed_payloadOf _, rfl, rfl, ?_⟩
  rintro ⟨-, -, houtputs⟩
  obtain ⟨hwhole, -⟩ := List.forall₂_cons.mp houtputs
  have htokens := hwhole Sample.tokenOutput rfl
    (.native Sample.tokenPolicy.bytes Sample.tokenName)
  exact absurd htokens (by decide)

end Tx3Lift
