import Tx3Lift.Tir
import Tx3Lift.Lib.OrderedSet

/-!
# Documents, summaries, fingerprints and annotations

The chain-neutral types of `crates/tx3-lift`: the TII document
(`tx3_sdk::tii::spec`), `PayloadSummary` (`payload.rs`), `Fingerprint`
(`fingerprint.rs`), `MatchAssignment` (`match_.rs`) and `Lifted` (`lift.rs`),
with `Fingerprint::matches` and `information_score`.

Of a TII document only the fields that the repository reads are kept.
-/

namespace Tx3Lift

open Lib

/-! ## Errors (`error.rs`) -/

/-- `tx3_lift::Error`. Errors of third-party crates are kept as their text. -/
inductive LiftError where
  | unsupportedTirVersion (version : String)
  | unsupportedTiiVersion (version : String)
  | unknownTransaction (name : String)
  | unknownProfile (name : String)
  | tirDecode (text : String)
  | specialize (text : String)
  | invalidEncoding (text : String)
  | invalidAddress (address text : String)
  | internal (text : String)
deriving DecidableEq

/-! ## TII documents -/

/-- `serde_json::Value`. Of a number only `as_i64` is read. -/
inductive Json where
  | null
  | bool (b : Bool)
  | number (asI64 : Option ℤ)
  | string (s : String)
  | array (xs : List Json)
  | object (entries : List (String × Json))

/-- `tx3_sdk::tii::spec::Profile`. -/
structure Profile where
  parties : HashMap String String
  environment : Json

/-- `tx3_sdk::core::TirEncoding`. -/
inductive TirEncoding where
  | hex
  | base64
deriving DecidableEq

/-- `tx3_sdk::core::TirEnvelope`. -/
structure TirEnvelope where
  version : String
  encoding : TirEncoding
  content : String

/-- `tx3_sdk::tii::spec::Transaction`. -/
structure Transaction where
  tir : TirEnvelope

/-- `tx3_sdk::tii::spec::TiiFile`; `version` is `tii.version` and `protocolName` is
    `protocol.name`. -/
structure TiiFile where
  version : String
  protocolName : String
  transactions : HashMap String Transaction
  profiles : HashMap String Profile

/-- `decode_bech32_address` (`specialize.rs`, lines 66–72). `bech32` is
    `CheckedHrpstring::new::<Bech32>` followed by `byte_iter`. -/
def decodeBech32Address (bech32 : String → Except String ByteBuf) (s : String) :
    Except LiftError ByteBuf :=
  match bech32 s with
  | .ok bytes => .ok bytes
  | .error e => .error (.invalidAddress s e)

/-! ## Payload summaries (`payload.rs`, lines 12–35) -/

/-- `PayloadSummary`; the defaults are those of `PayloadSummary::default()`. -/
structure PayloadSummary where
  inputAddresses : BTreeSet ByteBuf := ∅
  outputAddresses : BTreeSet ByteBuf := ∅
  outputAddressesWithDatum : BTreeSet ByteBuf := ∅
  inputRefs : BTreeSet UtxoRef := ∅
  referenceRefs : BTreeSet UtxoRef := ∅
  mintPolicies : BTreeSet ByteBuf := ∅
  burnPolicies : BTreeSet ByteBuf := ∅
  valuePolicies : BTreeSet ByteBuf := ∅
  signers : BTreeSet ByteBuf := ∅
  metadataLabels : BTreeSet UInt64 := ∅
  inputCount : ℕ := 0
  outputCount : ℕ := 0
  mintCount : ℕ := 0
  burnCount : ℕ := 0
  collateralCount : ℕ := 0
  referenceCount : ℕ := 0
  hasValidity : Bool := false
  extras : BTreeMap String ByteBuf := ∅

/-! ## Fingerprints (`fingerprint.rs`, lines 14–142) -/

/-- `Fingerprint`. -/
structure Fingerprint where
  tiiVersion : String
  tirVersion : String
  protocolName : String
  txName : String
  profileName : String
  tirHash : UInt64
  argsHash : UInt64
  requiredInputAddresses : BTreeSet ByteBuf
  requiredOutputAddresses : BTreeSet ByteBuf
  requiredInputRefs : BTreeSet UtxoRef
  requiredReferenceRefs : BTreeSet UtxoRef
  requiredMintPolicies : BTreeSet ByteBuf
  requiredBurnPolicies : BTreeSet ByteBuf
  requiredValuePolicies : BTreeSet ByteBuf
  requiredSigners : BTreeSet ByteBuf
  requiredMetadataLabels : BTreeSet UInt64
  minInputs : ℕ
  minOutputs : ℕ
  minMints : ℕ
  minBurns : ℕ
  minCollateral : ℕ
  minReferences : ℕ
  hasValidity : Bool
  extras : BTreeMap String ByteBuf

/-- `Fingerprint::matches` (lines 52–129): the tests in the order of the code. -/
def Fingerprint.matchesSummary (fp : Fingerprint) (summary : PayloadSummary) : Bool :=
  isSubset fp.requiredInputAddresses summary.inputAddresses &&
  isSubset fp.requiredOutputAddresses summary.outputAddresses &&
  isSubset fp.requiredInputRefs summary.inputRefs &&
  isSubset fp.requiredReferenceRefs summary.referenceRefs &&
  isSubset fp.requiredMintPolicies summary.mintPolicies &&
  isSubset fp.requiredBurnPolicies summary.burnPolicies &&
  isSubset fp.requiredValuePolicies summary.valuePolicies &&
  isSubset fp.requiredSigners summary.signers &&
  isSubset fp.requiredMetadataLabels summary.metadataLabels &&
  !decide (summary.inputCount < fp.minInputs) &&
  !decide (summary.outputCount < fp.minOutputs) &&
  !decide (summary.mintCount < fp.minMints) &&
  !decide (summary.burnCount < fp.minBurns) &&
  !decide (summary.collateralCount < fp.minCollateral) &&
  !decide (summary.referenceCount < fp.minReferences) &&
  !(fp.hasValidity && !summary.hasValidity) &&
  fp.extras.toList.all fun kv => summary.extras[kv.1]? == some kv.2

/-- `Fingerprint::information_score` (lines 132–142). -/
def Fingerprint.informationScore (fp : Fingerprint) : ℕ :=
  fp.requiredInputAddresses.size + fp.requiredOutputAddresses.size + fp.requiredInputRefs.size +
    fp.requiredReferenceRefs.size + fp.requiredMintPolicies.size + fp.requiredBurnPolicies.size +
    fp.requiredValuePolicies.size + fp.requiredSigners.size + fp.requiredMetadataLabels.size

/-! ## Assignments (`match_.rs`, lines 6–16) -/

/-- `MatchAssignment`. -/
structure MatchAssignment where
  txName : String
  profileName : String
  inputMap : List (List ℕ)
  outputMap : List (List ℕ)
  referenceMap : List (List ℕ)
  mintMap : List (List ℕ)
  burnMap : List (List ℕ)
  collateralMap : List (List ℕ)
deriving DecidableEq

/-! ## Annotations (`lift.rs`, lines 24–110) -/

/-- `tx3_tir::model::assets::AssetClass`. -/
inductive AssetClass where
  | naked
  | named (name : ByteBuf)
  | defined (policy name : ByteBuf)
deriving DecidableEq

/-- `tx3_tir::model::assets::CanonicalAssets`: amounts by asset class. -/
abbrev CanonicalAssets := List (AssetClass × ℤ)

/-- `CanonicalAssets::from_naked_amount`. -/
def CanonicalAssets.fromNakedAmount (amount : ℤ) : CanonicalAssets := [(.naked, amount)]

/-- `PartyRole`. -/
inductive PartyRole where
  | input
  | output
  | signer
  | multiple
  | absent
deriving DecidableEq

/-- `PartyAnnotation`. -/
structure PartyAnnotation where
  name : String
  address : ByteBuf
  role : PartyRole

/-- `TypedDatum`. -/
structure TypedDatum where
  raw : ByteBuf
  decoded : Tir.Expression
  schemaRef : Option String

/-- `InputAnnotation`. -/
structure InputAnnotation where
  tirInputName : String
  utxoRef : UtxoRef
  address : ByteBuf
  party : Option String
  assets : CanonicalAssets
  datum : Option TypedDatum
  redeemer : Option TypedDatum

/-- `OutputAnnotation`. -/
structure OutputAnnotation where
  tirOutputIndex : ℕ
  address : ByteBuf
  party : Option String
  assets : CanonicalAssets
  datum : Option TypedDatum

/-- `MintAnnotation`. -/
structure MintAnnotation where
  tirMintIndex : ℕ
  policy : ByteBuf
  policyName : Option String
  assets : List (ByteBuf × ℤ)
  redeemer : Option TypedDatum

/-- `SignerAnnotation`. -/
structure SignerAnnotation where
  keyHash : ByteBuf
  party : Option String

/-- `MetadataAnnotation`. -/
structure MetadataAnnotation where
  label : UInt64
  value : Tir.Expression

/-- `Lifted`. -/
structure Lifted where
  txId : ByteBuf
  protocolName : String
  txName : String
  profileName : String
  tirHash : UInt64
  parties : BTreeMap String PartyAnnotation
  inputs : List InputAnnotation
  references : List InputAnnotation
  outputs : List OutputAnnotation
  mints : List MintAnnotation
  burns : List MintAnnotation
  policies : BTreeMap ByteBuf String
  signers : List SignerAnnotation
  metadata : List MetadataAnnotation

end Tx3Lift
