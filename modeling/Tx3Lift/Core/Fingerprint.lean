import Tx3Lift.Core.Specialize

/-!
# Fingerprint extraction

Model of `crates/tx3-lift/src/fingerprint.rs` (lines 145–323), function by function.

* `extract_eq`: every required set and every minimum of a fingerprint.
* `mem_requiredInputAddresses`: the required input addresses are the constant addresses of
  the template's input queries.
* `minInputs_pos`: a template with a single query asks for at least one input.
* `matchesSummary_iff`: the pre-filter as a list of necessary conditions.
* `fingerprintFor_eq`: the fingerprint of a transaction is extracted from its
  specialization and from the argument map of its profile.
-/

namespace Tx3Lift

open Lib Tir

/-! ## Model -/

/-- `fnv1a_64`. -/
def fnv1a64 (bytes : ByteBuf) : UInt64 :=
  bytes.foldl (fun h b => (h ^^^ b.toUInt64) * 0x100000001b3) 0xcbf29ce484222325

/-- `content_hash` of a value that serializes to `json`. -/
def contentHash (json : ByteBuf) : UInt64 := fnv1a64 json

/-- `n as u16`. -/
def asU16 (n : ℕ) : ℕ := n % 65536

/-- `(ByteBuf::from(r.txid.clone()), r.index)`. -/
def Tir.UtxoRef.key (r : Tir.UtxoRef) : Tx3Lift.UtxoRef := (r.txid, r.index)

/-- The body of the loop of `extract_inputs` (lines 233–255). -/
def extractInput (fp : Fingerprint) (input : Tir.Input) : Fingerprint :=
  match constUtxoRefs input.utxos with
  | some refs =>
    { fp with
      requiredInputRefs := insertMany fp.requiredInputRefs (refs.map Tir.UtxoRef.key)
      minInputs := u16SaturatingAdd fp.minInputs (asU16 refs.length) }
  | none =>
    match expectInputQuery input.utxos with
    | some query =>
      { fp with
        requiredInputAddresses :=
          insertMany fp.requiredInputAddresses (constAddress query.address).toList
        requiredValuePolicies :=
          insertMany fp.requiredValuePolicies (constPoliciesIn query.minAmount)
        minInputs := if query.many then fp.minInputs else u16SaturatingAdd fp.minInputs 1 }
    | none => fp

/-- `extract_inputs`. -/
def extractInputs (inputs : List Tir.Input) (fp : Fingerprint) : Fingerprint :=
  inputs.foldl extractInput fp

/-- The body of the loop of `extract_outputs` (lines 270–281). -/
def extractOutput (fp : Fingerprint) (output : Tir.Output) : Fingerprint :=
  { fp with
    minOutputs := if output.optional then fp.minOutputs else u16SaturatingAdd fp.minOutputs 1
    requiredOutputAddresses :=
      insertMany fp.requiredOutputAddresses (constAddress output.address).toList
    requiredValuePolicies :=
      insertMany fp.requiredValuePolicies (constPoliciesIn output.amount) }

/-- `extract_outputs`. -/
def extractOutputs (outputs : List Tir.Output) (fp : Fingerprint) : Fingerprint :=
  outputs.foldl extractOutput fp

/-- `extract_mints`: the policies and the counter it is given, after the loop. -/
def extractMints (mints : List Tir.Mint) (policies : BTreeSet ByteBuf) (counter : ℕ) :
    BTreeSet ByteBuf × ℕ :=
  mints.foldl (fun st mint =>
    (insertMany st.1 (constPoliciesIn mint.amount), u16SaturatingAdd st.2 1)) (policies, counter)

/-- The body of the loop of `extract_references` (lines 298–307). -/
def extractReference (fp : Fingerprint) (r : Expression) : Fingerprint :=
  match constUtxoRefs r with
  | some refs =>
    { fp with
      requiredReferenceRefs := insertMany fp.requiredReferenceRefs (refs.map Tir.UtxoRef.key)
      minReferences := u16SaturatingAdd fp.minReferences (asU16 refs.length) }
  | none => { fp with minReferences := u16SaturatingAdd fp.minReferences 1 }

/-- `extract_references`. -/
def extractReferences (refs : List Expression) (fp : Fingerprint) : Fingerprint :=
  refs.foldl extractReference fp

/-- `u64::try_from(n).ok()`. -/
def u64TryFrom (n : ℤ) : Option UInt64 :=
  if 0 ≤ n ∧ n < 2 ^ 64 then some (UInt64.ofNat n.toNat) else none

/-- The fingerprint before the extraction (lines 169–194). -/
def emptyFingerprint (T : Tx3) (tii : TiiFile) (txName profileName : String)
    (specialized : Tir.Tx) (args : ArgMap) : Fingerprint :=
  { tiiVersion := tii.version
    tirVersion := "v1beta0"
    protocolName := tii.protocolName
    txName := txName
    profileName := profileName
    tirHash := contentHash specialized.json
    argsHash := contentHash (T.argsJson args)
    requiredInputAddresses := ∅
    requiredOutputAddresses := ∅
    requiredInputRefs := ∅
    requiredReferenceRefs := ∅
    requiredMintPolicies := ∅
    requiredBurnPolicies := ∅
    requiredValuePolicies := ∅
    requiredSigners := ∅
    requiredMetadataLabels := ∅
    minInputs := 0
    minOutputs := 0
    minMints := 0
    minBurns := 0
    minCollateral := 0
    minReferences := 0
    hasValidity := false
    extras := ∅ }

/-- `extract` (lines 162–230). -/
def extract (T : Tx3) (tii : TiiFile) (txName profileName : String) (specialized : Tir.Tx)
    (args : ArgMap) : Except LiftError Fingerprint :=
  let fp := emptyFingerprint T tii txName profileName specialized args
  let fp := extractInputs specialized.inputs fp
  let fp := extractOutputs specialized.outputs fp
  let (mintPolicies, minMints) := extractMints specialized.mints fp.requiredMintPolicies fp.minMints
  let fp := { fp with requiredMintPolicies := mintPolicies, minMints := minMints }
  let (burnPolicies, minBurns) := extractMints specialized.burns fp.requiredBurnPolicies fp.minBurns
  let fp := { fp with requiredBurnPolicies := burnPolicies, minBurns := minBurns }
  let fp := extractReferences specialized.references fp
  return { fp with
    minCollateral := u16TryFrom specialized.collateral.length
    requiredSigners := match specialized.signers with
      | some signers => insertMany fp.requiredSigners (signers.signers.filterMap constBytes)
      | none => fp.requiredSigners
    requiredMetadataLabels := insertMany fp.requiredMetadataLabels
      (specialized.metadata.filterMap fun m => (constNumber m.key).bind u64TryFrom)
    hasValidity := specialized.validity.isSome }

/-- `fingerprint_for` (lines 311–323). -/
def fingerprintFor (T : Tx3) (bech32 : String → Except String ByteBuf) (tii : TiiFile)
    (txName profileName : String) : Except LiftError Fingerprint := do
  let profile ← lookupProfile tii profileName
  let args ← argsFromProfile bech32 profile ∅
  let _tx ← lookupTx tii txName
  let specialized ← specialize T bech32 tii txName profileName ∅
  extract T tii txName profileName specialized args

/-- Pairs of names are ordered as the tuples they are. -/
instance instOrdNames : Ord (String × String) := lexOrd

instance instTransOrdNames : Std.TransOrd (String × String) := inferInstance

instance instLawfulEqOrdNames : Std.LawfulEqOrd (String × String) := inferInstance

/-- `fingerprints_for_all` (lines 325–337). -/
def fingerprintsForAll (T : Tx3) (bech32 : String → Except String ByteBuf) (tii : TiiFile) :
    Except LiftError (BTreeMap (String × String) Fingerprint) :=
  tii.transactions.keys.foldlM (fun out txName =>
    tii.profiles.keys.foldlM (fun out profileName => do
      let fp ← fingerprintFor T bech32 tii txName profileName
      return out.insert (txName, profileName) fp) out) ∅

/-! ## What the template contributes -/

/-- The references a template input pins. -/
def Tir.Input.pinned (input : Tir.Input) : List Tir.UtxoRef :=
  (constUtxoRefs input.utxos).getD []

/-- The constant address of the query of a template input. -/
def Tir.Input.queryAddress (input : Tir.Input) : Option ByteBuf :=
  (expectInputQuery input.utxos).bind fun query => constAddress query.address

/-- The constant policies in the minimal amount of the query of a template input. -/
def Tir.Input.queryPolicies (input : Tir.Input) : List ByteBuf :=
  ((expectInputQuery input.utxos).map fun query => constPoliciesIn query.minAmount).getD []

/-- The template input is a query for exactly one input. -/
def Tir.Input.isSingle (input : Tir.Input) : Bool :=
  match expectInputQuery input.utxos with
  | some query => !query.many
  | none => false

/-- What one template input adds to `min_inputs`. -/
def Tir.Input.demand (input : Tir.Input) : ℕ :=
  if input.isSingle then 1 else asU16 input.pinned.length

/-- What one template output adds to `min_outputs`. -/
def Tir.Output.demand (output : Tir.Output) : ℕ := if output.optional then 0 else 1

/-- The references a template reference pins. -/
def pinnedRefs (r : Expression) : List Tir.UtxoRef := (constUtxoRefs r).getD []

/-- What one template reference adds to `min_references`. -/
def referenceDemand (r : Expression) : ℕ :=
  match constUtxoRefs r with
  | some refs => asU16 refs.length
  | none => 1

/-- The labels that a template's metadata pins. -/
def metadataLabel (m : Tir.Metadata) : Option UInt64 := (constNumber m.key).bind u64TryFrom

/-! ## The loops -/

section Loops

theorem demand_of_refs {input : Tir.Input} {refs : List Tir.UtxoRef}
    (h : constUtxoRefs input.utxos = some refs) : input.demand = asU16 refs.length := by
  rw [Tir.Input.demand, Tir.Input.isSingle, expectInputQuery_of_constUtxoRefs h, Tir.Input.pinned,
    h]
  rfl

theorem demand_of_none {input : Tir.Input} (h : constUtxoRefs input.utxos = none) :
    input.demand = if input.isSingle then 1 else 0 := by
  rw [Tir.Input.demand, Tir.Input.pinned, h]
  rfl

theorem extractInput_eq {fp : Fingerprint} (hmin : fp.minInputs ≤ u16Max) (input : Tir.Input) :
    extractInput fp input =
      { fp with
        requiredInputRefs :=
          insertMany fp.requiredInputRefs (input.pinned.map Tir.UtxoRef.key)
        requiredInputAddresses :=
          insertMany fp.requiredInputAddresses input.queryAddress.toList
        requiredValuePolicies := insertMany fp.requiredValuePolicies input.queryPolicies
        minInputs := u16SaturatingAdd fp.minInputs input.demand } := by
  unfold extractInput Tir.Input.demand Tir.Input.isSingle Tir.Input.pinned Tir.Input.queryAddress
    Tir.Input.queryPolicies
  cases hrefs : constUtxoRefs input.utxos with
  | some refs => simp [expectInputQuery_of_constUtxoRefs hrefs]
  | none =>
    cases hquery : expectInputQuery input.utxos with
    | some query => cases hmany : query.many <;> simp [hmin, hmany, asU16]
    | none => simp [hmin, asU16]

theorem extractInputs_eq (inputs : List Tir.Input) {fp : Fingerprint}
    (hmin : fp.minInputs ≤ u16Max) :
    extractInputs inputs fp =
      { fp with
        requiredInputRefs := insertMany fp.requiredInputRefs
          ((inputs.flatMap Tir.Input.pinned).map Tir.UtxoRef.key)
        requiredInputAddresses := insertMany fp.requiredInputAddresses
          (inputs.filterMap Tir.Input.queryAddress)
        requiredValuePolicies := insertMany fp.requiredValuePolicies
          (inputs.flatMap Tir.Input.queryPolicies)
        minInputs := u16SaturatingAdd fp.minInputs (inputs.map Tir.Input.demand).sum } := by
  unfold extractInputs
  induction inputs generalizing fp with
  | nil => simp [hmin]
  | cons input inputs ih =>
    rw [List.foldl_cons, extractInput_eq hmin, ih (u16SaturatingAdd_le _ _)]
    have haddr : (input :: inputs).filterMap Tir.Input.queryAddress =
        input.queryAddress.toList ++ inputs.filterMap Tir.Input.queryAddress := by
      cases h : input.queryAddress <;> simp [h]
    simp [haddr, insertMany_append, u16SaturatingAdd_assoc]

theorem extractOutput_eq {fp : Fingerprint} (hmin : fp.minOutputs ≤ u16Max)
    (output : Tir.Output) :
    extractOutput fp output =
      { fp with
        minOutputs := u16SaturatingAdd fp.minOutputs output.demand
        requiredOutputAddresses :=
          insertMany fp.requiredOutputAddresses (constAddress output.address).toList
        requiredValuePolicies :=
          insertMany fp.requiredValuePolicies (constPoliciesIn output.amount) } := by
  unfold extractOutput Tir.Output.demand
  cases output.optional <;> simp [hmin]

theorem extractOutputs_eq (outputs : List Tir.Output) {fp : Fingerprint}
    (hmin : fp.minOutputs ≤ u16Max) :
    extractOutputs outputs fp =
      { fp with
        minOutputs := u16SaturatingAdd fp.minOutputs (outputs.map Tir.Output.demand).sum
        requiredOutputAddresses := insertMany fp.requiredOutputAddresses
          (outputs.filterMap fun o => constAddress o.address)
        requiredValuePolicies := insertMany fp.requiredValuePolicies
          (outputs.flatMap fun o => constPoliciesIn o.amount) } := by
  unfold extractOutputs
  induction outputs generalizing fp with
  | nil => simp [hmin]
  | cons output outputs ih =>
    rw [List.foldl_cons, extractOutput_eq hmin, ih (u16SaturatingAdd_le _ _)]
    have haddr : (output :: outputs).filterMap (fun o => constAddress o.address) =
        (constAddress output.address).toList ++
          outputs.filterMap fun o => constAddress o.address := by
      cases h : constAddress output.address <;> simp [h]
    simp [haddr, insertMany_append, u16SaturatingAdd_assoc]

theorem extractMints_eq (mints : List Tir.Mint) (policies : BTreeSet ByteBuf) {counter : ℕ}
    (hcounter : counter ≤ u16Max) :
    extractMints mints policies counter =
      (insertMany policies (mints.flatMap fun m => constPoliciesIn m.amount),
        u16SaturatingAdd counter mints.length) := by
  unfold extractMints
  induction mints generalizing policies counter with
  | nil => simp [hcounter]
  | cons mint mints ih =>
    rw [List.foldl_cons, ih _ (u16SaturatingAdd_le _ _), u16SaturatingAdd_assoc,
      ← insertMany_append, List.flatMap_cons, List.length_cons, Nat.add_comm 1]

theorem extractReference_eq (fp : Fingerprint) (r : Expression) :
    extractReference fp r =
      { fp with
        requiredReferenceRefs :=
          insertMany fp.requiredReferenceRefs ((pinnedRefs r).map Tir.UtxoRef.key)
        minReferences := u16SaturatingAdd fp.minReferences (referenceDemand r) } := by
  unfold extractReference pinnedRefs referenceDemand
  cases constUtxoRefs r <;> rfl

theorem extractReferences_eq (refs : List Expression) {fp : Fingerprint}
    (hmin : fp.minReferences ≤ u16Max) :
    extractReferences refs fp =
      { fp with
        requiredReferenceRefs := insertMany fp.requiredReferenceRefs
          ((refs.flatMap pinnedRefs).map Tir.UtxoRef.key)
        minReferences := u16SaturatingAdd fp.minReferences (refs.map referenceDemand).sum } := by
  unfold extractReferences
  induction refs generalizing fp with
  | nil => simp [hmin]
  | cons r refs ih =>
    rw [List.foldl_cons, extractReference_eq, ih (u16SaturatingAdd_le _ _)]
    simp [insertMany_append, u16SaturatingAdd_assoc]

end Loops

/-! ## The pre-filter -/

/-- The conditions of `Fingerprint::matches`. -/
structure Fingerprint.Admits (fp : Fingerprint) (summary : PayloadSummary) : Prop where
  inputAddresses : ∀ a ∈ fp.requiredInputAddresses, a ∈ summary.inputAddresses
  outputAddresses : ∀ a ∈ fp.requiredOutputAddresses, a ∈ summary.outputAddresses
  inputRefs : ∀ r ∈ fp.requiredInputRefs, r ∈ summary.inputRefs
  referenceRefs : ∀ r ∈ fp.requiredReferenceRefs, r ∈ summary.referenceRefs
  mintPolicies : ∀ p ∈ fp.requiredMintPolicies, p ∈ summary.mintPolicies
  burnPolicies : ∀ p ∈ fp.requiredBurnPolicies, p ∈ summary.burnPolicies
  valuePolicies : ∀ p ∈ fp.requiredValuePolicies, p ∈ summary.valuePolicies
  signers : ∀ k ∈ fp.requiredSigners, k ∈ summary.signers
  metadataLabels : ∀ l ∈ fp.requiredMetadataLabels, l ∈ summary.metadataLabels
  inputCount : fp.minInputs ≤ summary.inputCount
  outputCount : fp.minOutputs ≤ summary.outputCount
  mintCount : fp.minMints ≤ summary.mintCount
  burnCount : fp.minBurns ≤ summary.burnCount
  collateralCount : fp.minCollateral ≤ summary.collateralCount
  referenceCount : fp.minReferences ≤ summary.referenceCount
  validity : fp.hasValidity = true → summary.hasValidity = true
  extras : ∀ kv ∈ fp.extras.toList, summary.extras[kv.1]? = some kv.2

theorem matchesSummary_iff {fp : Fingerprint} {summary : PayloadSummary} :
    fp.matchesSummary summary = true ↔ fp.Admits summary := by
  have hvalidity : (!(fp.hasValidity && !summary.hasValidity)) = true ↔
      (fp.hasValidity = true → summary.hasValidity = true) := by
    cases fp.hasValidity <;> cases summary.hasValidity <;> simp
  unfold Fingerprint.matchesSummary
  simp only [Bool.and_eq_true, and_assoc, isSubset_iff, Bool.not_eq_true',
    decide_eq_false_iff_not, not_lt, List.all_eq_true, beq_iff_eq]
  rw [← Bool.not_eq_true', hvalidity]
  constructor
  · rintro ⟨h1, h2, h3, h4, h5, h6, h7, h8, h9, h10, h11, h12, h13, h14, h15, h16, h17⟩
    exact ⟨h1, h2, h3, h4, h5, h6, h7, h8, h9, h10, h11, h12, h13, h14, h15, h16, h17⟩
  · rintro ⟨h1, h2, h3, h4, h5, h6, h7, h8, h9, h10, h11, h12, h13, h14, h15, h16, h17⟩
    exact ⟨h1, h2, h3, h4, h5, h6, h7, h8, h9, h10, h11, h12, h13, h14, h15, h16, h17⟩

/-! ## What a fingerprint requires -/

section Extract

variable {T : Tx3} {tii : TiiFile} {txName profileName : String} {specialized : Tir.Tx}
  {args : ArgMap} {fp : Fingerprint}

/-- The fingerprint of a template: every required set and every minimum, read off its items. -/
theorem extract_eq : extract T tii txName profileName specialized args =
    .ok { emptyFingerprint T tii txName profileName specialized args with
      requiredInputAddresses :=
        insertMany ∅ (specialized.inputs.filterMap Tir.Input.queryAddress)
      requiredOutputAddresses :=
        insertMany ∅ (specialized.outputs.filterMap fun o => constAddress o.address)
      requiredInputRefs :=
        insertMany ∅ ((specialized.inputs.flatMap Tir.Input.pinned).map Tir.UtxoRef.key)
      requiredReferenceRefs :=
        insertMany ∅ ((specialized.references.flatMap pinnedRefs).map Tir.UtxoRef.key)
      requiredMintPolicies :=
        insertMany ∅ (specialized.mints.flatMap fun m => constPoliciesIn m.amount)
      requiredBurnPolicies :=
        insertMany ∅ (specialized.burns.flatMap fun m => constPoliciesIn m.amount)
      requiredValuePolicies :=
        insertMany ∅ (specialized.inputs.flatMap Tir.Input.queryPolicies ++
          specialized.outputs.flatMap fun o => constPoliciesIn o.amount)
      requiredSigners := insertMany ∅
        ((specialized.signers.map fun s => s.signers.filterMap constBytes).getD [])
      requiredMetadataLabels := insertMany ∅ (specialized.metadata.filterMap metadataLabel)
      minInputs := u16TryFrom (specialized.inputs.map Tir.Input.demand).sum
      minOutputs := u16TryFrom (specialized.outputs.map Tir.Output.demand).sum
      minMints := u16TryFrom specialized.mints.length
      minBurns := u16TryFrom specialized.burns.length
      minCollateral := u16TryFrom specialized.collateral.length
      minReferences := u16TryFrom (specialized.references.map referenceDemand).sum
      hasValidity := specialized.validity.isSome } := by
  have hsigners : ∀ s : Option Tir.Signers, (match s with
      | some signers => insertMany (∅ : BTreeSet ByteBuf) (signers.signers.filterMap constBytes)
      | none => ∅) = insertMany ∅ ((s.map fun s => s.signers.filterMap constBytes).getD []) :=
    fun s => by cases s <;> rfl
  unfold extract emptyFingerprint
  -- every counter is still 0 when its loop starts
  simp (disch := exact Nat.zero_le _) only [extractInputs_eq, extractOutputs_eq, extractMints_eq,
    extractReferences_eq, zero_u16SaturatingAdd, hsigners, insertMany_append]
  rfl

theorem extract_inputs (h : extract T tii txName profileName specialized args = .ok fp) :
    fp.requiredInputAddresses =
        insertMany ∅ (specialized.inputs.filterMap Tir.Input.queryAddress) ∧
      fp.minInputs = min (specialized.inputs.map Tir.Input.demand).sum u16Max := by
  cases extract_eq.symm.trans h
  exact ⟨rfl, rfl⟩

/-- The required input addresses are the constant addresses of the input queries. -/
theorem mem_requiredInputAddresses
    (h : extract T tii txName profileName specialized args = .ok fp) {addr : ByteBuf} :
    addr ∈ fp.requiredInputAddresses ↔
      ∃ input ∈ specialized.inputs, input.queryAddress = some addr := by
  rw [(extract_inputs h).1, mem_insertMany_empty, List.mem_filterMap]

/-- A template with a single query asks for at least one input. -/
theorem minInputs_pos (h : extract T tii txName profileName specialized args = .ok fp)
    {input : Tir.Input} (hmem : input ∈ specialized.inputs) (hsingle : input.isSingle = true) :
    0 < fp.minInputs := by
  have hone : input.demand = 1 := by rw [Tir.Input.demand, if_pos hsingle]
  have hle : 1 ≤ (specialized.inputs.map Tir.Input.demand).sum := by
    rw [← hone]
    exact List.single_le_sum (fun _ _ => Nat.zero_le _) _ (List.mem_map_of_mem hmem)
  rw [(extract_inputs h).2]
  unfold u16Max
  omega

/-- The fingerprint of a transaction is extracted from its specialization and from the
    argument map of its profile. -/
theorem fingerprintFor_eq {bech32 : String → Except String ByteBuf} {profile : Profile}
    {tx : Transaction} (hprofile : lookupProfile tii profileName = .ok profile)
    (hargs : argsFromProfile bech32 profile ∅ = .ok args) (htx : lookupTx tii txName = .ok tx)
    (hspec : specialize T bech32 tii txName profileName ∅ = .ok specialized) :
    fingerprintFor T bech32 tii txName profileName =
      extract T tii txName profileName specialized args := by
  simp only [fingerprintFor, hprofile, hargs, htx, hspec, bind, Except.bind]

end Extract

end Tx3Lift
