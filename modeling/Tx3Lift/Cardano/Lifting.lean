import Tx3Lift.Cardano.Datum

/-!
# `lift`

Model of `crates/tx3-lift-cardano/src/lifting.rs`. The parties are threaded through the
loops as the code mutates them.

* `lift_spec`: what a successful `lift` went through.
* `lift_parsed`: a lifted transaction carries the hash of the transaction the payload
  parses to, and the names it was lifted under.
-/

namespace Tx3Lift

open Lib Tir

/-- `BTreeMap<String, PartyAnnotation>`. -/
abbrev Parties := BTreeMap String PartyAnnotation

/-! ## Parties -/

/-- `combine_role` (lines 282–289). -/
def combineRole : PartyRole → PartyRole → PartyRole
  | .absent, x => x
  | x, .absent => x
  | a, b => if a = b then a else .multiple

/-- `match_party` (lines 268–280): the first party, in the order of names, at the address. -/
def matchParty (address : ByteBuf) (parties : Parties) (role : PartyRole) :
    Option String × Parties :=
  match parties.toList.find? fun entry => decide (entry.2.address = address) with
  | some (name, party) =>
    (some name, parties.insert name { party with role := combineRole party.role role })
  | none => (none, parties)

/-- The parties of a profile before anything is lifted (lines 38–50). -/
def profileParties (bech32 : String → Except String ByteBuf) (profile : Profile) :
    Except CardanoLiftError Parties :=
  profile.parties.entries.foldlM (fun (parties : Parties) entry =>
    match decodeBech32Address bech32 entry.2 with
    | .ok bytes =>
      .ok (parties.insert entry.1 { name := entry.1, address := bytes, role := .absent })
    | .error e => .error (.core e)) ∅

/-! ## Outputs as annotations -/

/-- `collect_assets` (lines 237–244). -/
def collectAssets (output : MultiEraOutput) : CanonicalAssets :=
  let coin : ℤ := output.coin.toNat
  if coin ≠ 0 then CanonicalAssets.fromNakedAmount coin else []

/-- `decode_inline_datum` (lines 246–266). -/
def decodeInlineDatum (P : Pallas) (output : MultiEraOutput) : Option TypedDatum :=
  match output.datum with
  | none => none
  | some (.data plutus) =>
    some { raw := P.encodePlutusData plutus, decoded := plutusDataToExpression plutus,
           schemaRef := none }
  | some (.hash hash) =>
    some { raw := hash.bytes, decoded := .hash hash.bytes, schemaRef := none }

/-- Address, assets and datum of the resolved output of an input; all empty when the map has
    none (lines 107–117 and 154–165). -/
def resolvedParts (P : Pallas) (payload : CardanoPayload) (key : UtxoRef) :
    Except CardanoLiftError (ByteBuf × CanonicalAssets × Option TypedDatum) :=
  match payload.resolvedInputs[key]? with
  | some resolved => do
    let output ← pallasResult (P.decodeOutput resolved.era resolved.cbor)
    return (output.address.getD [], collectAssets output, decodeInlineDatum P output)
  | none => return ([], [], none)

/-! ## The loops -/

/-- The body of the inner loop of `lift_inputs` (lines 100–135). -/
def liftInput (P : Pallas) (payload : CardanoPayload) (tx : MultiEraTx) (tirInput : Tir.Input)
    (st : List InputAnnotation × Parties) (slot : ℕ) :
    Except CardanoLiftError (List InputAnnotation × Parties) :=
  match tx.inputs[slot]? with
  | none => return st
  | some input => do
    let (address, assets, datum) ← resolvedParts P payload input.key
    let (party, parties) := matchParty address st.2 .input
    return (st.1 ++
      [{ tirInputName := tirInput.name, utxoRef := input.key, address := address, party := party,
         assets := assets, datum := datum, redeemer := none }], parties)

/-- `lift_inputs` (lines 81–139). -/
def liftInputs (P : Pallas) (specialized : Tir.Tx) (tx : MultiEraTx) (payload : CardanoPayload)
    (assignment : MatchAssignment) (parties : Parties) :
    Except CardanoLiftError (List InputAnnotation × Parties) :=
  assignment.inputMap.zipIdx.foldlM (fun st (slots, tirIdx) =>
    match specialized.inputs[tirIdx]? with
    | none => return st
    | some tirInput => slots.foldlM (liftInput P payload tx tirInput) st) ([], parties)

/-- The body of the inner loop of `lift_inputs_simple` (lines 149–175). -/
def liftReference (P : Pallas) (payload : CardanoPayload) (tx : MultiEraTx) (i : ℕ)
    (out : List InputAnnotation) (slot : ℕ) : Except CardanoLiftError (List InputAnnotation) :=
  match tx.referenceInputs[slot]? with
  | none => return out
  | some input => do
    let (address, assets, datum) ← resolvedParts P payload input.key
    return out ++
      [{ tirInputName := "ref_" ++ toString i, utxoRef := input.key, address := address,
         party := none, assets := assets, datum := datum, redeemer := none }]

/-- `lift_inputs_simple` (lines 141–178). -/
def liftInputsSimple (P : Pallas) (tx : MultiEraTx) (map : List (List ℕ))
    (payload : CardanoPayload) : Except CardanoLiftError (List InputAnnotation) :=
  map.zipIdx.foldlM (fun out (slots, i) => slots.foldlM (liftReference P payload tx i) out) []

/-- The body of the inner loop of `lift_outputs` (lines 189–205). -/
def liftOutput (P : Pallas) (tx : MultiEraTx) (tirIdx : ℕ) (st : List OutputAnnotation × Parties)
    (slot : ℕ) : List OutputAnnotation × Parties :=
  match tx.outputs[slot]? with
  | none => st
  | some output =>
    let address := output.address.getD []
    let (party, parties) := matchParty address st.2 .output
    (st.1 ++
      [{ tirOutputIndex := tirIdx, address := address, party := party,
         assets := collectAssets output, datum := decodeInlineDatum P output }], parties)

/-- `lift_outputs` (lines 180–210). -/
def liftOutputs (P : Pallas) (tx : MultiEraTx) (assignment : MatchAssignment) (parties : Parties) :
    List OutputAnnotation × Parties :=
  assignment.outputMap.zipIdx.foldl
    (fun st (slots, tirIdx) => slots.foldl (liftOutput P tx tirIdx) st) ([], parties)

/-- `lift_mints` (lines 212–235). -/
def liftMints (tx : MultiEraTx) (map : List (List ℕ)) : List MintAnnotation :=
  map.zipIdx.flatMap fun (slots, tirIdx) => slots.filterMap fun slot =>
    tx.mints[slot]?.map fun p =>
      { tirMintIndex := tirIdx, policy := p.policy.bytes, policyName := none,
        assets := p.assets.map fun a => (a.name, a.anyCoin), redeemer := none }

/-- `collect_policy_names`: `walk_policies` is left empty by the code. -/
def collectPolicyNames (_specialized : Tir.Tx) : BTreeMap ByteBuf String := ∅

/-- `address_contains_keyhash`: some window of the address is the key hash. -/
def addressContainsKeyhash (address keyhash : ByteBuf) : Bool :=
  if address.length < 1 + keyhash.length then false else decide (keyhash <:+: address)

/-- `lift_signers`. -/
def liftSigners (tx : MultiEraTx) (parties : Parties) : List SignerAnnotation :=
  match tx.requiredSigners with
  | none => []
  | some signers => signers.map fun hash =>
    { keyHash := hash.bytes
      party := parties.toList.findSome? fun entry =>
        if addressContainsKeyhash entry.2.address hash.bytes then some entry.1 else none }

/-- `update_signer_party_roles`. -/
def updateSignerPartyRoles (signers : List SignerAnnotation) (parties : Parties) : Parties :=
  signers.foldl (fun (parties : Parties) s =>
    match s.party with
    | none => parties
    | some name =>
      match parties[name]? with
      | none => parties
      | some party =>
        parties.insert name { party with role := combineRole party.role .signer }) parties

/-- `lift_metadata`. -/
def liftMetadata (tx : MultiEraTx) : List MetadataAnnotation :=
  match tx.metadata with
  | none => []
  | some labels => labels.map fun label => { label := label, value := .none }

/-- `lift` (lines 24–79). -/
def lift (P : Pallas) (bech32 : String → Except String ByteBuf) (tii : TiiFile)
    (txName profileName : String) (specialized : Tir.Tx) (payload : CardanoPayload)
    (assignment : MatchAssignment) : Except CardanoLiftError Lifted := do
  let tx ← payload.parsed P
  let profile ← okOr (tii.profiles.get? profileName) (.core (.unknownProfile profileName))
  let parties ← profileParties bech32 profile
  let (inputs, parties) ← liftInputs P specialized tx payload assignment parties
  let references ← liftInputsSimple P tx assignment.referenceMap payload
  let (outputs, parties) := liftOutputs P tx assignment parties
  let signers := liftSigners tx parties
  return {
    txId := tx.hash.bytes
    protocolName := tii.protocolName
    txName := txName
    profileName := profileName
    tirHash := 0
    parties := updateSignerPartyRoles signers parties
    inputs := inputs
    references := references
    outputs := outputs
    mints := liftMints tx assignment.mintMap
    burns := liftMints tx assignment.burnMap
    policies := collectPolicyNames specialized
    signers := signers
    metadata := liftMetadata tx }

/-! ## What every lifted transaction has -/

section Lift

variable {P : Pallas} {bech32 : String → Except String ByteBuf} {tii : TiiFile}
  {txName profileName : String} {specialized : Tir.Tx} {payload : CardanoPayload}
  {assignment : MatchAssignment} {lifted : Lifted}

/-- The passes of `lift` over a transaction: the parties of the profile are threaded through
    the inputs and the outputs, read by the signers, and updated by them. -/
structure LiftRun (P : Pallas) (specialized : Tir.Tx) (payload : CardanoPayload)
    (assignment : MatchAssignment) (lifted : Lifted) (tx : MultiEraTx)
    (parties afterInputs : Parties) : Prop where
  inputs : liftInputs P specialized tx payload assignment parties =
    .ok (lifted.inputs, afterInputs)
  references : liftInputsSimple P tx assignment.referenceMap payload = .ok lifted.references
  outputs : lifted.outputs = (liftOutputs P tx assignment afterInputs).1
  signers : lifted.signers = liftSigners tx (liftOutputs P tx assignment afterInputs).2
  parties : lifted.parties =
    updateSignerPartyRoles lifted.signers (liftOutputs P tx assignment afterInputs).2
  mints : lifted.mints = liftMints tx assignment.mintMap
  burns : lifted.burns = liftMints tx assignment.burnMap

/-- What a successful `lift` went through. -/
theorem lift_spec {tx : MultiEraTx} (hparse : payload.parsed P = .ok tx)
    (h : lift P bech32 tii txName profileName specialized payload assignment = .ok lifted) :
    ∃ profile parties afterInputs, tii.profiles.get? profileName = some profile ∧
      profileParties bech32 profile = .ok parties ∧
      LiftRun P specialized payload assignment lifted tx parties afterInputs := by
  unfold lift at h
  obtain ⟨tx', htx', h⟩ := Except.bind_eq_ok h
  cases hparse.symm.trans htx'
  obtain ⟨profile, hprofile, h⟩ := Except.bind_eq_ok h
  obtain ⟨parties, hparties, h⟩ := Except.bind_eq_ok h
  obtain ⟨⟨inputs, afterInputs⟩, hinputs, h⟩ := Except.bind_eq_ok h
  obtain ⟨references, hreferences, h⟩ := Except.bind_eq_ok h
  cases h
  exact ⟨profile, parties, afterInputs, okOr_eq_ok.mp hprofile, hparties, hinputs, hreferences,
    rfl, rfl, rfl, rfl, rfl⟩

/-- A lifted transaction carries the hash of the payload's transaction and the names it was
    lifted under. -/
theorem lift_parsed
    (h : lift P bech32 tii txName profileName specialized payload assignment = .ok lifted) :
    ∃ tx, payload.parsed P = .ok tx ∧ lifted.txId = tx.hash.bytes ∧
      lifted.protocolName = tii.protocolName ∧ lifted.txName = txName ∧
      lifted.profileName = profileName := by
  unfold lift at h
  obtain ⟨tx, htx, h⟩ := Except.bind_eq_ok h
  obtain ⟨profile, -, h⟩ := Except.bind_eq_ok h
  obtain ⟨parties, -, h⟩ := Except.bind_eq_ok h
  obtain ⟨⟨inputs, parties'⟩, -, h⟩ := Except.bind_eq_ok h
  obtain ⟨references, -, h⟩ := Except.bind_eq_ok h
  cases h
  exact ⟨tx, htx, rfl, rfl, rfl, rfl⟩

end Lift

end Tx3Lift
