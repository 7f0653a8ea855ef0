import Tx3Lift.Cardano.Route
import Tx3Lift.Tracker.Process

/-!
# Pre-specialized sources

Model of `bin/tracker/src/specialization.rs`, with the test that `config::load` makes on the
list of sources. Each source is specialized once, at startup.

* `cached_iff`: what is cached for a transaction is what `specialize` and `fingerprint_for`
  give for it.
* `route_eq_tracker`: the library routes a payload exactly when the cached source accepts it.
-/

namespace Tx3Lift

open Lib

/-! ## Model -/

/-- `SourceConfig` (`config.rs`). -/
structure SourceConfig where
  name : String
  tiiPath : String
  profile : String

/-- `Error::from(tx3_lift::Error)`. -/
def liftCore {α : Type} : Except LiftError α → Except TrackerError α
  | .ok a => .ok a
  | .error e => .error (.lift e)

/-- The test of `config::load` on the sources (lines 118–122). -/
def checkSources (sources : List SourceConfig) : Except TrackerError (List SourceConfig) :=
  if sources.isEmpty then
    throw (.config "at least one [[sources]] entry is required")
  else return sources

/-- `{:?}` of a printable string. -/
def debugStr (s : String) : String :=
  "\"" ++ String.join (s.toList.map fun c =>
    if c = '"' then "\\\"" else if c = '\\' then "\\\\" else c.toString) ++ "\""

section Model

variable (T : Tx3) (bech32 : String → Except String ByteBuf)

/-- One entry of the cache (lines 73–77). -/
def specializeTx (tii : TiiFile) (profileName : String) (args : ArgMap) (txName : String) :
    Except TrackerError (Tir.Tx × Fingerprint) := do
  let txMeta ← liftCore (lookupTx tii txName)
  let rawTir ← liftCore (decodeTir T txMeta)
  let specialized ← liftCore ((T.applyArgs rawTir args).mapError .specialize)
  let fp ← liftCore (extract T tii txName profileName specialized args)
  return (specialized, fp)

/-- `specialize_one` (lines 63–94). `readTii` is `read_to_string` followed by
    `serde_json::from_str`. -/
def specializeOne (readTii : String → Except TrackerError TiiFile) (src : SourceConfig) :
    Except TrackerError SpecializedTii := do
  let tii ← readTii src.tiiPath
  let profile ← liftCore (lookupProfile tii src.profile)
  let anchors ← liftCore (ProtocolAnchors.fromProfile bech32 profile)
  let args ← liftCore (argsFromProfile bech32 profile ∅)
  let txs ← tii.transactions.keys.foldlM
    (fun (txs : BTreeMap String (Tir.Tx × Fingerprint)) txName => do
      let entry ← specializeTx T tii src.profile args txName
      return txs.insert txName entry) ∅
  if txs.isEmpty then
    throw (.config ("source " ++ debugStr src.name ++ " has no transactions in its TII"))
  return { name := src.name, tii := tii, profileName := src.profile, anchors := anchors,
           txs := txs }

/-- `specialize_all` (lines 44–61): sources without anchors are left out. -/
def specializeAll (readTii : String → Except TrackerError TiiFile) :
    List SourceConfig → Except TrackerError (List SpecializedTii)
  | [] => return []
  | src :: sources => do
    let specialized ← specializeOne T bech32 readTii src
    let out ← specializeAll readTii sources
    return if specialized.anchors.isEmpty then out else specialized :: out

end Model

/-! ## What is cached -/

section Cached

variable {T : Tx3} {bech32 : String → Except String ByteBuf}
  {readTii : String → Except TrackerError TiiFile} {src : SourceConfig} {spec : SpecializedTii}
  {tii : TiiFile} {profile : Profile} {profileName : String} {args : ArgMap}

theorem liftCore_eq_ok {α : Type} {x : Except LiftError α} {a : α} :
    liftCore x = .ok a ↔ x = .ok a := by
  cases x <;> simp [liftCore]

/-- An entry of the cache is what `specialize` and `fingerprint_for` give, the latter after
    a specialization of its own. -/
theorem specializeTx_eq_ok (hprofile : lookupProfile tii profileName = .ok profile)
    (hargs : argsFromProfile bech32 profile ∅ = .ok args) {txName : String} {tir : Tir.Tx}
    {fp : Fingerprint} :
    specializeTx T tii profileName args txName = .ok (tir, fp) ↔
      specialize T bech32 tii txName profileName ∅ = .ok tir ∧
        fingerprintFor T bech32 tii txName profileName = .ok fp := by
  constructor
  · intro h
    obtain ⟨tx, htx, h⟩ := Except.bind_eq_ok h
    obtain ⟨rawTir, hraw, h⟩ := Except.bind_eq_ok h
    obtain ⟨specialized, happly, h⟩ := Except.bind_eq_ok h
    obtain ⟨fp', hfp, h⟩ := Except.bind_eq_ok h
    cases h
    have hspec : specialize T bech32 tii txName profileName ∅ = .ok tir :=
      specialize_eq_ok.mpr ⟨tx, profile, args, rawTir, liftCore_eq_ok.mp htx, hprofile, hargs,
        liftCore_eq_ok.mp hraw, Except.mapError_eq_ok.mp (liftCore_eq_ok.mp happly)⟩
    refine ⟨hspec, ?_⟩
    rw [fingerprintFor_eq hprofile hargs (liftCore_eq_ok.mp htx) hspec]
    exact liftCore_eq_ok.mp hfp
  · rintro ⟨hspec, hfp⟩
    obtain ⟨tx, profile', args', rawTir, htx, hprofile', hargs', hraw, happly⟩ :=
      specialize_eq_ok.mp hspec
    cases hprofile.symm.trans hprofile'
    cases hargs.symm.trans hargs'
    rw [fingerprintFor_eq hprofile hargs htx hspec] at hfp
    simp only [specializeTx, htx, hraw, happly, hfp, liftCore, Except.mapError, bind, Except.bind,
      pure, Except.pure]

/-- What a source went through. -/
theorem specializeOne_eq_ok (h : specializeOne T bech32 readTii src = .ok spec) :
    ∃ profile args, readTii src.tiiPath = .ok spec.tii ∧ spec.name = src.name ∧
      spec.profileName = src.profile ∧ lookupProfile spec.tii spec.profileName = .ok profile ∧
      ProtocolAnchors.fromProfile bech32 profile = .ok spec.anchors ∧
      argsFromProfile bech32 profile ∅ = .ok args ∧
      (∀ txName ∈ spec.tii.transactions.keys,
        ∃ entry, specializeTx T spec.tii spec.profileName args txName = .ok entry) ∧
      ∀ txName entry, spec.txs[txName]? = some entry ↔ txName ∈ spec.tii.transactions.keys ∧
        specializeTx T spec.tii spec.profileName args txName = .ok entry := by
  obtain ⟨tii, htii, h⟩ := Except.bind_eq_ok h
  obtain ⟨profile, hprofile, h⟩ := Except.bind_eq_ok h
  obtain ⟨anchors, hanchors, h⟩ := Except.bind_eq_ok h
  obtain ⟨args, hargs, h⟩ := Except.bind_eq_ok h
  obtain ⟨txs, htxs, h⟩ := Except.bind_eq_ok h
  obtain ⟨hall, hget⟩ := foldlM_insert htxs
  split_ifs at h with hempty
  · cases h
  · cases h
    exact ⟨profile, args, htii, rfl, rfl, liftCore_eq_ok.mp hprofile, liftCore_eq_ok.mp hanchors,
      liftCore_eq_ok.mp hargs, hall, by simpa using hget⟩

/-- What is cached for a transaction is what the library computes for it. -/
theorem cached_iff (h : specializeOne T bech32 readTii src = .ok spec) {txName : String}
    {tir : Tir.Tx} {fp : Fingerprint} :
    spec.txs[txName]? = some (tir, fp) ↔ txName ∈ spec.tii.transactions.keys ∧
      specialize T bech32 spec.tii txName spec.profileName ∅ = .ok tir ∧
        fingerprintFor T bech32 spec.tii txName spec.profileName = .ok fp := by
  obtain ⟨profile, args, -, -, -, hprofile, -, hargs, -, hget⟩ := specializeOne_eq_ok h
  rw [hget, specializeTx_eq_ok hprofile hargs]

theorem exists_cached (h : specializeOne T bech32 readTii src = .ok spec) {txName : String}
    (htx : txName ∈ spec.tii.transactions.keys) :
    ∃ tir fp, spec.txs[txName]? = some (tir, fp) := by
  obtain ⟨profile, args, -, -, -, -, -, -, hall, hget⟩ := specializeOne_eq_ok h
  obtain ⟨⟨tir, fp⟩, hentry⟩ := hall txName htx
  exact ⟨tir, fp, (hget txName _).mpr ⟨htx, hentry⟩⟩

/-- All sources specialize; those without anchors are left out. -/
theorem specializeAll_eq_ok {sources : List SourceConfig} {specialized : List SpecializedTii} :
    specializeAll T bech32 readTii sources = .ok specialized ↔
      ∃ specs, List.Forall₂ (fun src spec => specializeOne T bech32 readTii src = .ok spec)
        sources specs ∧ specialized = specs.filter fun spec => !spec.anchors.isEmpty := by
  induction sources generalizing specialized with
  | nil =>
    rw [specializeAll]
    simp [pure, Except.pure, eq_comm]
  | cons src sources ih =>
    constructor
    · intro h
      obtain ⟨spec, hspec, h⟩ := Except.bind_eq_ok h
      obtain ⟨out, hout, h⟩ := Except.bind_eq_ok h
      obtain ⟨specs, hspecs, rfl⟩ := ih.mp hout
      cases h
      refine ⟨spec :: specs, List.Forall₂.cons hspec hspecs, ?_⟩
      cases hempty : spec.anchors.isEmpty <;> simp [hempty]
    · rintro ⟨specs, hspecs, rfl⟩
      obtain ⟨spec, specs, hspec, hrest, rfl⟩ := List.forall₂_cons_left_iff.mp hspecs
      rw [specializeAll, hspec, Except.ok_bind, ih.mpr ⟨specs, hrest, rfl⟩, Except.ok_bind]
      cases hempty : spec.anchors.isEmpty <;> simp [hempty, pure, Except.pure]

theorem specializeOne_eq {anchors : ProtocolAnchors}
    {txs : BTreeMap String (Tir.Tx × Fingerprint)} (hread : readTii src.tiiPath = .ok tii)
    (hprofile : lookupProfile tii src.profile = .ok profile)
    (hanchors : ProtocolAnchors.fromProfile bech32 profile = .ok anchors)
    (hargs : argsFromProfile bech32 profile ∅ = .ok args)
    (htxs : tii.transactions.keys.foldlM
      (fun (txs : BTreeMap String (Tir.Tx × Fingerprint)) txName => do
        let entry ← specializeTx T tii src.profile args txName
        return txs.insert txName entry) ∅ = .ok txs) (hne : txs ≠ ∅) :
    specializeOne T bech32 readTii src = .ok ⟨src.name, tii, src.profile, anchors, txs⟩ := by
  simp only [specializeOne, hread, hprofile, hanchors, hargs, liftCore, Except.ok_bind]
  rw [htxs, Except.ok_bind, Std.ExtTreeMap.isEmpty_eq_false_iff.mpr hne]
  rfl

/-- A source is accepted if its profile is understood and all its transactions specialize. -/
theorem exists_specializeOne {anchors : ProtocolAnchors} (hread : readTii src.tiiPath = .ok tii)
    (hprofile : lookupProfile tii src.profile = .ok profile)
    (hanchors : ProtocolAnchors.fromProfile bech32 profile = .ok anchors)
    (hargs : argsFromProfile bech32 profile ∅ = .ok args)
    (hall : ∀ txName ∈ tii.transactions.keys,
      ∃ tir, specialize T bech32 tii txName src.profile ∅ = .ok tir)
    (hne : tii.transactions.keys ≠ []) :
    ∃ txs, specializeOne T bech32 readTii src = .ok ⟨src.name, tii, src.profile, anchors, txs⟩ := by
  have hentries : ∀ txName ∈ tii.transactions.keys,
      ∃ entry, specializeTx T tii src.profile args txName = .ok entry := by
    intro txName htx
    obtain ⟨tir, htir⟩ := hall txName htx
    obtain ⟨fp, hfp⟩ := fingerprintFor_of_specialize htir
    exact ⟨(tir, fp), (specializeTx_eq_ok hprofile hargs).mpr ⟨htir, hfp⟩⟩
  obtain ⟨txs, htxs⟩ := (foldlM_eq_ok_iff
    (f := fun (txs : BTreeMap String (Tir.Tx × Fingerprint)) txName => do
      let entry ← specializeTx T tii src.profile args txName
      return txs.insert txName entry)
    (fun _ _ => Except.exists_bind_eq_ok fun _ => ⟨_, rfl⟩) tii.transactions.keys ∅).mpr hentries
  refine ⟨txs, specializeOne_eq hread hprofile hanchors hargs htxs fun hempty => ?_⟩
  obtain ⟨txName, htx⟩ := List.exists_mem_of_ne_nil _ hne
  obtain ⟨entry, hentry⟩ := hentries txName htx
  have hget := ((foldlM_insert htxs).2 txName entry).mpr (Or.inl ⟨htx, hentry⟩)
  simp [hempty] at hget

end Cached

/-! ## The two consumers -/

/-- The payload gets past the pre-filter and `match_tx` of this transaction of the source
    (`process.rs`, lines 166–174). -/
def SpecializedTii.Accepts (spec : SpecializedTii) (P : Pallas) (payload : CardanoPayload)
    (txName : String) : Prop :=
  ∃ tx tir fp, payload.parsed P = .ok tx ∧ spec.txs[txName]? = some (tir, fp) ∧
    Accepted P payload tx tir fp

/-- Every candidate of the source can be lifted. -/
def SpecializedTii.Liftable (spec : SpecializedTii) (P : Pallas)
    (bech32 : String → Except String ByteBuf) (payload : CardanoPayload) : Prop :=
  ∀ tx txName tir fp a, payload.parsed P = .ok tx → spec.txs[txName]? = some (tir, fp) →
    fp.matchesSummary (summarizeTx P payload tx) = true →
    matchTx P tir payload "" "" = .ok (some a) →
    ∃ lifted, lift P bech32 spec.tii txName spec.profileName tir payload a = .ok lifted

section Consumers

variable {P : Pallas} {T : Tx3} {bech32 : String → Except String ByteBuf}
  {readTii : String → Except TrackerError TiiFile} {src : SourceConfig} {spec : SpecializedTii}
  {payload : CardanoPayload} {txName : String}

/-- `try_lift` finds something only where the cached source accepts. -/
theorem accepts_of_tryLift (h : specializeOne T bech32 readTii src = .ok spec)
    (htx : txName ∈ spec.tii.transactions.keys) {lifted : Lifted}
    (htry : tryLift P T bech32 spec.tii txName spec.profileName payload ∅ = .ok (some lifted)) :
    spec.Accepts P payload txName := by
  rcases tryLift_cases P T bech32 spec.tii payload txName spec.profileName with
    ⟨e, -, he⟩ | ⟨-, hnone⟩ | ⟨_, hcontends, -⟩
  · cases htry.symm.trans he
  · cases htry.symm.trans hnone
  · rcases hcontends with ⟨e, he⟩ | ⟨tir, tx, fp, hspec, hparse, hfp, haccepted⟩
    · cases htry.symm.trans (tryLift_of_fails he)
    · exact ⟨tx, tir, fp, hparse, (cached_iff h).mpr ⟨htx, hspec, hfp⟩, haccepted⟩

/-- On a payload that parses, no transaction of a liftable source fails, and `try_lift` finds
    something where the cached source accepts. -/
theorem tryLift_of_liftable (h : specializeOne T bech32 readTii src = .ok spec)
    (hlift : spec.Liftable P bech32 payload) {tx : MultiEraTx} (hparse : payload.parsed P = .ok tx)
    (htx : txName ∈ spec.tii.transactions.keys) :
    (∃ r, tryLift P T bech32 spec.tii txName spec.profileName payload ∅ = .ok r) ∧
      (spec.Accepts P payload txName → ∃ lifted,
        tryLift P T bech32 spec.tii txName spec.profileName payload ∅ = .ok (some lifted)) := by
  obtain ⟨tir, fp, hcached⟩ := exists_cached h htx
  obtain ⟨-, hspec, hfp⟩ := (cached_iff h).mp hcached
  by_cases haccepted : Accepted P payload tx tir fp
  · obtain ⟨a, ha⟩ := haccepted.matched
    have hnamed : matchTx P tir payload spec.profileName txName = .ok (some
        { a with profileName := spec.profileName, txName := txName }) := by
      rw [matchTx_names spec.profileName txName "" "", ha]
      rfl
    obtain ⟨lifted, hlifted⟩ := hlift tx txName tir fp a hparse hcached haccepted.admitted ha
    have htry := tryLift_of_accepted hspec hparse hfp haccepted.admitted hnamed
    -- the names in the assignment are not read
    have hsame : lift P bech32 spec.tii txName spec.profileName tir payload
        { a with profileName := spec.profileName, txName := txName } = .ok lifted := hlifted
    rw [hsame] at htry
    exact ⟨⟨_, htry⟩, fun _ => ⟨lifted, htry⟩⟩
  · refine ⟨⟨none, tryLift_of_not_accepted hspec hparse hfp haccepted⟩, ?_⟩
    rintro ⟨tx', tir', fp', hparse', hcached', haccepted'⟩
    cases hparse.symm.trans hparse'
    cases hcached.symm.trans hcached'
    exact absurd haccepted' haccepted

end Consumers

/-! ## A sample source

One source with one party, the sample script address, and one template `touch` that asks for
nothing. -/

namespace Sample

/-- `serde_json::to_string` on bytes: an array of numbers. -/
def jsonBytes (bytes : ByteBuf) : String :=
  "[" ++ String.intercalate "," (bytes.map fun b => toString b.toNat) ++ "]"

/-- `serde_json::to_string` on a role. -/
def jsonRole : PartyRole → String
  | .input => "\"Input\""
  | .output => "\"Output\""
  | .signer => "\"Signer\""
  | .multiple => "\"Multiple\""
  | .absent => "\"Absent\""

/-- `serde_json::to_string` on a party under its name. -/
def jsonParty (party : PartyAnnotation) : String :=
  "\"" ++ party.name ++ "\":\x7b\"name\":\"" ++ party.name ++ "\",\"address\":" ++
    jsonBytes party.address ++ ",\"role\":" ++ jsonRole party.role ++ "\x7d"

/-- `serde_json::to_string` on a `Lifted` without annotations, the only kind that the sample
    template gives. -/
def toJson (lifted : Lifted) : Except String String :=
  .ok ("\x7b\"tx_id\":" ++ jsonBytes lifted.txId ++
    ",\"protocol_name\":\"" ++ lifted.protocolName ++
    "\",\"tx_name\":\"" ++ lifted.txName ++
    "\",\"profile_name\":\"" ++ lifted.profileName ++
    "\",\"tir_hash\":" ++ toString lifted.tirHash.toNat ++
    ",\"parties\":\x7b" ++
      String.intercalate "," (lifted.parties.toList.map fun entry => jsonParty entry.2) ++
    "\x7d,\"inputs\":[],\"references\":[],\"outputs\":[],\"mints\":[],\"burns\":[]," ++
    "\"policies\":\x7b\x7d,\"signers\":[],\"metadata\":[]\x7d")

def deps (blocks : List (ByteBuf × MultiEraBlock)) : Deps :=
  { pallas blocks with bech32 := bech32, toJson := toJson }

/-- The encoded TIR of `touch`. -/
def touchCbor : ByteBuf :=
  [0xab, 0x64, 0x66, 0x65, 0x65, 0x73, 0x64, 0x4e, 0x6f, 0x6e, 0x65, 0x6a, 0x72, 0x65, 0x66, 0x65,
   0x72, 0x65, 0x6e, 0x63, 0x65, 0x73, 0x80, 0x66, 0x69, 0x6e, 0x70, 0x75, 0x74, 0x73, 0x80, 0x67,
   0x6f, 0x75, 0x74, 0x70, 0x75, 0x74, 0x73, 0x80, 0x68, 0x76, 0x61, 0x6c, 0x69, 0x64, 0x69, 0x74,
   0x79, 0xf6, 0x65, 0x6d, 0x69, 0x6e, 0x74, 0x73, 0x80, 0x65, 0x62, 0x75, 0x72, 0x6e, 0x73, 0x80,
   0x65, 0x61, 0x64, 0x68, 0x6f, 0x63, 0x80, 0x6a, 0x63, 0x6f, 0x6c, 0x6c, 0x61, 0x74, 0x65, 0x72,
   0x61, 0x6c, 0x80, 0x67, 0x73, 0x69, 0x67, 0x6e, 0x65, 0x72, 0x73, 0xf6, 0x68, 0x6d, 0x65, 0x74,
   0x61, 0x64, 0x61, 0x74, 0x61, 0x80]

/-- `touch`. -/
def touchTir : Tir.Tx :=
  { references := [], inputs := [], outputs := [], validity := none, mints := [], burns := [],
    collateral := [], signers := none, metadata := []
    json := asciiBytes ("\x7b\"fees\":\"None\",\"references\":[],\"inputs\":[],\"outputs\":[]," ++
      "\"validity\":null,\"mints\":[],\"burns\":[],\"adhoc\":[],\"collateral\":[]," ++
      "\"signers\":null,\"metadata\":[]\x7d") }

/-- `tx3_tir` with `touch` among the templates. -/
def touchTx3 : Tx3 :=
  { tx3 with
    fromBytes := fun bytes version =>
      if bytes = touchCbor then .ok touchTir else tx3.fromBytes bytes version }

/-- A document with the one transaction `touch`. -/
def touchTii : TiiFile :=
  { version := "v1beta0"
    protocolName := "sample"
    transactions := HashMap.singleton "touch" (transactionOf touchCbor)
    profiles := HashMap.singleton "preview" vaultProfile }

/-- The file of every source holds this document. -/
def readTouch (_path : String) : Except TrackerError TiiFile := .ok touchTii

/-- A source of the samples. -/
def sourceNamed (name : String) : SourceConfig :=
  { name := name, tiiPath := "sample.tii", profile := "preview" }

/-- Its anchors: the address of the party. -/
def vaultAnchors : ProtocolAnchors := { addresses := {scriptAddress} }

/-- What `specialize_one` makes of a source of this name. -/
def touchSource (name : String) : SpecializedTii :=
  { name := name
    tii := touchTii
    profileName := "preview"
    anchors := vaultAnchors
    txs :=
      match extract touchTx3 touchTii "touch" "preview" touchTir vaultArgs with
      | .ok fp => Std.ExtTreeMap.empty.insert "touch" (touchTir, fp)
      | .error _ => ∅ }

def source : SpecializedTii := touchSource "sample"

theorem fromBytes_touchCbor : touchTx3.fromBytes touchCbor .v1Beta0 = .ok touchTir := by
  simp only [touchTx3, if_true]

theorem specialize_touch :
    specialize touchTx3 bech32 touchTii "touch" "preview" ∅ = .ok touchTir :=
  specialize_eq_ok.mpr ⟨transactionOf touchCbor, vaultProfile, vaultArgs, touchTir, rfl, rfl,
    argsFromProfile_vault, decodeTir_transactionOf tirVersion_tx3 fromBytes_touchCbor, rfl⟩

theorem specializeOne_touch (name : String) :
    specializeOne touchTx3 bech32 readTouch (sourceNamed name) = .ok (touchSource name) := by
  obtain ⟨fp, hextract⟩ : ∃ fp,
      extract touchTx3 touchTii "touch" "preview" touchTir vaultArgs = .ok fp := ⟨_, rfl⟩
  have hprofile : lookupProfile touchTii "preview" = .ok vaultProfile := lookupProfile_eq_ok.mpr rfl
  have hfp : fingerprintFor touchTx3 bech32 touchTii "touch" "preview" = .ok fp :=
    (fingerprintFor_eq hprofile argsFromProfile_vault (lookupTx_eq_ok.mpr rfl)
      specialize_touch).trans hextract
  have hentry : specializeTx touchTx3 touchTii "preview" vaultArgs "touch" = .ok (touchTir, fp) :=
    (specializeTx_eq_ok hprofile argsFromProfile_vault).mpr ⟨specialize_touch, hfp⟩
  have hkeys : touchTii.transactions.keys = ["touch"] := rfl
  have htxs : touchTii.transactions.keys.foldlM
      (fun (txs : BTreeMap String (Tir.Tx × Fingerprint)) txName => do
        let entry ← specializeTx touchTx3 touchTii "preview" vaultArgs txName
        return txs.insert txName entry) ∅ =
          .ok (Std.ExtTreeMap.empty.insert "touch" (touchTir, fp)) := by
    rw [hkeys, List.foldlM_cons, hentry]
    rfl
  rw [touchSource, hextract]
  exact specializeOne_eq rfl hprofile rfl argsFromProfile_vault htxs Std.ExtTreeMap.insert_ne_empty

/-- The file of every source holds these siblings. -/
def readSiblings (names : List String) (h : names.Nodup) (_path : String) :
    Except TrackerError TiiFile := .ok (siblingTii names h)

theorem keys_siblingTii {names : List String} (h : names.Nodup) :
    (siblingTii names h).transactions.keys = names := by
  unfold siblingTii HashMap.keys
  rw [List.map_map]
  exact List.map_id names

theorem specializeOne_siblings {names : List String} (h : names.Nodup) (hne : names ≠ [])
    (name : String) :
    ∃ txs, specializeOne tx3 bech32 (readSiblings names h) (sourceNamed name) =
      .ok ⟨name, siblingTii names h, "preview", vaultAnchors, txs⟩ := by
  have hread : readSiblings names h (sourceNamed name).tiiPath = .ok (siblingTii names h) := rfl
  refine exists_specializeOne hread (lookupProfile_eq_ok.mpr rfl) rfl argsFromProfile_vault
    (fun txName htx => ?_) ?_
  · rw [keys_siblingTii] at htx
    exact ⟨_, specialize_sibling h htx⟩
  · rwa [keys_siblingTii]

/-- What the tracker caches for a sibling accepts the sample transaction, and it can be
    lifted. -/
theorem accepted_sibling {names : List String} (h : names.Nodup) {name : String}
    (hname : name ∈ names) {tir : Tir.Tx} {fp : Fingerprint}
    (hspec : specialize tx3 bech32 (siblingTii names h) name "preview" ∅ = .ok tir)
    (hfp : fingerprintFor tx3 bech32 (siblingTii names h) name "preview" = .ok fp) :
    Accepted (pallas []) scriptPayload scriptTx tir fp ∧
      ∀ a, matchTx (pallas []) tir scriptPayload "" "" = .ok (some a) →
        ∃ lifted, lift (pallas []) bech32 (siblingTii names h) name "preview" tir scriptPayload a =
          .ok lifted := by
  cases hspec.symm.trans (specialize_sibling h hname)
  obtain ⟨fp', hfp', hadmitted⟩ := fingerprintFor_sibling h hname
  cases hfp.symm.trans hfp'
  have hmatch : matchTx (pallas []) lockedTir scriptPayload "" "" =
    .ok (some ⟨"", "", [], [[0]], [], [], [], []⟩) := rfl
  refine ⟨⟨hadmitted, _, hmatch⟩, fun a ha => ?_⟩
  cases hmatch.symm.trans ha
  exact ⟨_, rfl⟩

theorem parsed_scriptPayload : scriptPayload.parsed (pallas []) = .ok scriptTx := rfl

theorem liftable_siblings {names : List String} (h : names.Nodup) {name : String}
    {spec : SpecializedTii}
    (hspec : specializeOne tx3 bech32 (readSiblings names h) (sourceNamed name) = .ok spec)
    (htii : spec.tii = siblingTii names h) (hprofile : spec.profileName = "preview") :
    spec.Liftable (pallas []) bech32 scriptPayload := by
  intro tx txName tir fp a hparse hcached _ hmatch
  obtain ⟨htx, hs, hf⟩ := (cached_iff hspec).mp hcached
  rw [htii, keys_siblingTii] at htx
  rw [htii, hprofile] at hs hf ⊢
  exact (accepted_sibling h htx hs hf).2 a hmatch

end Sample

/-- **The library route and the tracker accept the same transactions.** -/
theorem route_eq_tracker (P : Pallas) (T : Tx3) (bech32 : String → Except String ByteBuf)
    (readTii : String → Except TrackerError TiiFile) (src : SourceConfig) (spec : SpecializedTii)
    (payload : CardanoPayload) (h : specializeOne T bech32 readTii src = .ok spec)
    (hlift : spec.Liftable P bech32 payload) :
    ((∃ lifted, routeAndLiftWithProfile P T bech32 spec.tii spec.profileName payload =
        .ok (some lifted)) ↔ ∃ txName, spec.Accepts P payload txName) ∧
    (∀ lifted, routeAndLiftWithProfile P T bech32 spec.tii spec.profileName payload =
        .ok (some lifted) → spec.Accepts P payload lifted.txName) ∧
    ∀ txName ∈ spec.tii.transactions.keys, ∃ tir fp, spec.txs[txName]? = some (tir, fp) ∧
      specialize T bech32 spec.tii txName spec.profileName ∅ = .ok tir ∧
      fingerprintFor T bech32 spec.tii txName spec.profileName = .ok fp := by
  have hfound : ∀ lifted, routeAndLiftWithProfile P T bech32 spec.tii spec.profileName payload =
      .ok (some lifted) → spec.Accepts P payload lifted.txName := by
    intro lifted hroute
    rcases firstHit_cases (fun txName => tryLift P T bech32 spec.tii txName spec.profileName
      payload ∅) spec.tii.transactions.keys with ⟨hnone, -⟩ | ⟨txName, htx, -, heq⟩
    · cases hroute.symm.trans hnone
    · have htry := heq.symm.trans hroute
      rw [(tryLift_names htry).1]
      exact accepts_of_tryLift h htx htry
  refine ⟨⟨fun ⟨lifted, hroute⟩ => ⟨_, hfound lifted hroute⟩, ?_⟩, hfound, ?_⟩
  · rintro ⟨txName, haccepts⟩
    obtain ⟨tx, tir, fp, hparse, hcached, -⟩ := id haccepts
    have htx := ((cached_iff h).mp hcached).1
    refine (firstHit_of_total fun name hname => (tryLift_of_liftable h hlift hparse hname).1).1.mpr
      ⟨txName, htx, (tryLift_of_liftable h hlift hparse htx).2 haccepts⟩
  · intro txName htx
    obtain ⟨tir, fp, hcached⟩ := exists_cached h htx
    exact ⟨tir, fp, hcached, ((cached_iff h).mp hcached).2⟩

theorem route_eq_tracker_sample :
    ∃ spec, specializeOne Sample.tx3 Sample.bech32 (Sample.readSiblings ["open", "close"] (by decide))
        (Sample.sourceNamed "sample") = .ok spec ∧
      ((∃ lifted, routeAndLiftWithProfile (Sample.pallas []) Sample.tx3 Sample.bech32 spec.tii
          spec.profileName Sample.scriptPayload = .ok (some lifted)) ↔
        ∃ txName, spec.Accepts (Sample.pallas []) Sample.scriptPayload txName) ∧
      (∀ lifted, routeAndLiftWithProfile (Sample.pallas []) Sample.tx3 Sample.bech32 spec.tii
          spec.profileName Sample.scriptPayload = .ok (some lifted) →
        spec.Accepts (Sample.pallas []) Sample.scriptPayload lifted.txName) ∧
      ∀ txName ∈ spec.tii.transactions.keys, ∃ tir fp, spec.txs[txName]? = some (tir, fp) ∧
        specialize Sample.tx3 Sample.bech32 spec.tii txName spec.profileName ∅ = .ok tir ∧
        fingerprintFor Sample.tx3 Sample.bech32 spec.tii txName spec.profileName = .ok fp := by
  obtain ⟨txs, hspec⟩ := Sample.specializeOne_siblings
    (show ["open", "close"].Nodup by decide) (by decide) "sample"
  exact ⟨_, hspec, route_eq_tracker (Sample.pallas []) Sample.tx3 Sample.bech32 _ _ _
    Sample.scriptPayload hspec (Sample.liftable_siblings (by decide) hspec rfl rfl)⟩

end Tx3Lift
