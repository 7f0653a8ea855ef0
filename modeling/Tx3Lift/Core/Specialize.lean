import Tx3Lift.Core.Basic
import Tx3Lift.Lib.Run

/-!
# Specialization

Model of `crates/tx3-lift/src/specialize.rs`: a profile becomes an argument map, and the
decoded TIR of a transaction is reduced under it. What the crate uses of `tx3_tir`,
`serde_json` and `hex` is collected in `Tx3`.

* `specialize_eq_ok`: the steps a successful specialization went through.
* `argsFromProfile_parties`: the argument map exists only if every party address decodes.
-/

namespace Tx3Lift

open Lib

/-! ## Other crates -/

/-- `tx3_tir::encoding::TirVersion`; every version but `V1Beta0` is refused. -/
inductive TirVersion where
  | v1Beta0
  | other (name : String)
deriving DecidableEq

/-- `tx3_tir::reduce::ArgValue`. -/
inductive ArgValue where
  | int (n : ℤ)
  | bool (b : Bool)
  | string (s : String)
  | bytes (b : ByteBuf)
  | address (b : ByteBuf)
  | utxoRef (r : Tir.UtxoRef)
  | utxoSet

/-- `tx3_tir::reduce::ArgMap`. -/
abbrev ArgMap := BTreeMap String ArgValue

/-- What `tx3-lift` uses of other crates: `TirVersion::try_from`, `from_bytes`, `apply_args`,
    `serde_json::to_vec` on an argument map, and the text of a `hex::decode` error. -/
structure Tx3 where
  tirVersion : String → Except String TirVersion
  fromBytes : ByteBuf → TirVersion → Except String Tir.Tx
  applyArgs : Tir.Tx → ArgMap → Except String Tir.Tx
  argsJson : ArgMap → ByteBuf
  hexError : String → String

/-! ## Model -/

/-- `lookup_tx` (lines 9–16). -/
def lookupTx (tii : TiiFile) (txName : String) : Except LiftError Transaction :=
  okOr (tii.transactions.get? txName) (.unknownTransaction txName)

/-- `lookup_profile` (lines 18–22). -/
def lookupProfile (tii : TiiFile) (profileName : String) : Except LiftError Profile :=
  okOr (tii.profiles.get? profileName) (.unknownProfile profileName)

/-- The bytes of an envelope (lines 30–39). -/
def TirEnvelope.decodeContent (T : Tx3) (tir : TirEnvelope) : Except LiftError ByteBuf :=
  match tir.encoding with
  | .hex => okOr (hexDecode tir.content.toList) (.invalidEncoding (T.hexError tir.content))
  | .base64 => throw (.invalidEncoding "base64 TIR envelopes are not supported in v0; use hex")

/-- `decode_tir` (lines 24–44). -/
def decodeTir (T : Tx3) (tx : Transaction) : Except LiftError Tir.Tx := do
  let version ← (T.tirVersion tx.tir.version).mapError .tirDecode
  match version with
  | .other name => throw (.unsupportedTirVersion name)
  | .v1Beta0 =>
    let bytes ← tx.tir.decodeContent T
    (T.fromBytes bytes version).mapError .tirDecode

/-- `s.strip_prefix("0x")`. -/
def strip0x : List Char → Option (List Char)
  | '0' :: 'x' :: stripped => some stripped
  | _ => none

/-- `json_to_arg_value` (lines 50–64). -/
def jsonToArgValue : Json → Option ArgValue
  | .bool b => some (.bool b)
  | .number asI64 => asI64.map .int
  | .string s =>
    match (strip0x s.toList).bind hexDecode with
    | some bytes => some (.bytes bytes)
    | none => some (.string s)
  | _ => none

/-- The loop over the environment (lines 81–87). -/
def environmentArgs : Json → ArgMap
  | .object env => env.foldl (fun (args : ArgMap) entry =>
      match jsonToArgValue entry.2 with
      | some arg => args.insert entry.1 arg
      | none => args) ∅
  | _ => ∅

/-- The body of the loop over the parties (lines 89–92). -/
def addPartyArg (bech32 : String → Except String ByteBuf) (args : ArgMap)
    (entry : String × String) : Except LiftError ArgMap := do
  let bytes ← decodeBech32Address bech32 entry.2
  return args.insert entry.1 (.address bytes)

/-- `args_from_profile` (lines 78–99). -/
def argsFromProfile (bech32 : String → Except String ByteBuf) (profile : Profile)
    (extraArgs : ArgMap) : Except LiftError ArgMap := do
  let args ← run (addPartyArg bech32) (environmentArgs profile.environment) profile.parties.entries
  return extraArgs.toList.foldl (fun (args : ArgMap) entry => args.insert entry.1 entry.2) args

/-- `specialize` (lines 102–113). -/
def specialize (T : Tx3) (bech32 : String → Except String ByteBuf) (tii : TiiFile)
    (txName profileName : String) (extraArgs : ArgMap) : Except LiftError Tir.Tx := do
  let tx ← lookupTx tii txName
  let profile ← lookupProfile tii profileName
  let args ← argsFromProfile bech32 profile extraArgs
  let tir ← decodeTir T tx
  (T.applyArgs tir args).mapError .specialize

/-! ## What a successful specialization went through -/

section Specialize

variable {T : Tx3} {bech32 : String → Except String ByteBuf} {tii : TiiFile}
  {txName profileName : String} {extraArgs : ArgMap}

theorem lookupTx_eq_ok {tx : Transaction} :
    lookupTx tii txName = .ok tx ↔ tii.transactions.get? txName = some tx := okOr_eq_ok

theorem lookupProfile_eq_ok {profile : Profile} :
    lookupProfile tii profileName = .ok profile ↔ tii.profiles.get? profileName = some profile :=
  okOr_eq_ok

theorem specialize_eq_ok {specialized : Tir.Tx} :
    specialize T bech32 tii txName profileName extraArgs = .ok specialized ↔
      ∃ tx profile args tir, lookupTx tii txName = .ok tx ∧
        lookupProfile tii profileName = .ok profile ∧
        argsFromProfile bech32 profile extraArgs = .ok args ∧ decodeTir T tx = .ok tir ∧
        T.applyArgs tir args = .ok specialized := by
  constructor
  · intro h
    obtain ⟨tx, htx, h⟩ := Except.bind_eq_ok h
    obtain ⟨profile, hprofile, h⟩ := Except.bind_eq_ok h
    obtain ⟨args, hargs, h⟩ := Except.bind_eq_ok h
    obtain ⟨tir, htir, h⟩ := Except.bind_eq_ok h
    exact ⟨tx, profile, args, tir, htx, hprofile, hargs, htir, Except.mapError_eq_ok.mp h⟩
  · rintro ⟨tx, profile, args, tir, htx, hprofile, hargs, htir, happly⟩
    simp only [specialize, htx, hprofile, hargs, htir, happly, bind, Except.bind, Except.mapError]

theorem decodeBech32Address_eq_ok {s : String} {bytes : ByteBuf} :
    decodeBech32Address bech32 s = .ok bytes ↔ bech32 s = .ok bytes := by
  unfold decodeBech32Address
  cases bech32 s <;> simp

theorem run_addPartyArg {parties : List (String × String)} {args args' : ArgMap}
    (h : run (addPartyArg bech32) args parties = .ok args') :
    ∀ entry ∈ parties, ∃ bytes, bech32 entry.2 = .ok bytes := by
  intro entry hentry
  obtain ⟨before, after, hstep⟩ := exists_step_of_run h entry hentry
  obtain ⟨bytes, hbytes, -⟩ := Except.bind_eq_ok hstep
  exact ⟨bytes, decodeBech32Address_eq_ok.mp hbytes⟩

/-- An envelope with the hexadecimal form of some bytes holds these bytes. -/
theorem decodeContent_hexEncode (T : Tx3) (version : String) (bytes : ByteBuf) :
    TirEnvelope.decodeContent T
      { version := version, encoding := .hex, content := hexEncode bytes } = .ok bytes :=
  okOr_eq_ok.mpr (hexDecode_hexEncode bytes)

theorem decodeTir_eq_ok {tx : Transaction} {bytes : ByteBuf} {tir : Tir.Tx}
    (hversion : T.tirVersion tx.tir.version = .ok .v1Beta0)
    (hcontent : tx.tir.decodeContent T = .ok bytes)
    (hbytes : T.fromBytes bytes .v1Beta0 = .ok tir) : decodeTir T tx = .ok tir := by
  simp only [decodeTir, hversion, hcontent, hbytes, Except.mapError, bind, Except.bind]

/-- The argument map of a profile exists only if every party address decodes. -/
theorem argsFromProfile_parties {profile : Profile} {args : ArgMap}
    (h : argsFromProfile bech32 profile extraArgs = .ok args) :
    ∀ entry ∈ profile.parties.entries, ∃ bytes, bech32 entry.2 = .ok bytes := by
  obtain ⟨parties, hparties, -⟩ := Except.bind_eq_ok h
  exact run_addPartyArg hparties

end Specialize

end Tx3Lift
