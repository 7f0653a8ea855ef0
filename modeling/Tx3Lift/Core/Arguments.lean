import Tx3Lift.Core.Specialize
import Tx3Lift.Lib.Emit

/-!
# The arguments of a profile

What `args_from_profile` (`crates/tx3-lift/src/specialize.rs`, lines 46–99) hands to `apply_args`.

* `jsonToArgValue_string`: no string is lost, and every byte string can be written down.
* `argsFromProfile_spec`: the caller's arguments, before the parties, before the environment.
-/

namespace Tx3Lift

open Lib

/-! ## Values of the environment -/

theorem strip0x_eq_some {cs stripped : List Char} :
    strip0x cs = some stripped ↔ cs = '0' :: 'x' :: stripped := by
  unfold strip0x
  split
  · simp
  · rename_i h
    simp only [reduceCtorEq, false_iff]
    exact fun hcs => h stripped hcs

/-- A string stands for bytes if it is `0x` and their hexadecimal digits, and else for itself. -/
theorem jsonToArgValue_string (s : String) (arg : ArgValue) :
    jsonToArgValue (.string s) = some arg ↔
      (∃ stripped bytes, s.toList = '0' :: 'x' :: stripped ∧ hexDecode stripped = some bytes ∧
        arg = .bytes bytes) ∨
      ((∀ stripped, s.toList = '0' :: 'x' :: stripped → hexDecode stripped = none) ∧
        arg = .string s) := by
  rw [jsonToArgValue]
  cases hbytes : (strip0x s.toList).bind hexDecode with
  | some bytes =>
    obtain ⟨stripped, hstrip, hdecode⟩ := Option.bind_eq_some_iff.mp hbytes
    rw [strip0x_eq_some] at hstrip
    constructor
    · intro h
      cases h
      exact Or.inl ⟨stripped, bytes, hstrip, hdecode, rfl⟩
    · rintro (⟨stripped', bytes', hstrip', hdecode', rfl⟩ | ⟨hnone, -⟩)
      · cases hstrip.symm.trans hstrip'
        cases hdecode.symm.trans hdecode'
        rfl
      · cases hdecode.symm.trans (hnone stripped hstrip)
  | none =>
    have hnone : ∀ stripped, s.toList = '0' :: 'x' :: stripped → hexDecode stripped = none := by
      intro stripped hstrip
      rwa [strip0x_eq_some.mpr hstrip, Option.bind_some] at hbytes
    constructor
    · intro h
      cases h
      exact Or.inr ⟨hnone, rfl⟩
    · rintro (⟨stripped, bytes, hstrip, hdecode, -⟩ | ⟨-, rfl⟩)
      · cases hdecode.symm.trans (hnone stripped hstrip)
      · rfl

/-- Every byte string can be written in an environment. -/
theorem jsonToArgValue_hexEncode (bytes : ByteBuf) :
    jsonToArgValue (.string ("0x" ++ hexEncode bytes)) = some (.bytes bytes) := by
  refine (jsonToArgValue_string _ _).mpr (Or.inl ⟨(hexEncode bytes).toList, bytes, ?_, ?_, rfl⟩)
  · rw [String.toList_append]
    rfl
  · exact hexDecode_hexEncode bytes

/-- The value that an environment has for a name: the last entry that stands for an argument. -/
def environmentValue (environment : Json) (name : String) : Option ArgValue :=
  match environment with
  | .object env => env.reverse.findSome? fun entry =>
      if entry.1 = name then jsonToArgValue entry.2 else none
  | _ => none

theorem getElem?_environmentArgs (environment : Json) (name : String) :
    (environmentArgs environment)[name]? = environmentValue environment name := by
  cases environment with
  | object env =>
    rw [environmentArgs]
    refine (getElem?_foldl_insert Prod.fst (fun entry => jsonToArgValue entry.2) ?_ env ∅
      name).trans ?_
    · intro args entry
      cases jsonToArgValue entry.2 with
      | none => rfl
      | some arg => rfl
    · rw [Std.ExtTreeMap.getElem?_empty, Option.or_none]
      rfl
  | _ => simp [environmentArgs, environmentValue]

/-! ## Parties and extra arguments -/

section Arguments

variable {bech32 : String → Except String ByteBuf} {profile : Profile} {extraArgs args : ArgMap}

/-- The argument that a profile's party of this name stands for. -/
def Profile.partyValue (bech32 : String → Except String ByteBuf) (profile : Profile)
    (name : String) : Option ArgValue :=
  (profile.parties.get? name).bind fun address => (bech32 address).toOption.map .address

theorem getElem?_addPartyArgs {parties : List (String × String)} {start args : ArgMap}
    (hnodup : (parties.map Prod.fst).Nodup)
    (h : run (addPartyArg bech32) start parties = .ok args) (name : String) :
    args[name]? = ((parties.lookup name).bind fun address =>
      (bech32 address).toOption.map ArgValue.address).or start[name]? := by
  induction parties generalizing start with
  | nil =>
    cases h
    rfl
  | cons party parties ih =>
    obtain ⟨partyName, address⟩ := party
    obtain ⟨mid, hmid, hrest⟩ := run_cons_ok.mp h
    obtain ⟨bytes, hbytes, hinsert⟩ := Except.bind_eq_ok hmid
    cases hinsert
    obtain ⟨hfresh, hnodup⟩ := List.nodup_cons.mp hnodup
    rw [ih hnodup hrest, Std.ExtTreeMap.getElem?_insert, List.lookup_cons]
    by_cases hname : name = partyName
    · subst hname
      have hnone : parties.lookup name = none := by
        refine List.lookup_eq_none_iff.mpr fun party hparty => ?_
        rw [bne_iff_ne]
        rintro rfl
        exact hfresh (List.mem_map.mpr ⟨party, hparty, rfl⟩)
      have hdecoded : bech32 address = .ok bytes := decodeBech32Address_eq_ok.mp hbytes
      simp [hnone, hdecoded, Except.toOption]
    · have hmiss : (name == partyName) = false := beq_eq_false_iff_ne.mpr hname
      simp [hmiss, Ne.symm hname]

theorem findSome?_toList_args (m : ArgMap) (name : String) :
    (m.toList.reverse.findSome? fun entry => if entry.1 = name then some entry.2 else none) =
      m[name]? := by
  have hfound : ∀ arg, (m.toList.reverse.findSome? fun entry =>
      if entry.1 = name then some entry.2 else none) = some arg → m[name]? = some arg := by
    intro arg harg
    obtain ⟨entry, hentry, hvalue⟩ := List.exists_of_findSome?_eq_some harg
    split_ifs at hvalue with hname
    · cases hvalue
      rw [← hname, ← Std.ExtTreeMap.mem_toList_iff_getElem?_eq_some]
      exact List.mem_reverse.mp hentry
  cases hget : m[name]? with
  | none =>
    by_contra hne
    obtain ⟨arg, harg⟩ := Option.ne_none_iff_exists'.mp hne
    cases hget.symm.trans (hfound arg harg)
  | some arg =>
    have hmem := Std.ExtTreeMap.mem_toList_iff_getElem?_eq_some.mpr hget
    cases hloop : m.toList.reverse.findSome? fun entry =>
        if entry.1 = name then some entry.2 else none with
    | none =>
      have hskip := List.findSome?_eq_none_iff.mp hloop (name, arg) (List.mem_reverse.mpr hmem)
      simp at hskip
    | some arg' => exact (hfound arg' hloop).symm.trans hget

/-- `args_from_profile` fails only at an address that does not decode. -/
theorem exists_argsFromProfile_iff :
    (∃ args, argsFromProfile bech32 profile extraArgs = .ok args) ↔
      ∀ entry ∈ profile.parties.entries, ∃ bytes, bech32 entry.2 = .ok bytes := by
  constructor
  · rintro ⟨args, h⟩
    exact argsFromProfile_parties h
  · intro hparties
    have hstep : ∀ (args : ArgMap) (entry : String × String),
        (∃ args', addPartyArg bech32 args entry = .ok args') ↔
          ∃ bytes, bech32 entry.2 = .ok bytes := by
      intro args entry
      cases hbytes : bech32 entry.2 with
      | error e => simp [addPartyArg, decodeBech32Address, hbytes, bind, Except.bind]
      | ok bytes =>
        simp [addPartyArg, decodeBech32Address, hbytes, bind, Except.bind, pure, Except.pure]
    obtain ⟨args, hargs⟩ := (foldlM_eq_ok_iff hstep _ (environmentArgs profile.environment)).mpr
      hparties
    have hrun : run (addPartyArg bech32) (environmentArgs profile.environment)
      profile.parties.entries = .ok args := hargs
    rw [argsFromProfile, hrun]
    exact ⟨_, rfl⟩

end Arguments

/-- **The arguments of a profile.** They exist exactly if every address of a party decodes, and then
    a name has the argument of the caller, or else the address of the party, or else the value of
    the environment, in which every byte string can be written. -/
theorem argsFromProfile_spec (bech32 : String → Except String ByteBuf) (profile : Profile)
    (extraArgs : ArgMap) :
    ((∃ args, argsFromProfile bech32 profile extraArgs = .ok args) ↔
      ∀ entry ∈ profile.parties.entries, ∃ bytes, bech32 entry.2 = .ok bytes) ∧
    (∀ args, argsFromProfile bech32 profile extraArgs = .ok args → ∀ name : String,
      args[name]? = extraArgs[name]?.or ((profile.partyValue bech32 name).or
        (environmentValue profile.environment name))) ∧
    ∀ bytes, jsonToArgValue (.string ("0x" ++ hexEncode bytes)) = some (.bytes bytes) := by
  refine ⟨exists_argsFromProfile_iff, fun args h name => ?_, jsonToArgValue_hexEncode⟩
  obtain ⟨parties, hparties, hextra⟩ := Except.bind_eq_ok h
  cases hextra
  have hextra : ∀ (args : ArgMap) (entry : String × ArgValue), args.insert entry.1 entry.2 =
      (some entry.2).elim args fun arg => args.insert entry.1 arg := fun _ _ => rfl
  rw [getElem?_foldl_insert Prod.fst _ hextra, findSome?_toList_args,
    getElem?_addPartyArgs profile.parties.nodup hparties, getElem?_environmentArgs]
  rfl

end Tx3Lift
