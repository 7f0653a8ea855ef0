import Tx3Lift.Cardano.Annotate
import Tx3Lift.Core.Strengthen
import Tx3Lift.Lib.FirstIn
import Tx3Lift.Lib.Flat
import Tx3Lift.Lib.Run

/-!
# The roles of parties

The roles that `lift` accumulates over inputs, outputs and signers
(`crates/tx3-lift-cardano/src/lifting.rs`). A role is what a set of kinds amounts to, so the
order and the number of occurrences do not matter; but each occurrence is credited to one
party, the first in the order of names, and hides it from the others.

* `combineRole_roleOf`: combining roles adds a kind to the set.
* `Tracks.credit`, `Tracks.foldl`: what one occurrence, and a pass over occurrences, does to
  all parties.
* `LiftRun.tracks`: the roles at the end of `lift` are those of the credited kinds.
* `lift_roles_iff`: when this is the role of the kinds that a party shows.
-/

namespace Tx3Lift

open Lib Tir

/-! ## Roles and kinds -/

/-- What a party can be seen to do. -/
inductive PartyKind where
  | input
  | output
  | signer
deriving DecidableEq

/-- The role of one kind. -/
def PartyKind.role : PartyKind → PartyRole
  | .input => .input
  | .output => .output
  | .signer => .signer

/-- The role of none, one or several kinds. -/
def PartyRole.ofFlat : Flat PartyKind → PartyRole
  | .none => .absent
  | .one k => k.role
  | .many => .multiple

/-- The role of a set of kinds: `Absent` if it is empty, the kind if it is the only one, else
    `Multiple`. -/
noncomputable def roleOf (K : Set PartyKind) : PartyRole := .ofFlat (Flat.ofSet K)

theorem ofFlat_injective : Function.Injective PartyRole.ofFlat := by
  intro f g h
  rcases f with _ | (_ | _ | _) | _ <;> rcases g with _ | (_ | _ | _) | _ <;> first | rfl | cases h

/-- Combining a role with that of one kind adds the kind. -/
theorem combineRole_roleOf (K : Set PartyKind) (k : PartyKind) :
    combineRole (roleOf K) k.role = roleOf (insert k K) := by
  have hjoin : ∀ f : Flat PartyKind,
      combineRole (PartyRole.ofFlat f) k.role = PartyRole.ofFlat (f.join k) := by
    intro f
    rcases f with _ | (_ | _ | _) | _ <;> cases k <;> rfl
  rw [roleOf, hjoin, Flat.join_ofSet, roleOf]

theorem roleOf_eq_iff (K L : Set PartyKind) :
    roleOf K = roleOf L ↔ K = L ∨ (K.Nontrivial ∧ L.Nontrivial) := by
  rw [roleOf, roleOf, ofFlat_injective.eq_iff, Flat.ofSet_eq_iff]

@[simp] theorem roleOf_empty : roleOf ∅ = .absent := by
  rw [roleOf, Flat.ofSet_empty]
  rfl

theorem roleOf_eq_absent_iff {K : Set PartyKind} : roleOf K = .absent ↔ K = ∅ := by
  rw [← roleOf_empty, roleOf_eq_iff]
  constructor
  · rintro (h | ⟨-, h⟩)
    · exact h
    · exact absurd h Set.not_nontrivial_empty
  · exact Or.inl

/-! ## Crediting occurrences -/

/-- The parties `start` with the roles of these kinds. -/
def Tracks (start : Parties) (K : String → Set PartyKind) (parties : Parties) : Prop :=
  ∀ name : String, parties[name]? =
    start[name]?.map fun party => { party with role := roleOf (K name) }

section Tracks

variable {start parties : Parties} {K : String → Set PartyKind}

/-- A test on addresses. -/
def onAddress (test : ByteBuf → Bool) (party : PartyAnnotation) : Bool := test party.address

/-- Roles do not change which party is the first at an address. -/
theorem Tracks.firstIn_iff (h : Tracks start K parties) (test : ByteBuf → Bool) (name : String) :
    FirstIn parties (onAddress test) name ↔ FirstIn start (onAddress test) name := by
  have hget : ∀ (name : String) (p : ByteBuf → Prop),
      (∃ party : PartyAnnotation, parties[name]? = some party ∧ p party.address) ↔
        ∃ party : PartyAnnotation, start[name]? = some party ∧ p party.address := by
    intro name p
    rw [h name]
    cases start[name]? <;> simp
  unfold FirstIn onAddress
  refine and_congr (hget name fun address => test address = true) ?_
  constructor
  · intro hbefore name' party hparty hlt
    obtain ⟨party', hparty', hsame⟩ :=
      (hget name' fun address => address = party.address).mpr ⟨party, hparty, rfl⟩
    rw [← hsame]
    exact hbefore name' party' hparty' hlt
  · intro hbefore name' party hparty hlt
    obtain ⟨party', hparty', hsame⟩ :=
      (hget name' fun address => address = party.address).mp ⟨party, hparty, rfl⟩
    rw [← hsame]
    exact hbefore name' party' hparty' hlt

/-- What one credited occurrence does to all parties. -/
theorem Tracks.credit (h : Tracks start K parties) {name : String} {party : PartyAnnotation}
    (hparty : parties[name]? = some party) (k : PartyKind) {K' : String → Set PartyKind}
    (hname : K' name = insert k (K name)) (hother : ∀ other, other ≠ name → K' other = K other) :
    Tracks start K'
      (parties.insert name { party with role := combineRole party.role k.role }) := by
  intro other
  rw [Std.ExtTreeMap.getElem?_insert]
  by_cases hcase : other = name
  · subst hcase
    have hstart := h other
    rw [hparty] at hstart
    obtain ⟨first, hfirst, hsame⟩ := Option.map_eq_some_iff.mp hstart.symm
    rw [if_pos (Std.compare_self), hfirst, Option.map_some, hname, ← hsame]
    simp only [combineRole_roleOf]
  · have hne : ¬ compare name other = .eq := by
      intro heq
      exact hcase (Std.LawfulEqOrd.eq_of_compare heq).symm
    rw [if_neg hne, h other, hother other hcase]

/-- The kinds after an occurrence of `k` went to the first party that passes the test. -/
def creditKinds (start : Parties) (k : PartyKind) (test : ByteBuf → Bool)
    (K : String → Set PartyKind) (name : String) : Set PartyKind :=
  {l | l ∈ K name ∨ (l = k ∧ FirstIn start (onAddress test) name)}

theorem creditKinds_self {k : PartyKind} {test : ByteBuf → Bool} {name : String}
    (h : FirstIn start (onAddress test) name) :
    creditKinds start k test K name = insert k (K name) := by
  ext l
  simp only [creditKinds, h, and_true, Set.mem_ofPred_eq, Set.mem_insert_iff]
  exact or_comm

theorem creditKinds_of_not {k : PartyKind} {test : ByteBuf → Bool} {name : String}
    (h : ¬ FirstIn start (onAddress test) name) : creditKinds start k test K name = K name := by
  ext l
  simp only [creditKinds, h, and_false, or_false, Set.mem_ofPred_eq]

/-- An occurrence that went to the party found first. -/
theorem Tracks.credit_first (h : Tracks start K parties) {name : String}
    {party : PartyAnnotation} (hparty : parties[name]? = some party) (k : PartyKind)
    {test : ByteBuf → Bool} (hfirst : FirstIn start (onAddress test) name) :
    Tracks start (creditKinds start k test K)
      (parties.insert name { party with role := combineRole party.role k.role }) :=
  h.credit hparty k (creditKinds_self hfirst) fun _ hne =>
    creditKinds_of_not fun hother => hne (hother.unique hfirst)

/-- An occurrence at an address that no party has. -/
theorem Tracks.credit_none (h : Tracks start K parties) (k : PartyKind) {test : ByteBuf → Bool}
    (hnone : ∀ name, ¬ FirstIn start (onAddress test) name) :
    Tracks start (creditKinds start k test K) parties := by
  intro name
  rw [h name, creditKinds_of_not (hnone name)]

/-- `match_party` credits the first party at the address. -/
theorem Tracks.matchParty (h : Tracks start K parties) (k : PartyKind) (address : ByteBuf) :
    Tracks start (creditKinds start k (fun a => decide (a = address)) K)
      (matchParty address parties k.role).2 := by
  unfold Tx3Lift.matchParty
  have hfirst := h.firstIn_iff fun a => decide (a = address)
  cases hfind : parties.toList.find? fun entry => decide (entry.2.address = address) with
  | none =>
    have hnone := (find?_toList_eq_none_iff (p := onAddress fun a => decide (a = address))).mp hfind
    exact h.credit_none k fun name hname => hnone name ((hfirst name).mpr hname)
  | some entry =>
    obtain ⟨name, party⟩ := entry
    obtain ⟨hparty, hname⟩ :=
      (find?_toList_eq_some_iff (p := onAddress fun a => decide (a = address))).mp hfind
    exact h.credit_first hparty k ((hfirst name).mp hname)

/-- A pass over occurrences credits each of them, whatever their order and number. -/
theorem Tracks.foldl {ι : Type} (k : PartyKind) (test : ι → ByteBuf → Bool)
    {step : Parties → ι → Parties} (occurrences : List ι)
    (hstep : ∀ K parties, ∀ i ∈ occurrences, Tracks start K parties →
      Tracks start (creditKinds start k (test i) K) (step parties i))
    (h : Tracks start K parties) :
    Tracks start (fun name => {l | l ∈ K name ∨
        (l = k ∧ ∃ i ∈ occurrences, FirstIn start (onAddress (test i)) name)})
      (occurrences.foldl step parties) := by
  induction occurrences generalizing K parties with
  | nil => simpa using h
  | cons i occurrences ih =>
    have hrest := ih (fun K parties j hj => hstep K parties j (List.mem_cons_of_mem _ hj))
      (hstep K parties i List.mem_cons_self h)
    intro name
    rw [List.foldl_cons, hrest name]
    congr 2
    funext party
    congr 2
    ext l
    simp only [creditKinds, Set.mem_ofPred_eq, List.mem_cons, exists_eq_or_imp]
    tauto

/-- Before anything is lifted no party has done anything. -/
theorem tracks_absent (h : ∀ (name : String) (party : PartyAnnotation),
    start[name]? = some party → party.role = .absent) : Tracks start (fun _ => ∅) start := by
  intro name
  cases hget : start[name]? with
  | none => rfl
  | some party =>
    have hrole := h name party hget
    rw [Option.map_some, roleOf_empty, ← hrole]

/-- The party that a signer is attributed to. -/
def signerParty (parties : Parties) (keyhash : ByteBuf) : Option String :=
  parties.toList.findSome? fun entry =>
    if addressContainsKeyhash entry.2.address keyhash then some entry.1 else none

theorem liftSigners_eq (tx : MultiEraTx) (parties : Parties) :
    liftSigners tx parties = (tx.requiredSigners.getD []).map fun hash =>
      { keyHash := hash.bytes, party := signerParty parties hash.bytes } := by
  unfold liftSigners
  cases tx.requiredSigners <;> rfl

/-- It is the first one whose address contains the key hash. -/
theorem signerParty_eq_some_iff {keyhash : ByteBuf} {name : String} :
    signerParty parties keyhash = some name ↔
      FirstIn parties (onAddress fun address => addressContainsKeyhash address keyhash) name :=
  findSome?_toList (p := onAddress fun address => addressContainsKeyhash address keyhash)

/-- `update_signer_party_roles` after `lift_signers` credits these parties. -/
theorem Tracks.signers (h : Tracks start K parties) (tx : MultiEraTx) :
    Tracks start (fun name => {l | l ∈ K name ∨ (l = .signer ∧
        ∃ hash ∈ tx.requiredSigners.getD [], FirstIn start
          (onAddress fun address => addressContainsKeyhash address hash.bytes) name)})
      (updateSignerPartyRoles (liftSigners tx parties) parties) := by
  rw [liftSigners_eq, updateSignerPartyRoles, List.foldl_map]
  refine Tracks.foldl .signer
    (fun (hash : Hash 28) address => addressContainsKeyhash address hash.bytes) _
    (fun K' parties' hash _ h' => ?_) h
  have hfirst := h.firstIn_iff fun address => addressContainsKeyhash address hash.bytes
  dsimp only
  cases hparty : signerParty parties hash.bytes with
  | none =>
    refine h'.credit_none .signer fun name hname => ?_
    rw [signerParty_eq_some_iff.mpr ((hfirst name).mpr hname)] at hparty
    cases hparty
  | some name =>
    have hname := (hfirst name).mp (signerParty_eq_some_iff.mp hparty)
    obtain ⟨party, hget, -⟩ := ((h'.firstIn_iff _ name).mpr hname).1
    simp only [hget]
    exact h'.credit_first hget .signer hname

end Tracks

/-! ## The passes of `lift` -/

section Passes

variable {P : Pallas} {payload : CardanoPayload} {tx : MultiEraTx} {specialized : Tir.Tx}
  {a : MatchAssignment}

/-- The parties after `lift_inputs`: one lookup for each annotation, in order. -/
theorem liftInputs_parties {parties after : Parties} {inputs : List InputAnnotation}
    (h : liftInputs P specialized tx payload a parties = .ok (inputs, after)) :
    after = (inputs.map InputAnnotation.address).foldl
      (fun parties address => (matchParty address parties PartyKind.input.role).2) parties := by
  rw [liftInputs_eq] at h
  have hrun : run (liftInputAt P payload tx specialized) ([], parties) (positions a.inputMap) =
      .ok (inputs, after) := h
  refine run_induction (fun _ st => st.2 = (st.1.map InputAnnotation.address).foldl
      (fun parties address => (matchParty address parties PartyKind.input.role).2) parties)
    rfl ?_ _ _ (List.prefix_refl _) hrun
  intro _ p st st' _ _ hst hround
  unfold liftInputAt liftInput at hround
  split at hround
  · cases hround
    exact hst
  · split at hround
    · cases hround
      exact hst
    · obtain ⟨parts, -, hround⟩ := Except.bind_eq_ok hround
      cases hround
      simp only [List.map_append, List.map_cons, List.map_nil, List.foldl_append, List.foldl_cons,
        List.foldl_nil]
      rw [← hst]
      rfl

/-- The parties after `lift_outputs`. -/
theorem liftOutputs_parties (parties : Parties) :
    (liftOutputs P tx a parties).2 =
      ((liftOutputs P tx a parties).1.map OutputAnnotation.address).foldl
        (fun parties address => (matchParty address parties PartyKind.output.role).2)
        parties := by
  rw [liftOutputs_eq]
  refine List.foldlRecOn (motive := fun st : List OutputAnnotation × Parties =>
    st.2 = (st.1.map OutputAnnotation.address).foldl
      (fun parties address => (matchParty address parties PartyKind.output.role).2) parties)
    (positions a.outputMap) _ rfl ?_
  intro st hst p _
  unfold liftOutput
  split
  · exact hst
  · simp only [List.map_append, List.map_cons, List.map_nil, List.foldl_append, List.foldl_cons,
      List.foldl_nil]
    rw [← hst]
    rfl

/-- The addresses of the annotations are those that the assigned slots show. -/
theorem exists_input_address {inputs : List InputAnnotation}
    (h : Labelled (InputLabel P payload tx specialized) a.inputMap inputs) (Q : ByteBuf → Prop) :
    (∃ address ∈ inputs.map InputAnnotation.address, Q address) ↔
      ∃ p ∈ positions a.inputMap, ∃ input, tx.inputs[p.2]? = some input ∧
        Q (payload.addressOf P input) := by
  simp only [List.mem_map, exists_exists_and_eq_and]
  refine (exists_mem_iff_of_forall₂ h.each fun p ann hlabel => ?_).symm
  obtain ⟨_, input, -, hinput, -, -, -, haddress⟩ := hlabel
  rw [haddress, hinput]
  simp

theorem exists_output_address {outputs : List OutputAnnotation}
    (h : Labelled (OutputLabel tx specialized) a.outputMap outputs) (Q : ByteBuf → Prop) :
    (∃ address ∈ outputs.map OutputAnnotation.address, Q address) ↔
      ∃ p ∈ positions a.outputMap, ∃ output, tx.outputs[p.2]? = some output ∧
        Q (output.address.getD []) := by
  simp only [List.mem_map, exists_exists_and_eq_and]
  refine (exists_mem_iff_of_forall₂ h.each fun p ann hlabel => ?_).symm
  obtain ⟨_, output, -, houtput, -, haddress⟩ := hlabel
  rw [haddress, houtput]
  simp

/-- The kinds of the occurrences that are credited to each party of `start`. -/
def creditedKinds (P : Pallas) (payload : CardanoPayload) (tx : MultiEraTx) (a : MatchAssignment)
    (First : (ByteBuf → Bool) → Prop) : Set PartyKind :=
  {k | match k with
    | .input => ∃ p ∈ positions a.inputMap, ∃ input, tx.inputs[p.2]? = some input ∧
        First fun address => decide (address = payload.addressOf P input)
    | .output => ∃ p ∈ positions a.outputMap, ∃ output, tx.outputs[p.2]? = some output ∧
        First fun address => decide (address = output.address.getD [])
    | .signer => ∃ hash ∈ tx.requiredSigners.getD [],
        First fun address => addressContainsKeyhash address hash.bytes}

/-- **The roles at the end of `lift`** are those of the credited kinds. -/
theorem LiftRun.tracks {lifted : Lifted} {parties afterInputs : Parties}
    (hrun : LiftRun P specialized payload a lifted tx parties afterInputs)
    (hmaps : SlotMaps tx specialized a)
    (habsent : ∀ (name : String) (party : PartyAnnotation),
      parties[name]? = some party → party.role = .absent) :
    Tracks parties
      (fun name => creditedKinds P payload tx a fun test => FirstIn parties (onAddress test) name)
      lifted.parties := by
  have hstep : ∀ (k : PartyKind) (K : String → Set PartyKind) (ps : Parties) (address : ByteBuf),
      Tracks parties K ps →
      Tracks parties (creditKinds parties k (fun x => decide (x = address)) K)
        (Tx3Lift.matchParty address ps k.role).2 :=
    fun k _ _ address h => h.matchParty k address
  have hinputs := Tracks.foldl .input (fun (address : ByteBuf) x => decide (x = address))
    (lifted.inputs.map InputAnnotation.address)
    (fun K ps address _ h => hstep .input K ps address h) (tracks_absent habsent)
  rw [← liftInputs_parties hrun.inputs] at hinputs
  have houtputs := Tracks.foldl .output (fun (address : ByteBuf) x => decide (x = address))
    (lifted.outputs.map OutputAnnotation.address)
    (fun K ps address _ h => hstep .output K ps address h) hinputs
  rw [hrun.outputs, ← liftOutputs_parties, ← hrun.outputs] at houtputs
  have hsigners := houtputs.signers tx
  rw [← hrun.signers, ← hrun.parties] at hsigners
  have hin := fun name => exists_input_address (hrun.inputs_labelled hmaps) fun address =>
    FirstIn parties (onAddress fun x => decide (x = address)) name
  have hout := fun name => exists_output_address (hrun.outputs_labelled hmaps) fun address =>
    FirstIn parties (onAddress fun x => decide (x = address)) name
  intro name
  rw [hsigners name]
  congr 2
  funext party
  congr 2
  ext l
  simp only [Set.mem_ofPred_eq, hin, hout, Set.mem_empty_iff_false, false_or, creditedKinds]
  cases l <;> simp

end Passes

/-! ## The parties of a profile -/

section Profile

variable {bech32 : String → Except String ByteBuf} {profile : Profile} {parties : Parties}

/-- The party of a profile entry before anything is lifted. -/
def FreshParty (bech32 : String → Except String ByteBuf) (entry : String × String)
    (party : PartyAnnotation) : Prop :=
  bech32 entry.2 = .ok party.address ∧ party.name = entry.1 ∧ party.role = .absent

/-- The map that `lift` starts from has the party of each entry of the profile. -/
theorem profileParties_spec (h : profileParties bech32 profile = .ok parties) (name : String)
    (party : PartyAnnotation) :
    parties[name]? = some party ↔
      ∃ address, (name, address) ∈ profile.parties.entries ∧
        FreshParty bech32 (name, address) party := by
  have hnodup := profile.parties.nodup
  revert name party
  refine run_induction (fun pre (parties : Parties) => ∀ (name : String) (party : PartyAnnotation),
    parties[name]? = some party ↔
      ∃ address, (name, address) ∈ pre ∧ FreshParty bech32 (name, address) party)
    ?_ ?_ _ _ (List.prefix_refl _) h
  · intro name party
    simp
  · rintro pre ⟨key, address⟩ before after hpre - hinv hstep name party
    have hfresh : ∀ other, (key, other) ∉ pre := by
      intro other hmem
      have hkeys := (List.IsPrefix.sublist (hpre.map Prod.fst)).nodup hnodup
      rw [List.map_append, List.nodup_append] at hkeys
      exact hkeys.2.2 key (List.mem_map_of_mem hmem) key (by simp) rfl
    split at hstep
    next bytes hbytes =>
      rw [decodeBech32Address_eq_ok] at hbytes
      cases hstep
      rw [getElem?_insert_eq_some_iff, hinv]
      constructor
      · rintro (⟨rfl, rfl⟩ | ⟨-, address', hmem, hread⟩)
        · exact ⟨address, by simp, hbytes, rfl, rfl⟩
        · exact ⟨address', List.mem_append_left _ hmem, hread⟩
      · rintro ⟨address', hmem, hread, hname, hrole⟩
        rcases List.mem_append.mp hmem with hmem | hmem
        · refine Or.inr ⟨?_, address', hmem, hread, hname, hrole⟩
          rintro rfl
          exact hfresh address' hmem
        · obtain ⟨rfl, rfl⟩ := Prod.mk.inj (List.mem_singleton.mp hmem)
          have hsame : bytes = party.address := Except.ok.inj (hbytes.symm.trans hread)
          exact Or.inl ⟨rfl, by rw [hsame, ← hrole, ← hname]⟩
    next => cases hstep

/-- Every party of the profile is in the map. -/
theorem exists_party_of_entry (h : profileParties bech32 profile = .ok parties)
    {name address : String} (hentry : (name, address) ∈ profile.parties.entries) :
    ∃ party : PartyAnnotation, parties[name]? = some party ∧
      bech32 address = .ok party.address := by
  obtain ⟨before, after, hstep⟩ := exists_step_of_run h _ hentry
  split at hstep
  next bytes hbytes =>
    have hread := decodeBech32Address_eq_ok.mp hbytes
    exact ⟨⟨name, bytes, .absent⟩,
      (profileParties_spec h name _).mpr ⟨address, hentry, hread, rfl, rfl⟩, hread⟩
  next => cases hstep

/-- `name` is the first party of the profile, in the order of names, whose address passes the
    test. -/
def Profile.FirstParty (bech32 : String → Except String ByteBuf) (profile : Profile)
    (name : String) (test : ByteBuf → Bool) : Prop :=
  (∃ address bytes, (name, address) ∈ profile.parties.entries ∧ bech32 address = .ok bytes ∧
    test bytes = true) ∧
  ∀ name' address bytes, (name', address) ∈ profile.parties.entries →
    bech32 address = .ok bytes → name' < name → test bytes = false

theorem firstIn_profileParties (h : profileParties bech32 profile = .ok parties)
    (test : ByteBuf → Bool) (name : String) :
    FirstIn parties (onAddress test) name ↔ profile.FirstParty bech32 name test := by
  have hspec := profileParties_spec h
  unfold FirstIn Profile.FirstParty onAddress
  refine and_congr ?_ ?_
  · constructor
    · rintro ⟨party, hparty, htest⟩
      obtain ⟨address, hmem, hread, -⟩ := (hspec name party).mp hparty
      exact ⟨address, party.address, hmem, hread, htest⟩
    · rintro ⟨address, bytes, hmem, hread, htest⟩
      exact ⟨⟨name, bytes, .absent⟩, (hspec name _).mpr ⟨address, hmem, hread, rfl, rfl⟩, htest⟩
  · constructor
    · intro hbefore name' address bytes hmem hread hlt
      exact hbefore name' ⟨name', bytes, .absent⟩
        ((hspec name' _).mpr ⟨address, hmem, hread, rfl, rfl⟩)
        (compare_lt_iff_lt.mpr hlt)
    · intro hbefore name' party hparty hlt
      obtain ⟨address, hmem, hread, -⟩ := (hspec name' party).mp hparty
      exact hbefore name' address party.address hmem hread (compare_lt_iff_lt.mp hlt)

end Profile

/-! ## What a party shows -/

/-- The kinds of a party at this address: it is the address of an assigned input or output, or
    some required signer is found in it. -/
def observedKinds (P : Pallas) (payload : CardanoPayload) (tx : MultiEraTx) (a : MatchAssignment)
    (address : ByteBuf) : Set PartyKind :=
  {k | match k with
    | .input => ∃ p ∈ positions a.inputMap, ∃ output,
        payload.ResolvesTo P tx.inputs[p.2]? output ∧ output.address = some address
    | .output => ∃ p ∈ positions a.outputMap, ∃ output, tx.outputs[p.2]? = some output ∧
        output.address = some address
    | .signer => ∃ hash ∈ tx.requiredSigners.getD [],
        addressContainsKeyhash address hash.bytes = true}

/-- **Roles.** The role of a party is that of the kinds it shows exactly when it is credited
    with these kinds, the first of its name order at an occurrence of each, or with at least
    two kinds where it shows at least two. -/
theorem lift_roles_iff (P : Pallas) (bech32 : String → Except String ByteBuf) (tii : TiiFile)
    (txName profileName : String) (specialized : Tir.Tx) (payload : CardanoPayload)
    (tx : MultiEraTx) (profileName' txName' : String) (a : MatchAssignment) (lifted : Lifted)
    (profile : Profile) (name address : String)
    (hparse : payload.parsed P = .ok tx)
    (hmatch : matchTx P specialized payload profileName' txName' = .ok (some a))
    (hlift : lift P bech32 tii txName profileName specialized payload a = .ok lifted)
    (hprofile : tii.profiles.get? profileName = some profile)
    (hentry : (name, address) ∈ profile.parties.entries) :
    ∃ party : PartyAnnotation, lifted.parties[name]? = some party ∧
      bech32 address = .ok party.address ∧
      (party.role = roleOf (observedKinds P payload tx a party.address) ↔
        creditedKinds P payload tx a (profile.FirstParty bech32 name) =
            observedKinds P payload tx a party.address ∨
          ((creditedKinds P payload tx a (profile.FirstParty bech32 name)).Nontrivial ∧
            (observedKinds P payload tx a party.address).Nontrivial)) := by
  have hmaps := slotMaps_of_matchTx hparse hmatch
  obtain ⟨profile', parties, afterInputs, hprofile', hparties, hrun⟩ := lift_spec hparse hlift
  cases hprofile.symm.trans hprofile'
  have hspec := profileParties_spec hparties
  have htracks := hrun.tracks hmaps fun name party hparty => by
    obtain ⟨_, -, -, -, hrole⟩ := (hspec name party).mp hparty
    exact hrole
  obtain ⟨first, hfirst, hread⟩ := exists_party_of_entry hparties hentry
  have hfinal := htracks name
  rw [hfirst, Option.map_some] at hfinal
  refine ⟨_, hfinal, hread, ?_⟩
  have hcredited : (creditedKinds P payload tx a fun test => FirstIn parties (onAddress test) name)
      = creditedKinds P payload tx a (profile.FirstParty bech32 name) :=
    congrArg _ (funext fun test => propext (firstIn_profileParties hparties test name))
  rw [← hcredited]
  exact roleOf_eq_iff _ _

namespace Sample

/-- A profile with two parties at the script address. -/
def sharedProfile : Profile :=
  { parties := ⟨[("alice", scriptParty), ("vault", scriptParty)], by decide⟩
    environment := .object [] }

/-- The document of `lock` with this profile. -/
def sharedTii : TiiFile :=
  { lockTii with profiles := HashMap.singleton "preview" sharedProfile }

end Sample

set_option maxRecDepth 4000 in
theorem lift_roles_iff_lock :
    ∃ lifted, lift (Sample.pallas []) Sample.bech32 Sample.sharedTii "lock" "preview"
        Sample.lockScriptTir (Sample.payloadOf Sample.scriptTx)
        ⟨"", "", [], [[0]], [], [], [], []⟩ = .ok lifted ∧
      ∃ party : PartyAnnotation, lifted.parties["vault"]? = some party ∧
        Sample.bech32 Sample.scriptParty = .ok party.address ∧
        (party.role = roleOf (observedKinds (Sample.pallas [])
            (Sample.payloadOf Sample.scriptTx) Sample.scriptTx
            ⟨"", "", [], [[0]], [], [], [], []⟩ party.address) ↔
          creditedKinds (Sample.pallas []) (Sample.payloadOf Sample.scriptTx) Sample.scriptTx
              ⟨"", "", [], [[0]], [], [], [], []⟩
              (Sample.sharedProfile.FirstParty Sample.bech32 "vault") =
            observedKinds (Sample.pallas []) (Sample.payloadOf Sample.scriptTx) Sample.scriptTx
              ⟨"", "", [], [[0]], [], [], [], []⟩ party.address ∨
          ((creditedKinds (Sample.pallas []) (Sample.payloadOf Sample.scriptTx) Sample.scriptTx
              ⟨"", "", [], [[0]], [], [], [], []⟩
              (Sample.sharedProfile.FirstParty Sample.bech32 "vault")).Nontrivial ∧
            (observedKinds (Sample.pallas []) (Sample.payloadOf Sample.scriptTx) Sample.scriptTx
              ⟨"", "", [], [[0]], [], [], [], []⟩ party.address).Nontrivial)) :=
  ⟨_, rfl, lift_roles_iff _ Sample.bech32 Sample.sharedTii "lock" "preview" _ _ _ "" "" _ _
    Sample.sharedProfile "vault" Sample.scriptParty rfl rfl rfl rfl
    (List.mem_cons_of_mem _ List.mem_cons_self)⟩

set_option maxRecDepth 4000 in
/-- Both parties are at the address of the output; the second stays `Absent`. -/
theorem lift_hides_second_party :
    ∃ a lifted party, (Sample.payloadOf Sample.scriptTx).parsed (Sample.pallas []) =
        .ok Sample.scriptTx ∧
      matchTx (Sample.pallas []) Sample.lockScriptTir (Sample.payloadOf Sample.scriptTx)
        "preview" "lock" = .ok (some a) ∧
      lift (Sample.pallas []) Sample.bech32 Sample.sharedTii "lock" "preview"
        Sample.lockScriptTir (Sample.payloadOf Sample.scriptTx) a = .ok lifted ∧
      lifted.parties["vault"]? = some party ∧
      party.role ≠ roleOf (observedKinds (Sample.pallas []) (Sample.payloadOf Sample.scriptTx)
        Sample.scriptTx a party.address) := by
  refine ⟨⟨"lock", "preview", [], [[0]], [], [], [], []⟩, _, ⟨"vault", Sample.scriptAddress,
    .absent⟩, rfl, rfl, rfl, rfl, ?_⟩
  intro hrole
  have hempty : (observedKinds (Sample.pallas []) (Sample.payloadOf Sample.scriptTx)
      Sample.scriptTx ⟨"lock", "preview", [], [[0]], [], [], [], []⟩ Sample.scriptAddress) = ∅ :=
    roleOf_eq_absent_iff.mp hrole.symm
  have houtput : PartyKind.output ∈ observedKinds (Sample.pallas [])
      (Sample.payloadOf Sample.scriptTx) Sample.scriptTx
      ⟨"lock", "preview", [], [[0]], [], [], [], []⟩ Sample.scriptAddress :=
    ⟨(0, 0), List.mem_cons_self, _, rfl, rfl⟩
  rw [hempty] at houtput
  exact houtput

end Tx3Lift
