import Tx3Lift.Cardano.Summarize
import Tx3Lift.Core.Anchors

/-!
# The anchor gate on transactions

`ProtocolAnchors::hits` after `summarize`, stated on the transaction instead of on the
summary in between.

* `gating_iff_engages`, `present_iff_touches`: the two tiers of the summary are the two
  tiers of the transaction.
* `hits_summarize_exact`: the gate is exact.
* `gates_only_by_script_iff`: when a gate rests on more than the wallets of a profile.
-/

namespace Tx3Lift

open Lib

/-! ## Presences in a transaction -/

/-- `a` is the address of the resolved output of a spent input, as the repository looks it up:
    under the output index cut to 32 bits. -/
def SpentFrom (P : Pallas) (payload : CardanoPayload) (tx : MultiEraTx) (a : ByteBuf) : Prop :=
  ∃ i ∈ tx.inputs, ∃ o, payload.resolvedOutput P i = some o ∧ o.address = some a

/-- `a` receives an output with a datum. -/
def DatumOutputAt (tx : MultiEraTx) (a : ByteBuf) : Prop :=
  ∃ o ∈ tx.outputs, o.address = some a ∧ o.datum.isSome = true

/-- `r` is spent or referenced. -/
def UsesRef (tx : MultiEraTx) (r : UtxoRef) : Prop :=
  ∃ i ∈ tx.inputs ++ tx.referenceInputs, i.IsRef r

/-- `p` has a nonzero amount in the mint field. -/
def MintsOrBurns (tx : MultiEraTx) (p : ByteBuf) : Prop :=
  ∃ m ∈ tx.mints, m.policy.bytes = p ∧ ∃ asset ∈ m.assets, asset.anyCoin ≠ 0

/-- `p` is in the value of a spent resolved input or of an output. -/
def Holds (P : Pallas) (payload : CardanoPayload) (tx : MultiEraTx) (p : ByteBuf) : Prop :=
  (∃ i ∈ tx.inputs, ∃ o, payload.Resolves P i o ∧ p ∈ o.policies) ∨
    ∃ o ∈ tx.outputs, p ∈ o.policies

/-- The transaction forces a script of the protocol to run, or uses a reference of it. -/
def Engages (P : Pallas) (payload : CardanoPayload) (tx : MultiEraTx) : Anchor → Prop
  | .address a => (∃ i ∈ tx.inputs, ∃ o, payload.Resolves P i o ∧ o.address = some a) ∨
      DatumOutputAt tx a
  | .utxoRef r => UsesRef tx r
  | .policy p => MintsOrBurns tx p

/-- The transaction engages the anchor or merely shows it. -/
def Touches (P : Pallas) (payload : CardanoPayload) (tx : MultiEraTx) : Anchor → Prop
  | .address a => Engages P payload tx (.address a) ∨ ∃ o ∈ tx.outputs, o.address = some a
  | .utxoRef r => Engages P payload tx (.utxoRef r)
  | .policy p => Engages P payload tx (.policy p) ∨ Holds P payload tx p

/-! ## The tiers of the summary -/

section Tiers

variable (P : Pallas) (payload : CardanoPayload) (tx : MultiEraTx)

/-- The gating tier, with the keys of the summary: an output index is read `as u32`. -/
theorem gating_summarizeTx (x : Anchor) :
    (summarizeTx P payload tx).Gating x ↔
      match x with
      | .address a => SpentFrom P payload tx a ∨ DatumOutputAt tx a
      | .utxoRef r => ∃ i ∈ tx.inputs ++ tx.referenceInputs, i.key = r
      | .policy p => MintsOrBurns tx p := by
  cases x with
  | address a =>
    simp only [PayloadSummary.Gating, mem_inputAddresses, mem_outputAddressesWithDatum]
    rfl
  | utxoRef r =>
    simp only [PayloadSummary.Gating, mem_inputRefs, mem_referenceRefs, List.mem_append,
      or_and_right, exists_or]
  | policy p =>
    simp only [PayloadSummary.Gating, mem_mintPolicies, mem_burnPolicies]
    constructor
    · rintro (⟨m, hm, hp, a, ha, hpos⟩ | ⟨m, hm, hp, a, ha, hneg⟩)
      · exact ⟨m, hm, hp, a, ha, hpos.ne'⟩
      · exact ⟨m, hm, hp, a, ha, hneg.ne⟩
    · rintro ⟨m, hm, hp, a, ha, hne⟩
      rcases lt_or_gt_of_ne hne with hneg | hpos
      · exact Or.inr ⟨m, hm, hp, a, ha, hneg⟩
      · exact Or.inl ⟨m, hm, hp, a, ha, hpos⟩

variable {P payload tx}

theorem resolvedOutput_of_mem (hfit : tx.IndicesFit) {i : TransactionInput} (hi : i ∈ tx.inputs)
    (o : MultiEraOutput) : payload.resolvedOutput P i = some o ↔ payload.Resolves P i o :=
  resolvedOutput_eq_some (hfit i (List.mem_append_left _ hi)) o

theorem exists_resolves_iff (hfit : tx.IndicesFit) (Q : MultiEraOutput → Prop) :
    (∃ i ∈ tx.inputs, ∃ o, payload.resolvedOutput P i = some o ∧ Q o) ↔
      ∃ i ∈ tx.inputs, ∃ o, payload.Resolves P i o ∧ Q o :=
  exists_congr fun _ => and_congr_right fun hi => exists_congr fun o =>
    and_congr_left fun _ => resolvedOutput_of_mem hfit hi o

/-- What is engaged gates, whatever the indices are. -/
theorem gating_of_engages {x : Anchor} (h : Engages P payload tx x) :
    (summarizeTx P payload tx).Gating x := by
  rw [gating_summarizeTx]
  cases x with
  | address a =>
    refine h.imp_left ?_
    rintro ⟨i, hi, o, hresolves, ho⟩
    exact ⟨i, hi, o, resolvedOutput_of_resolves hresolves, ho⟩
  | utxoRef r =>
    obtain ⟨i, hi, href⟩ := h
    exact ⟨i, hi, key_of_isRef href⟩
  | policy p => exact h

theorem gating_iff_engages (hfit : tx.IndicesFit) (x : Anchor) :
    (summarizeTx P payload tx).Gating x ↔ Engages P payload tx x := by
  rw [gating_summarizeTx]
  cases x with
  | address a => exact or_congr_left (exists_resolves_iff hfit fun o => o.address = some a)
  | utxoRef r =>
    exact exists_congr fun i => and_congr_right fun hi => key_eq_iff (hfit i hi) r
  | policy p => rfl

theorem present_iff_touches (hfit : tx.IndicesFit) (x : Anchor) :
    (summarizeTx P payload tx).Present x ↔ Touches P payload tx x := by
  have hgating : ∀ x, (summarizeTx P payload tx).Gating x ↔ Engages P payload tx x :=
    gating_iff_engages hfit
  cases x with
  | address a =>
    simp only [PayloadSummary.Present, Touches, hgating, mem_outputAddresses]
  | utxoRef r => exact hgating (.utxoRef r)
  | policy p =>
    simp only [PayloadSummary.Present, Touches, hgating, mem_valuePolicies, Holds,
      exists_resolves_iff hfit fun o => p ∈ o.policies]

end Tiers

/-! ## The gate is exact -/

/-- The resolved outputs that can matter: those of the spent inputs. -/
def SameSpent (tx : MultiEraTx) (inputs inputs' : BTreeMap UtxoRef ResolvedOutput) : Prop :=
  ∀ i ∈ tx.inputs, ∀ r, i.IsRef r → inputs'[r]? = inputs[r]?

theorem resolves_congr {P : Pallas} {payload : CardanoPayload} {tx : MultiEraTx}
    {inputs' : BTreeMap UtxoRef ResolvedOutput}
    (hsame : SameSpent tx payload.resolvedInputs inputs') {i : TransactionInput}
    (hi : i ∈ tx.inputs) (o : MultiEraOutput) :
    (payload.withResolvedInputs inputs').Resolves P i o ↔ payload.Resolves P i o := by
  refine exists_congr fun r => exists_congr fun resolved => and_congr_right fun hr => ?_
  rw [CardanoPayload.withResolvedInputs, hsame i hi r hr]

theorem touches_congr {P : Pallas} {payload : CardanoPayload} {tx : MultiEraTx}
    {inputs' : BTreeMap UtxoRef ResolvedOutput}
    (hsame : SameSpent tx payload.resolvedInputs inputs') (x : Anchor) :
    (Engages P (payload.withResolvedInputs inputs') tx x ↔ Engages P payload tx x) ∧
      (Touches P (payload.withResolvedInputs inputs') tx x ↔ Touches P payload tx x) := by
  have hex : ∀ Q : MultiEraOutput → Prop,
      (∃ i ∈ tx.inputs, ∃ o, (payload.withResolvedInputs inputs').Resolves P i o ∧ Q o) ↔
        ∃ i ∈ tx.inputs, ∃ o, payload.Resolves P i o ∧ Q o := fun Q =>
    exists_congr fun i => and_congr_right fun hi => exists_congr fun o =>
      and_congr_left fun _ => resolves_congr hsame hi o
  cases x <;> simp only [Touches, Engages, Holds, hex, and_self]

/-- What the summary of a transaction tells the gate of a source. -/
structure GateExact (P : Pallas) (anchors : ProtocolAnchors) (payload : CardanoPayload)
    (tx : MultiEraTx) (summary : PayloadSummary) : Prop where
  gating : (anchors.hits summary).gating = {x | anchors.Has x ∧ Engages P payload tx x}.ncard
  total : (anchors.hits summary).total = {x | anchors.Has x ∧ Touches P payload tx x}.ncard
  gates : (anchors.hits summary).gates = true ↔ ∃ x, anchors.Has x ∧ Engages P payload tx x
  /-- Resolved outputs of other inputs than the spent ones change nothing. -/
  onlySpent : ∀ inputs', SameSpent tx payload.resolvedInputs inputs' →
    ∃ summary', summarize P (payload.withResolvedInputs inputs') = .ok summary' ∧
      anchors.hits summary' = anchors.hits summary

/-- **The gate is exact on transactions.** -/
theorem hits_summarize_exact (P : Pallas) (anchors : ProtocolAnchors) (payload : CardanoPayload)
    (tx : MultiEraTx) (hparse : payload.parsed P = .ok tx) (hfit : tx.IndicesFit) :
    ∃ summary, summarize P payload = .ok summary ∧ GateExact P anchors payload tx summary := by
  have hhits : ∀ pl : CardanoPayload, anchors.hits (summarizeTx P pl tx) =
      { total := {x | anchors.Has x ∧ Touches P pl tx x}.ncard,
        gating := {x | anchors.Has x ∧ Engages P pl tx x}.ncard } := by
    intro pl
    simp only [hits_eq, gating_iff_engages hfit, present_iff_touches hfit]
  refine ⟨summarizeTx P payload tx, summarize_eq hparse, ⟨?_, ?_, ?_, ?_⟩⟩
  · rw [hhits]
  · rw [hhits]
  · rw [gates_iff]
    exact exists_congr fun x => and_congr_right fun _ => gating_iff_engages hfit x
  · intro inputs' hsame
    refine ⟨summarizeTx P (payload.withResolvedInputs inputs') tx, summarize_eq hparse, ?_⟩
    simp only [hhits, (touches_congr hsame _).1, (touches_congr hsame _).2]

theorem hits_summarize_exact_sample :
    ∃ summary, summarize (Sample.pallas []) { raw := Sample.scriptTx.cbor } = .ok summary ∧
      GateExact (Sample.pallas []) { addresses := {Sample.scriptAddress} }
        { raw := Sample.scriptTx.cbor } Sample.scriptTx summary :=
  hits_summarize_exact (Sample.pallas []) { addresses := {Sample.scriptAddress} }
    { raw := Sample.scriptTx.cbor } Sample.scriptTx rfl (by decide)

/-! ## Wallets of a profile -/

/-- The header marks a script payment credential: bit `0x10` of the first byte. -/
def hasScriptCredential : ByteBuf → Bool
  | [] => false
  | header :: _ => header &&& 0x10 != 0

/-- The anchor address is spent from, by the lookup of the repository, or receives an output with
    a datum. -/
def EngagesAddress (P : Pallas) (payload : CardanoPayload) (tx : MultiEraTx) (a : ByteBuf) : Prop :=
  SpentFrom P payload tx a ∨ DatumOutputAt tx a

/-- What the gate should rest on: a reference, a policy or a script address. -/
def EngagesByScript (P : Pallas) (anchors : ProtocolAnchors) (payload : CardanoPayload)
    (tx : MultiEraTx) : Prop :=
  (∃ r ∈ anchors.utxoRefs, Engages P payload tx (.utxoRef r)) ∨
  (∃ p ∈ anchors.policies, Engages P payload tx (.policy p)) ∨
    ∃ a ∈ anchors.addresses, hasScriptCredential a = true ∧ Engages P payload tx (.address a)

/-- A party of the profile with a key address is spent from or receives an output with a
    datum. -/
def EngagesWallet (P : Pallas) (bech32 : String → Except String ByteBuf) (profile : Profile)
    (payload : CardanoPayload) (tx : MultiEraTx) : Prop :=
  ∃ party ∈ profile.parties.values, ∃ a, bech32 party = .ok a ∧ hasScriptCredential a = false ∧
    Engages P payload tx (.address a)

/-- An anchor agrees with an input, or with what is resolved for it, only because the input's
    index, `2^32` or more, is cut to 32 bits. -/
def HitsByTruncation (P : Pallas) (anchors : ProtocolAnchors) (payload : CardanoPayload)
    (tx : MultiEraTx) : Prop :=
  (∃ r ∈ anchors.utxoRefs, (∃ i ∈ tx.inputs ++ tx.referenceInputs, i.key = r) ∧
    ¬Engages P payload tx (.utxoRef r)) ∨
  ∃ a ∈ anchors.addresses, SpentFrom P payload tx a ∧ ¬Engages P payload tx (.address a)

/-- **The gate by scripts.** A gate that holds rests on a reference, a policy or a script
    address, exactly when a wallet of the profile (or an anchor hit by truncation) is not
    the only thing engaged. -/
theorem gates_only_by_script_iff (P : Pallas) (bech32 : String → Except String ByteBuf)
    (profile : Profile) (anchors : ProtocolAnchors) (payload : CardanoPayload) (tx : MultiEraTx)
    (hprofile : ProtocolAnchors.fromProfile bech32 profile = .ok anchors)
    (hparse : payload.parsed P = .ok tx) :
    (∀ summary, summarize P payload = .ok summary → (anchors.hits summary).gates = true →
      EngagesByScript P anchors payload tx) ↔
    (EngagesWallet P bech32 profile payload tx ∨ HitsByTruncation P anchors payload tx →
      EngagesByScript P anchors payload tx) := by
  have hsummary := summarize_eq hparse
  constructor
  · intro hprop hother
    refine hprop _ hsummary ((gates_iff _ _).mpr ?_)
    rcases hother with ⟨party, hparty, a, hbech, -, hengaged⟩ | ⟨r, hr, hkey, -⟩ |
      ⟨a, ha, hspent, -⟩
    · exact ⟨.address a, (mem_addresses_fromProfile hprofile a).mpr ⟨party, hparty, hbech⟩,
        gating_of_engages hengaged⟩
    · exact ⟨.utxoRef r, hr, (gating_summarizeTx P payload tx _).mpr hkey⟩
    · exact ⟨.address a, ha, (gating_summarizeTx P payload tx _).mpr (Or.inl hspent)⟩
  · intro hcond summary hs hgates
    cases hsummary.symm.trans hs
    obtain ⟨x, hx, hg⟩ := (gates_iff _ _).mp hgates
    rw [gating_summarizeTx] at hg
    by_cases hengaged : Engages P payload tx x
    · cases x with
      | address a =>
        by_cases hscript : hasScriptCredential a = true
        · exact Or.inr (Or.inr ⟨a, hx, hscript, hengaged⟩)
        · obtain ⟨party, hparty, hbech⟩ := (mem_addresses_fromProfile hprofile a).mp hx
          exact hcond (Or.inl ⟨party, hparty, a, hbech, by simpa using hscript, hengaged⟩)
      | utxoRef r => exact Or.inl ⟨r, hx, hengaged⟩
      | policy p => exact Or.inr (Or.inl ⟨p, hx, hengaged⟩)
    · refine hcond (Or.inr ?_)
      cases x with
      | address a =>
        have hspent : SpentFrom P payload tx a :=
          hg.resolve_right fun hdatum => hengaged (Or.inr hdatum)
        exact Or.inr ⟨a, hx, hspent, hengaged⟩
      | utxoRef r => exact Or.inl ⟨r, hx, hg, hengaged⟩
      | policy p => exact absurd hg hengaged

/-- A profile with one party, a wallet. -/
def walletProfile : Profile :=
  { parties := ⟨[("user", Sample.keyParty)], by decide⟩, environment := .object [] }

def walletAnchors : ProtocolAnchors := { addresses := {Sample.keyAddress} }

theorem gates_only_by_script_sample :
    (∀ summary, summarize (Sample.pallas []) { raw := Sample.scriptTx.cbor } = .ok summary →
      (walletAnchors.hits summary).gates = true →
      EngagesByScript (Sample.pallas []) walletAnchors { raw := Sample.scriptTx.cbor }
        Sample.scriptTx) ↔
    (EngagesWallet (Sample.pallas []) Sample.bech32 walletProfile { raw := Sample.scriptTx.cbor }
        Sample.scriptTx ∨ HitsByTruncation (Sample.pallas []) walletAnchors
          { raw := Sample.scriptTx.cbor } Sample.scriptTx →
      EngagesByScript (Sample.pallas []) walletAnchors { raw := Sample.scriptTx.cbor }
        Sample.scriptTx) :=
  gates_only_by_script_iff (Sample.pallas []) Sample.bech32 walletProfile walletAnchors
    { raw := Sample.scriptTx.cbor } Sample.scriptTx rfl rfl

/-- A payment with a datum to the wallet opens the gate. -/
theorem wallet_opens_gate :
    ProtocolAnchors.fromProfile Sample.bech32 walletProfile = .ok walletAnchors ∧
    (∃ summary, summarize (Sample.pallas []) { raw := Sample.keyTx.cbor } = .ok summary ∧
      (walletAnchors.hits summary).gates = true) ∧
    ¬EngagesByScript (Sample.pallas []) walletAnchors { raw := Sample.keyTx.cbor }
      Sample.keyTx := by
  refine ⟨rfl, ⟨_, rfl, (gates_iff _ _).mpr ⟨.address Sample.keyAddress, ?_, ?_⟩⟩, ?_⟩
  · show Sample.keyAddress ∈ ({Sample.keyAddress} : BTreeSet ByteBuf)
    simp
  · exact (gating_summarizeTx _ _ _ _).mpr
      (Or.inr ⟨Sample.output Sample.keyAddress, by simp [Sample.keyTx, Sample.tx], rfl, rfl⟩)
  · rintro (⟨r, hr, -⟩ | ⟨p, hp, -⟩ | ⟨a, ha, hscript, -⟩)
    · simp [walletAnchors] at hr
    · simp [walletAnchors] at hp
    · have : Sample.keyAddress = a := by simpa [walletAnchors] using ha
      subst this
      exact absurd hscript (by decide)

end Tx3Lift
