import Tx3Lift.Cardano.Matching
import Tx3Lift.Cardano.Summarize
import Tx3Lift.Core.Strengthen
import Tx3Lift.Lib.FirstFit
import Tx3Lift.Lib.Requests

/-!
# What the greedy matcher finds

`match_tx` serves the template items in order and never takes a slot back. This module says
which payloads it accepts: those on which dealing out their outputs and inputs serves the
template.

* `matchOutput_keeps`, `assignInputOn_keeps`: what one loop body does to a matching of the
  items that are still to come.
* `matchOutputs_isSome_iff`, `assignInputOn_served_iff`: the loops deal out what is left.
* `matchTx_outputs_firstFit`: which payload outputs are found, and that all are unless an earlier
  template output can take what only a later mandatory one could use.
* `matchInputs_firstFit`: likewise for pinned references and single queries.
-/

namespace Tx3Lift

open Lib Tir

/-! ## A sample with two inputs and two outputs -/

namespace Sample

def pairTxHash : Hash 32 :=
  ⟨[0x80, 0xc2, 0xaf, 0x2d, 0xba, 0x59, 0xad, 0x0d, 0x03, 0x0b, 0xc4, 0x12, 0xbb, 0xf8, 0x47, 0xd1,
    0x95, 0xd7, 0x0b, 0xf4, 0x2f, 0x2d, 0xfe, 0x71, 0x8c, 0x70, 0xce, 0x48, 0x58, 0x7d, 0x1b, 0xd1],
    rfl⟩

def pairBody : ByteBuf :=
  [0xa3, 0x00, 0x82, 0x82, 0x58, 0x20] ++ spentTx.bytes ++ [0x00, 0x82, 0x58, 0x20] ++
    spentTx.bytes ++ [0x01, 0x01, 0x82] ++ outputCbor scriptAddress ++ outputCbor keyAddress ++
    [0x02, 0x1a, 0x00, 0x03, 0x0d, 0x40]

/-- Spends outputs 0 and 1 of one transaction; pays to the script and to the key address. -/
def pairTx : MultiEraTx :=
  { scriptTx with
    hash := pairTxHash
    cbor := 0x84 :: pairBody ++ [0xa0, 0xf5, 0xf6]
    inputs := [{ hash := spentTx, index := 0 }, { hash := spentTx, index := 1 }]
    outputs := [output scriptAddress, output keyAddress] }

def pairPallas : Pallas :=
  { pallas [] with
    decodeTx := fun bytes =>
      if bytes = pairTx.cbor then .ok pairTx else .error "end of input bytes" }

/-- Both inputs resolved: the first was at the script address, the second at the key
    address. -/
def pairPayload : CardanoPayload :=
  { raw := pairTx.cbor
    resolvedInputs :=
      (Std.ExtTreeMap.empty.insert (spentTx.bytes, 0)
        { era := .conway, cbor := outputCbor scriptAddress }).insert (spentTx.bytes, 1)
        { era := .conway, cbor := outputCbor keyAddress } }

theorem parsed_pairPayload : pairPayload.parsed pairPallas = .ok pairTx := by
  simp [CardanoPayload.parsed, pairPallas, pairPayload, pallasResult]

/-- A template with these inputs and outputs, and nothing else. -/
def templateOf (inputs : List Tir.Input) (outputs : List Tir.Output) : Tir.Tx :=
  { references := []
    inputs := inputs
    outputs := outputs
    validity := none
    mints := []
    burns := []
    collateral := []
    signers := none
    metadata := [] }

/-- A mandatory output at an address. -/
def outputAt (address : Expression) : Tir.Output :=
  { address := address, amount := .none, optional := false }

/-- A runtime parameter. -/
def runtime (name : String) : Expression := .evalParam (.expectValue name)

/-- A query for one input at an address. -/
def singleAt (name : String) (address : Expression) : Tir.Input :=
  { name := name
    utxos := .evalParam (.expectInput name
      { address := address, minAmount := .none, ref := .none, many := false,
        collateral := false }) }

/-- An input that is pinned to output `index` of the earlier transaction. -/
def pinnedAt (name : String) (index : UInt32) : Tir.Input :=
  { name := name, utxos := .utxoRefs [⟨spentTx.bytes, index⟩] }

/-- A document; of it a fingerprint takes the version and the name of the protocol. -/
def pairTii : TiiFile :=
  { version := "v1beta0"
    protocolName := "sample"
    transactions := HashMap.singleton "lock" (transactionOf lockCbor)
    profiles := HashMap.singleton "preview" vaultProfile }

end Sample

/-! ## Outputs -/

/-- The tests that need a payload output of their own. -/
def outputTests (tirOutput : Tir.Output) : List (MultiEraOutput → Bool) :=
  if tirOutput.optional then [] else [outputOk tirOutput]

/-- The output `earlier` does not hurt the test of a later mandatory output. -/
def OutputSpares (outputs : List MultiEraOutput) (earlier : Tir.Output)
    (later : MultiEraOutput → Bool) : Prop :=
  Apart outputs (outputOk earlier) later ∨
    (earlier.optional = false ∧
      ∀ output ∈ outputs, outputOk earlier output = true → later output = true)

/-- There is an injective choice of a payload output for every mandatory template output. -/
def OutputChoice (tx : MultiEraTx) (outputs : List Tir.Output) : Prop :=
  Matching tx.outputs (List.replicate tx.outputs.length false) (outputs.flatMap outputTests)

/-- Dealing out the payload outputs serves every mandatory output: each output takes the first
    one left at its constant address (any, if it has none), optional ones too. -/
def MandatoryServed (tx : MultiEraTx) (outputs : List Tir.Output) : Prop :=
  ∃ taken left, deal outputOk Tir.Output.optional outputs tx.outputs = some (taken, left)

/-- `outputs'` comes from `outputs` by filling in addresses. -/
def Instantiates (outputs' outputs : List Tir.Output) : Prop :=
  List.Forall₂ (fun o' o => o'.optional = o.optional ∧
    ∀ addr, constAddress o.address = some addr → constAddress o'.address = some addr)
    outputs' outputs

/-- The input, mint, burn and reference steps of `match_tx` succeed. -/
structure OtherSteps (P : Pallas) (payload : CardanoPayload) (tx : MultiEraTx) (t : Tir.Tx) :
    Prop where
  inputs : ∃ map, matchInputs P payload t.inputs (List.replicate tx.inputs.length false) =
    .ok (some map)
  mints : ∃ map, assignAll (matchMint tx.mints) t.mints
    (List.replicate tx.mints.length false) = some map
  burns : ∃ map, assignAll (matchBurn tx.mints) t.burns
    (List.replicate tx.mints.length false) = some map
  references : ∃ map, assignAll (matchReference tx.referenceInputs) t.references
    (List.replicate tx.referenceInputs.length false) = some map

section Outputs

variable {P : Pallas} {payload : CardanoPayload} {tx : MultiEraTx} {t : Tir.Tx}
  {profileName txName : String}

/-- One step of the output loop: a mandatory output is served, and what it spares can still
    be served. -/
theorem matchOutput_keeps {outputs : List MultiEraOutput} (tirOutput : Tir.Output)
    {consumed : List Bool} {rest : List (MultiEraOutput → Bool)}
    (hlen : consumed.length = outputs.length)
    (h : Matching outputs consumed (outputTests tirOutput ++ rest))
    (hspares : ∀ q ∈ rest, OutputSpares outputs tirOutput q) :
    ∃ m consumed', matchOutput outputs tirOutput consumed = some (m, consumed') ∧
      Claims consumed m consumed' ∧ (tirOutput.optional = false → m.length = 1) ∧
      Matching outputs consumed' rest := by
  rw [matchOutput_eq]
  unfold outputTests at h
  cases hopt : tirOutput.optional with
  | false =>
    rw [hopt] at h
    obtain ⟨s, consumed', hclaim, -, hclaims, hrest⟩ := Matching.claim_once hlen h fun q hq =>
      (hspares q hq).imp id And.right
    exact ⟨[s], consumed', by simp [hclaim], hclaims, fun _ => rfl, hrest⟩
  | true =>
    rw [hopt] at h
    obtain ⟨hclaims, -, -⟩ := claim_spec (outputOk tirOutput) true hlen
    have hapart : ∀ q ∈ rest, Apart outputs (outputOk tirOutput) q := fun q hq =>
      (hspares q hq).resolve_right fun hmand => by simp [hopt] at hmand
    exact ⟨_, _, by simp, hclaims, by simp, Matching.claim_apart true hlen h hapart⟩

theorem matchTx_of_steps (hparse : payload.parsed P = .ok tx) (hsteps : OtherSteps P payload tx t)
    {outputMap : List (List ℕ)}
    (hout : assignAll (matchOutput tx.outputs) t.outputs
      (List.replicate tx.outputs.length false) = some outputMap) :
    ∃ a, matchTx P t payload profileName txName = .ok (some a) := by
  obtain ⟨inputMap, hin⟩ := hsteps.inputs
  obtain ⟨mintMap, hmint⟩ := hsteps.mints
  obtain ⟨burnMap, hburn⟩ := hsteps.burns
  obtain ⟨referenceMap, href⟩ := hsteps.references
  simp [matchTx, hparse, hin, hout, hmint, hburn, href, bind, Except.bind, pure, Except.pure]

/-- The output loop goes through exactly when every mandatory output is served. -/
theorem matchOutputs_isSome_iff {outputs : List Tir.Output} :
    (∃ map, assignAll (matchOutput tx.outputs) outputs
      (List.replicate tx.outputs.length false) = some map) ↔ MandatoryServed tx outputs := by
  have hdeal := assignAll_eq_deal (matchOutput_eq tx.outputs) outputs
  constructor
  · rintro ⟨map, hmap⟩
    rw [hmap] at hdeal
    obtain ⟨r, hr, -⟩ := Option.map_eq_some_iff.mp hdeal.symm
    exact ⟨r.1, r.2, hr⟩
  · rintro ⟨taken, left, h⟩
    rw [h] at hdeal
    obtain ⟨map, hmap, -⟩ := Option.map_eq_some_iff.mp hdeal
    exact ⟨map, hmap⟩

theorem matchTx_isSome_iff (hparse : payload.parsed P = .ok tx)
    (hsteps : OtherSteps P payload tx t) :
    (∃ a, matchTx P t payload profileName txName = .ok (some a)) ↔
      MandatoryServed tx t.outputs := by
  rw [← matchOutputs_isSome_iff]
  constructor
  · rintro ⟨a, ha⟩
    exact ⟨_, (matchTx_eq hparse ha).2.1⟩
  · rintro ⟨map, hmap⟩
    exact matchTx_of_steps hparse hsteps hmap

/-- The outputs of an assignment are those that the deal gives out. -/
theorem deal_of_matchTx (hparse : payload.parsed P = .ok tx) {a : MatchAssignment}
    (h : matchTx P t payload profileName txName = .ok (some a)) :
    ∃ left, deal outputOk Tir.Output.optional t.outputs tx.outputs =
      some (slotElements tx.outputs a.outputMap, left) := by
  obtain ⟨-, hout, -⟩ := matchTx_eq hparse h
  have hdeal := assignAll_eq_deal (matchOutput_eq tx.outputs) t.outputs
  rw [hout] at hdeal
  obtain ⟨r, hr, htaken⟩ := Option.map_eq_some_iff.mp hdeal.symm
  exact ⟨r.2, by rw [hr, ← htaken]⟩

/-- An assignment of the mandatory outputs is an injective choice. -/
theorem outputChoice_of_map {outputs : List Tir.Output} {map : List (List ℕ)}
    (h : List.Forall₂ (fun o m => o.optional = false → ∃ s output, m = [s] ∧
      tx.outputs[s]? = some output ∧ outputOk o output = true) outputs map) :
    ∃ slots, slots.Sublist map.flatten ∧ List.Forall₂
      (fun (q : MultiEraOutput → Bool) s => ∃ output, tx.outputs[s]? = some output ∧
        q output = true) (outputs.flatMap outputTests) slots := by
  induction h with
  | nil => exact ⟨[], List.Sublist.refl _, List.Forall₂.nil⟩
  | @cons o m outputs map ho _ ih =>
    obtain ⟨slots, hsub, hslots⟩ := ih
    rw [List.flatMap_cons, List.flatten_cons, outputTests]
    cases hopt : o.optional with
    | true => exact ⟨slots, hsub.trans (List.sublist_append_right _ _), hslots⟩
    | false =>
      obtain ⟨s, output, rfl, hs, hok⟩ := ho hopt
      exact ⟨s :: slots, hsub.cons_cons s, List.Forall₂.cons ⟨output, hs, hok⟩ hslots⟩

theorem outputChoice_of_matchTx (hparse : payload.parsed P = .ok tx) {a : MatchAssignment}
    (h : matchTx P t payload profileName txName = .ok (some a)) : OutputChoice tx t.outputs := by
  obtain ⟨-, hout, -⟩ := matchTx_eq hparse h
  have hserved : ∀ o u m u', u.length = tx.outputs.length →
      matchOutput tx.outputs o u = some (m, u') → Claims u m u' ∧
        (o.optional = false → ∃ s output, m = [s] ∧ tx.outputs[s]? = some output ∧
          outputOk o output = true) := by
    intro o u m u' hlen hm
    obtain ⟨hclaims, -⟩ := matchOutput_spec hlen hm
    refine ⟨hclaims, fun hopt => ?_⟩
    rw [matchOutput_eq, hopt] at hm
    split_ifs at hm with hempty
    have hne : (claim (outputOk o) true 0 tx.outputs u).1 ≠ [] := by simpa using hempty
    obtain ⟨s, output, hs, hx, hok⟩ := claim_once hlen hne
    rw [Option.some.inj hm] at hs
    exact ⟨s, output, hs, hx, hok⟩
  obtain ⟨hall, hnodup, hrange⟩ := assignAll_spec hserved hout
  obtain ⟨slots, hsub, hslots⟩ := outputChoice_of_map hall
  refine ⟨slots, hnodup.sublist hsub, forall₂_imp_mem hslots fun q s _ hs hq => ⟨?_, hq⟩⟩
  simp [hrange s (hsub.subset hs)]

theorem outputChoice_of_instantiates {outputs outputs' : List Tir.Output}
    (h : Instantiates outputs' outputs) (hchoice : OutputChoice tx outputs') :
    OutputChoice tx outputs := by
  obtain ⟨slots, hnodup, hslots⟩ := hchoice
  refine ⟨slots, hnodup, ?_⟩
  clear hnodup
  induction h generalizing slots with
  | nil => exact hslots
  | @cons o' o outputs' outputs ho _ ih =>
    rw [List.flatMap_cons, outputTests] at hslots ⊢
    rw [ho.1] at hslots
    cases hopt : o.optional with
    | true =>
      rw [hopt] at hslots
      exact ih slots hslots
    | false =>
      rw [hopt] at hslots
      obtain ⟨s, rest, ⟨hfree, output, hs, hok⟩, hrest, rfl⟩ :=
        List.forall₂_cons_left_iff.mp hslots
      refine List.Forall₂.cons ⟨hfree, output, hs, ?_⟩ (ih rest hrest)
      unfold outputOk at hok ⊢
      cases haddr : constAddress o.address with
      | none => rfl
      | some addr => rwa [ho.2 addr haddr] at hok

end Outputs

/-- The output step is complete for this template and payload: it succeeds whenever there is
    a choice of outputs, and with it `match_tx`. -/
def OutputsComplete (P : Pallas) (specialized : Tir.Tx) (payload : CardanoPayload)
    (tx : MultiEraTx) (profileName txName : String) : Prop :=
  OtherSteps P payload tx specialized → OutputChoice tx specialized.outputs →
    ∃ a, matchTx P specialized payload profileName txName = .ok (some a)

theorem outputsComplete_of_spares {P : Pallas} {specialized : Tir.Tx} {payload : CardanoPayload}
    {tx : MultiEraTx} {profileName txName : String} (hparse : payload.parsed P = .ok tx)
    (hspares : specialized.outputs.Pairwise fun earlier later => later.optional = false →
      OutputSpares tx.outputs earlier (outputOk later)) :
    OutputsComplete P specialized payload tx profileName txName := by
  intro hsteps hchoice
  have hpair : specialized.outputs.Pairwise fun earlier later =>
      ∀ q ∈ outputTests later, OutputSpares tx.outputs earlier q :=
    hspares.imp fun {earlier later} h q hq => by
      unfold outputTests at hq
      cases hopt : later.optional with
      | true => simp [hopt] at hq
      | false =>
        rw [hopt] at hq
        rw [List.mem_singleton.mp hq]
        exact h hopt
  obtain ⟨outputMap, -, hout, -⟩ := assignAll_complete
    (fun o u rest hlen => matchOutput_keeps o hlen) specialized.outputs _ (by simp) hpair hchoice
  exact matchTx_of_steps hparse hsteps hout

/-- The template matches whenever a template that instantiates its output addresses does. -/
def InstancesComplete (P : Pallas) (specialized : Tir.Tx) (payload : CardanoPayload)
    (tx : MultiEraTx) (profileName txName : String) : Prop :=
  OtherSteps P payload tx specialized → ∀ instantiated : Tir.Tx,
    Instantiates instantiated.outputs specialized.outputs →
    (∃ a, matchTx P instantiated payload profileName txName = .ok (some a)) →
    ∃ a, matchTx P specialized payload profileName txName = .ok (some a)

/-- **Which outputs are found.** When the other steps succeed, `match_tx` returns an assignment
    if and only if dealing out the payload outputs serves every mandatory template output, and
    the outputs of an assignment are those dealt out. So the outputs are found whenever there
    is a choice, unless an earlier template output can take what only a later mandatory one
    could use. -/
theorem matchTx_outputs_firstFit (P : Pallas) (specialized : Tir.Tx) (payload : CardanoPayload)
    (tx : MultiEraTx) (profileName txName : String) (hparse : payload.parsed P = .ok tx) :
    (OtherSteps P payload tx specialized →
      ((∃ a, matchTx P specialized payload profileName txName = .ok (some a)) ↔
        MandatoryServed tx specialized.outputs)) ∧
    (∀ a, matchTx P specialized payload profileName txName = .ok (some a) →
      ∃ left, deal outputOk Tir.Output.optional specialized.outputs tx.outputs =
        some (slotElements tx.outputs a.outputMap, left)) ∧
    ((specialized.outputs.Pairwise fun earlier later => later.optional = false →
        OutputSpares tx.outputs earlier (outputOk later)) →
      OutputsComplete P specialized payload tx profileName txName ∧
        InstancesComplete P specialized payload tx profileName txName) := by
  refine ⟨matchTx_isSome_iff hparse, fun a ha => deal_of_matchTx hparse ha, fun hspares => ?_⟩
  refine ⟨outputsComplete_of_spares hparse hspares, fun hsteps instantiated hinst hmatch => ?_⟩
  obtain ⟨a, ha⟩ := hmatch
  exact outputsComplete_of_spares hparse hspares hsteps
    (outputChoice_of_instantiates hinst (outputChoice_of_matchTx hparse ha))

/-- A template with no inputs of its own. -/
theorem Sample.otherSteps_templateOf (outputs : List Tir.Output) :
    OtherSteps Sample.pairPallas Sample.pairPayload Sample.pairTx (Sample.templateOf [] outputs) :=
  ⟨⟨[], rfl⟩, ⟨[], rfl⟩, ⟨[], rfl⟩, ⟨[], rfl⟩⟩

set_option maxRecDepth 4000 in
/-- The output at a runtime address takes the first payload output, which the second template
    output does not need; in the other order the two spare each other. -/
theorem matchTx_outputs_firstFit_pair :
    (∃ a, matchTx Sample.pairPallas (Sample.templateOf []
        [Sample.outputAt (Sample.runtime "to"), Sample.outputAt (.address Sample.keyAddress)])
        Sample.pairPayload "" "" = .ok (some a)) ∧
      OutputsComplete Sample.pairPallas
        (Sample.templateOf []
          [Sample.outputAt (.address Sample.scriptAddress), Sample.outputAt (Sample.runtime "to")])
        Sample.pairPayload Sample.pairTx "" "" := by
  have hspares : OutputSpares Sample.pairTx.outputs
      (Sample.outputAt (.address Sample.scriptAddress))
      (outputOk (Sample.outputAt (Sample.runtime "to"))) :=
    Or.inr ⟨rfl, fun _ _ _ => rfl⟩
  constructor
  · exact ((matchTx_outputs_firstFit _ _ _ _ _ _ Sample.parsed_pairPayload).1
      (Sample.otherSteps_templateOf _)).mpr ⟨_, _, rfl⟩
  · exact ((matchTx_outputs_firstFit _ _ _ _ _ _ Sample.parsed_pairPayload).2.2
      (by simpa [Sample.templateOf, Sample.outputAt] using hspares)).1

set_option maxRecDepth 4000 in
/-- The first template output has a runtime address and takes the payload output at the
    script address, the only one that the second template output accepts. -/
theorem not_outputsComplete :
    ¬OutputsComplete Sample.pairPallas
        (Sample.templateOf []
          [Sample.outputAt (Sample.runtime "to"), Sample.outputAt (.address Sample.scriptAddress)])
        Sample.pairPayload Sample.pairTx "" "" ∧
      ¬InstancesComplete Sample.pairPallas
        (Sample.templateOf []
          [Sample.outputAt (Sample.runtime "to"), Sample.outputAt (.address Sample.scriptAddress)])
        Sample.pairPayload Sample.pairTx "" "" := by
  have hnone : matchTx Sample.pairPallas (Sample.templateOf []
      [Sample.outputAt (Sample.runtime "to"), Sample.outputAt (.address Sample.scriptAddress)])
      Sample.pairPayload "" "" = .ok none := rfl
  constructor
  · intro h
    obtain ⟨a, ha⟩ := h (Sample.otherSteps_templateOf _) ⟨[1, 0], by decide,
      .cons ⟨rfl, _, rfl, rfl⟩ (.cons ⟨rfl, _, rfl, rfl⟩ .nil)⟩
    rw [hnone] at ha
    cases ha
  · intro h
    obtain ⟨a, ha⟩ := h (Sample.otherSteps_templateOf _)
      (Sample.templateOf [] [Sample.outputAt (.address Sample.keyAddress),
        Sample.outputAt (.address Sample.scriptAddress)])
      (.cons ⟨rfl, by simp [Sample.outputAt, Sample.runtime, constAddress]⟩
        (.cons ⟨rfl, fun _ h => h⟩ .nil)) ⟨_, rfl⟩
    rw [hnone] at ha
    cases ha

/-! ## Inputs -/

/-- The tests that need a payload input of their own: one for each pinned reference, one for
    a single query. -/
def inputTests (P : Pallas) (payload : CardanoPayload) (tirInput : Tir.Input) :
    List (TransactionInput → Bool) :=
  match constUtxoRefs tirInput.utxos with
  | some refs => refs.map fun r i => i.matchesRef r
  | none =>
    match expectInputQuery tirInput.utxos with
    | some query =>
      if query.many then [] else [addressOk P payload (constAddress query.address)]
    | none => []

/-- If `earlier` is a query, it does not hurt the test of a later input: no payload input
    passes both, or it is a single query and all that it accepts passes. -/
def QuerySpares (P : Pallas) (payload : CardanoPayload) (inputs : List TransactionInput)
    (earlier : Tir.Input) (later : TransactionInput → Bool) : Prop :=
  ∀ query, expectInputQuery earlier.utxos = some query →
    Apart inputs (addressOk P payload (constAddress query.address)) later ∨
      (query.many = false ∧ ∀ i ∈ inputs,
        addressOk P payload (constAddress query.address) i = true → later i = true)

/-- Distinct payload inputs for all pinned references and single queries. -/
def InputChoice (P : Pallas) (payload : CardanoPayload) (tx : MultiEraTx)
    (inputs : List Tir.Input) : Prop :=
  Matching tx.inputs (List.replicate tx.inputs.length false)
    (inputs.flatMap (inputTests P payload))

/-- What the scan for a pinned reference asks for. -/
def refRequest (must : Bool) (r : Tir.UtxoRef) : Request TransactionInput :=
  { test := fun i => i.matchesRef r, once := true, must := must }

/-- What a template input asks for: each pinned reference, one input at the address of a single
    query (any, if it has none), all of them for a `many` query. -/
def Tir.Input.requests (P : Pallas) (payload : CardanoPayload) (tirInput : Tir.Input) :
    List (Request TransactionInput) :=
  match constUtxoRefs tirInput.utxos with
  | some refs => refs.map (refRequest true)
  | none =>
    match expectInputQuery tirInput.utxos with
    | some query =>
      [{ test := addressOk P payload (constAddress query.address)
         once := !query.many
         must := false }]
    | none => []

/-- Dealing out the payload inputs serves every pinned reference and every single query: in the
    order of the template, each takes the first input left that it accepts, and a `many` query
    takes all that it accepts. -/
def InputsDealt (P : Pallas) (payload : CardanoPayload) (tx : MultiEraTx)
    (inputs : List Tir.Input) : Prop :=
  Served Request.once (inputs.flatMap (Tir.Input.requests P payload)) tx.inputs

instance decidableInputsDealt (P : Pallas) (payload : CardanoPayload) (tx : MultiEraTx)
    (inputs : List Tir.Input) : Decidable (InputsDealt P payload tx inputs) :=
  decidableServed _ _ _

/-- Unless the template input is a `many` query, its slots serve its tests one by one. -/
def InputServed (P : Pallas) (payload : CardanoPayload) (tx : MultiEraTx) (tirInput : Tir.Input)
    (slots : List ℕ) : Prop :=
  (∀ query, expectInputQuery tirInput.utxos = some query → query.many = false) →
    List.Forall₂ (fun (q : TransactionInput → Bool) s => ∃ i, tx.inputs[s]? = some i ∧
      q i = true) (inputTests P payload tirInput) slots

section Inputs

variable {P : Pallas} {payload : CardanoPayload} {tx : MultiEraTx}

theorem matchesRef_of_key {i j : TransactionInput} (h : i.key = j.key) (r : Tir.UtxoRef) :
    i.matchesRef r = j.matchesRef r := by
  rw [Bool.eq_iff_iff, matchesRef_iff_key, matchesRef_iff_key, h]

theorem addressOk_of_key {i j : TransactionInput} (h : i.key = j.key) (addr : Option ByteBuf) :
    addressOk P payload addr i = addressOk P payload addr j := by
  have hsame : payload.resolvedOutput P i = payload.resolvedOutput P j := by
    rw [CardanoPayload.resolvedOutput, CardanoPayload.resolvedOutput, h]
  simp only [addressOk, hsame]

/-- Every test of the input scans looks at the key of an input only. -/
theorem inputTests_key {tirInput : Tir.Input} {q : TransactionInput → Bool}
    (hq : q ∈ inputTests P payload tirInput) {i j : TransactionInput} (h : i.key = j.key) :
    q i = q j := by
  unfold inputTests at hq
  cases hrefs : constUtxoRefs tirInput.utxos with
  | some refs =>
    rw [hrefs] at hq
    obtain ⟨r, -, rfl⟩ := List.mem_map.mp hq
    exact matchesRef_of_key h r
  | none =>
    rw [hrefs] at hq
    cases hquery : expectInputQuery tirInput.utxos with
    | none => simp [hquery] at hq
    | some query =>
      cases hmany : query.many with
      | true => simp [hquery, hmany] at hq
      | false =>
        have hq' : q = addressOk P payload (constAddress query.address) := by
          simpa [hquery, hmany] using hq
        rw [hq', addressOk_of_key h]

/-- The inputs that a pinned reference accepts all have one key, so a test that accepts one
    of them accepts all. -/
theorem harmless_matchesRef {inputs : List TransactionInput} (r : Tir.UtxoRef)
    {q : TransactionInput → Bool} (hq : ∀ {i j : TransactionInput}, i.key = j.key → q i = q j) :
    Harmless inputs (fun i => i.matchesRef r) q := by
  by_cases hboth : ∃ i ∈ inputs, i.matchesRef r = true ∧ q i = true
  · obtain ⟨i, -, hi, hqi⟩ := hboth
    have hkey : i.key = r.key := matchesRef_iff_key.mp hi
    exact Or.inr fun j _ hj => by rw [hq ((matchesRef_iff_key.mp hj).trans hkey.symm), hqi]
  · exact Or.inl fun i hi hpq => hboth ⟨i, hi, hpq⟩

/-- The scan for pinned references finds them all and hurts no later test. -/
theorem claimRefs_keeps {inputs : List TransactionInput} :
    ∀ (refs : List Tir.UtxoRef) {consumed : List Bool} {rest : List (TransactionInput → Bool)},
      consumed.length = inputs.length →
      Matching inputs consumed (refs.map (fun r i => i.matchesRef r) ++ rest) →
      (∀ q ∈ rest, ∀ {i j : TransactionInput}, i.key = j.key → q i = q j) →
      ∃ m consumed', claimRefs inputs refs consumed = some (m, consumed') ∧
        Claims consumed m consumed' ∧
        List.Forall₂ (fun (q : TransactionInput → Bool) s => ∃ i, inputs[s]? = some i ∧
          q i = true) (refs.map fun r i => i.matchesRef r) m ∧
        Matching inputs consumed' rest := by
  intro refs
  induction refs with
  | nil => intro consumed rest _ h _; exact ⟨[], consumed, rfl, Claims.nil _, .nil, h⟩
  | cons r refs ih =>
    intro consumed rest hlen h hrest
    have hkeyed : ∀ q ∈ refs.map (fun (r : Tir.UtxoRef) (i : TransactionInput) =>
        i.matchesRef r) ++ rest, Harmless inputs (fun i => i.matchesRef r) q := by
      intro q hq
      refine harmless_matchesRef r fun {i j} hij => ?_
      rcases List.mem_append.mp hq with hq | hq
      · obtain ⟨r', -, rfl⟩ := List.mem_map.mp hq
        exact matchesRef_of_key hij r'
      · exact hrest q hq hij
    obtain ⟨s, u', hclaim, hs, hclaims, hleft⟩ := Matching.claim_once hlen h hkeyed
    obtain ⟨m, u'', hm, hclaims', hserved, hleft'⟩ :=
      ih (hclaims.length_eq.trans hlen) hleft hrest
    refine ⟨s :: m, u'', ?_, hclaims.append hclaims', List.Forall₂.cons hs.2 hserved, hleft'⟩
    simp [claimRefs, hclaim, hm]

/-- One step of the input loop. -/
theorem assignInputOn_keeps (tirInput : Tir.Input) {consumed : List Bool}
    {rest : List (TransactionInput → Bool)} (hlen : consumed.length = tx.inputs.length)
    (h : Matching tx.inputs consumed (inputTests P payload tirInput ++ rest))
    (hrest : ∀ q ∈ rest, (∀ {i j : TransactionInput}, i.key = j.key → q i = q j) ∧
      QuerySpares P payload tx.inputs tirInput q) :
    ∃ m consumed', assignInputOn P payload tx tirInput consumed = some (m, consumed') ∧
      Claims consumed m consumed' ∧ InputServed P payload tx tirInput m ∧
      Matching tx.inputs consumed' rest := by
  rcases assignInputOn_cases P payload tx tirInput consumed with
    ⟨refs, hrefs, heq⟩ | ⟨query, hrefs, hquery, heq⟩ | ⟨hrefs, hquery, heq⟩
  · have htests : inputTests P payload tirInput = refs.map fun r i => i.matchesRef r := by
      simp [inputTests, hrefs]
    rw [htests] at h
    obtain ⟨m, u', hm, hclaims, hserved, hleft⟩ :=
      claimRefs_keeps refs hlen h fun q hq => (hrest q hq).1
    refine ⟨m, u', heq.trans hm, hclaims, fun _ => ?_, hleft⟩
    rw [htests]
    exact hserved
  · have hspares := fun q hq => (hrest q hq).2 query hquery
    cases hmany : query.many with
    | true =>
      have htests : inputTests P payload tirInput = [] := by
        simp [inputTests, hrefs, hquery, hmany]
      rw [htests] at h
      rw [hmany, Bool.not_true] at heq
      obtain ⟨hclaims, -, -⟩ :=
        claim_spec (addressOk P payload (constAddress query.address)) false hlen
      refine ⟨_, _, heq, hclaims, fun hone => ?_,
        Matching.claim_apart false hlen h fun q hq => ?_⟩
      · simp [hone query hquery] at hmany
      · exact (hspares q hq).resolve_right fun hone => by simp [hmany] at hone
    | false =>
      have htests : inputTests P payload tirInput =
          [addressOk P payload (constAddress query.address)] := by
        simp [inputTests, hrefs, hquery, hmany]
      rw [htests] at h
      rw [hmany, Bool.not_false] at heq
      obtain ⟨s, u', hclaim, hs, hclaims, hleft⟩ := Matching.claim_once hlen h fun q hq =>
        (hspares q hq).imp id And.right
      refine ⟨[s], u', by rw [heq, hclaim], hclaims, fun _ => ?_, hleft⟩
      rw [htests]
      exact .cons hs.2 .nil
  · have htests : inputTests P payload tirInput = [] := by simp [inputTests, hrefs, hquery]
    rw [htests] at h
    refine ⟨[], consumed, heq, Claims.nil _, fun _ => ?_, h⟩
    rw [htests]
    exact .nil

theorem claimRefs_cons (inputs : List TransactionInput) (r : Tir.UtxoRef)
    (refs : List Tir.UtxoRef) (consumed : List Bool) :
    claimRefs inputs (r :: refs) consumed =
      if (claim (fun i => i.matchesRef r) true 0 inputs consumed).1.isEmpty then none
      else (claimRefs inputs refs (claim (fun i => i.matchesRef r) true 0 inputs consumed).2).map
        fun rest =>
          ((claim (fun i => i.matchesRef r) true 0 inputs consumed).1 ++ rest.1, rest.2) := by
  rw [claimRefs]
  split
  · simp_all
  · rename_i m u hne heq
    have hm : m.isEmpty = false := by simpa using hne
    rw [heq]
    simp [hm]

/-- The scans for pinned references go through exactly when each is served. -/
theorem claimRefs_served_iff {need : Request TransactionInput → Bool}
    (hneed : ∀ r, need (refRequest true r) = true) {inputs : List TransactionInput} :
    ∀ (refs : List Tir.UtxoRef) {consumed : List Bool}, consumed.length = inputs.length →
      ((∃ r, claimRefs inputs refs consumed = some r) ↔
        Served need (refs.map (refRequest true)) (leftFrom 0 inputs consumed)) ∧
      ∀ r, claimRefs inputs refs consumed = some r →
        r = serve inputs (refs.map (refRequest true)) consumed := by
  intro refs
  induction refs with
  | nil =>
    intro consumed _
    exact ⟨⟨fun _ => trivial, fun _ => ⟨_, rfl⟩⟩, fun r h => (Option.some.inj h).symm⟩
  | cons ref refs ih =>
    intro consumed hlen
    obtain ⟨hempty, -, -⟩ :=
      claim_leftFrom (fun i : TransactionInput => i.matchesRef ref) inputs 0 consumed (by omega)
    obtain ⟨hclaims, -, -⟩ := claim_spec (fun i : TransactionInput => i.matchesRef ref) true hlen
    have hleft : leftFrom 0 inputs (claim (fun i => i.matchesRef ref) true 0 inputs consumed).2 =
        (refRequest true ref).leave (leftFrom 0 inputs consumed) :=
      (claim_request (refRequest true ref) hlen).2
    obtain ⟨hiff, heq⟩ := ih (hclaims.length_eq.trans hlen)
    rw [claimRefs_cons, hempty, List.map_cons, Served, ← hleft]
    cases hany : (leftFrom 0 inputs consumed).any fun i => i.matchesRef ref with
    | false =>
      have hnone : ¬∃ i ∈ leftFrom 0 inputs consumed, i.matchesRef ref = true := by
        simpa using hany
      refine ⟨iff_of_false (by simp) fun h => hnone (h.1 (hneed ref)), by simp⟩
    | true =>
      have hsome : ∃ i ∈ leftFrom 0 inputs consumed, i.matchesRef ref = true := by
        simpa using hany
      simp only [Bool.not_true, Bool.false_eq_true, if_false, Option.map_eq_some_iff]
      rw [← hiff]
      refine ⟨⟨?_, ?_⟩, ?_⟩
      · rintro ⟨-, rest, hrest, -⟩
        exact ⟨fun _ => hsome, rest, hrest⟩
      · rintro ⟨-, rest, hrest⟩
        exact ⟨_, rest, hrest, rfl⟩
      · rintro r ⟨rest, hrest, rfl⟩
        rw [heq rest hrest]
        rfl

theorem requests_of_refs {tirInput : Tir.Input} {refs : List Tir.UtxoRef}
    (hrefs : constUtxoRefs tirInput.utxos = some refs) :
    tirInput.requests P payload = refs.map (refRequest true) := by
  simp [Tir.Input.requests, hrefs]

theorem requests_of_query {tirInput : Tir.Input} {query : InputQuery}
    (hquery : expectInputQuery tirInput.utxos = some query) :
    tirInput.requests P payload =
      [{ test := addressOk P payload (constAddress query.address)
         once := !query.many
         must := false }] := by
  simp [Tir.Input.requests, constUtxoRefs_of_expectInputQuery hquery, hquery]

theorem assignInputOn_serve (tirInput : Tir.Input) {consumed : List Bool} {r : List ℕ × List Bool}
    (hlen : consumed.length = tx.inputs.length)
    (h : assignInputOn P payload tx tirInput consumed = some r) :
    r = serve tx.inputs (tirInput.requests P payload) consumed := by
  rcases assignInputOn_cases P payload tx tirInput consumed with
    ⟨refs, hrefs, heq⟩ | ⟨query, -, hquery, heq⟩ | ⟨hrefs, hquery, heq⟩
  · rw [requests_of_refs hrefs]
    exact (@claimRefs_served_iff Request.once (fun _ => rfl) _ refs _ hlen).2 r (heq.symm.trans h)
  · rw [requests_of_query hquery, ← Option.some.inj (heq.symm.trans h)]
    simp [serve]
  · rw [← Option.some.inj (heq.symm.trans h)]
    simp [Tir.Input.requests, hrefs, hquery, serve]

theorem isSingle_of_refs {tirInput : Tir.Input} {refs : List Tir.UtxoRef}
    (hrefs : constUtxoRefs tirInput.utxos = some refs) : tirInput.isSingle = false := by
  simp [Tir.Input.isSingle, expectInputQuery_of_constUtxoRefs hrefs]

theorem isSingle_of_query {tirInput : Tir.Input} {query : InputQuery}
    (hquery : expectInputQuery tirInput.utxos = some query) :
    tirInput.isSingle = !query.many := by
  simp [Tir.Input.isSingle, hquery]

/-- Whatever one step claims serves its template input, unless that is a single query which
    gets nothing. -/
theorem inputServed_iff {tirInput : Tir.Input} {consumed consumed' : List Bool} {m : List ℕ}
    (hlen : consumed.length = tx.inputs.length)
    (h : assignInputOn P payload tx tirInput consumed = some (m, consumed')) :
    InputServed P payload tx tirInput m ↔ (tirInput.isSingle = true → ∃ s, m = [s]) := by
  rcases assignInputOn_cases P payload tx tirInput consumed with
    ⟨refs, hrefs, heq⟩ | ⟨query, hrefs, hquery, -⟩ | ⟨hrefs, hquery, heq⟩
  · refine iff_of_true (fun _ => ?_) (by simp [isSingle_of_refs hrefs])
    have htests : inputTests P payload tirInput = refs.map fun r i => i.matchesRef r := by
      simp [inputTests, hrefs]
    rw [htests, List.forall₂_map_left_iff]
    exact (claimRefs_spec hlen (heq.symm.trans h)).2
  · obtain ⟨-, hslots⟩ := assignInputOn_claims hlen h
    cases hmany : query.many with
    | true =>
      refine iff_of_true (fun hone => ?_) (by simp [isSingle_of_query hquery, hmany])
      rw [hone query hquery] at hmany
      cases hmany
    | false =>
      have htests : inputTests P payload tirInput =
          [addressOk P payload (constAddress query.address)] := by
        simp [inputTests, hrefs, hquery, hmany]
      constructor
      · intro hserved _
        have hall := hserved fun query' hquery' => by
          cases hquery.symm.trans hquery'
          exact hmany
        rw [htests] at hall
        obtain ⟨s, rest, -, hrest, rfl⟩ := List.forall₂_cons_left_iff.mp hall
        cases hrest
        exact ⟨s, rfl⟩
      · intro hone _
        obtain ⟨s, rfl⟩ := hone (by simp [isSingle_of_query hquery, hmany])
        rw [htests]
        exact .cons (hslots query hquery s (by simp)) .nil
  · cases heq.symm.trans h
    refine iff_of_true (fun _ => ?_) (by simp [Tir.Input.isSingle, hquery])
    have htests : inputTests P payload tirInput = [] := by simp [inputTests, hrefs, hquery]
    rw [htests]
    exact .nil

/-- **One step of the input loop deals out**: it serves its template input exactly when the
    requests of that input are served by what is left. -/
theorem assignInputOn_served_iff (tirInput : Tir.Input) {consumed : List Bool}
    (hlen : consumed.length = tx.inputs.length) :
    (∃ r, assignInputOn P payload tx tirInput consumed = some r ∧
        InputServed P payload tx tirInput r.1) ↔
      Served Request.once (tirInput.requests P payload) (leftFrom 0 tx.inputs consumed) := by
  have hserved : ∀ r, assignInputOn P payload tx tirInput consumed = some r →
      (InputServed P payload tx tirInput r.1 ↔ (tirInput.isSingle = true → ∃ s, r.1 = [s])) :=
    fun _ => inputServed_iff hlen
  rw [exists_congr fun r => and_congr_right (hserved r)]
  rcases assignInputOn_cases P payload tx tirInput consumed with
    ⟨refs, hrefs, heq⟩ | ⟨query, -, hquery, heq⟩ | ⟨hrefs, hquery, heq⟩
  · rw [requests_of_refs hrefs, ← (claimRefs_served_iff (fun _ => rfl) refs hlen).1, heq]
    simp [isSingle_of_refs hrefs]
  · rw [requests_of_query hquery, heq]
    cases hmany : query.many with
    | true => simp [isSingle_of_query hquery, hmany, Served]
    | false =>
      simp [isSingle_of_query hquery, hmany, Served, claim_once_iff _ hlen]
  · rw [heq]
    simp [Tir.Input.requests, Tir.Input.isSingle, hrefs, hquery, Served]

theorem assignInputs_served_iff {inputs : List Tir.Input} :
    (∃ map, assignAll (assignInputOn P payload tx) inputs
        (List.replicate tx.inputs.length false) = some map ∧
      List.Forall₂ (InputServed P payload tx) inputs map) ↔ InputsDealt P payload tx inputs := by
  have h := assignAll_served_iff (fun b _ _ hlen => @assignInputOn_serve P payload tx b _ _ hlen)
    (fun b _ hlen => assignInputOn_served_iff b hlen) inputs
    (List.replicate tx.inputs.length false) List.length_replicate
  rwa [leftFrom_replicate] at h

end Inputs

/-- The input step is complete for these template inputs and this payload: whenever there is
    a choice of inputs, it succeeds and serves every pinned reference and every single query,
    none of them with the slot of another. -/
def InputsComplete (P : Pallas) (payload : CardanoPayload) (tx : MultiEraTx)
    (inputs : List Tir.Input) : Prop :=
  InputChoice P payload tx inputs →
    ∃ map, matchInputs P payload inputs (List.replicate tx.inputs.length false) = .ok (some map) ∧
      List.Forall₂ (InputServed P payload tx) inputs map ∧ map.flatten.Nodup

/-- **Which inputs are found.** The input step succeeds and serves every pinned reference and
    every single query if and only if dealing out the payload inputs does. So it does whenever
    there is a choice, unless an earlier query can take what only a later pinned reference or
    single query could use. -/
theorem matchInputs_firstFit (P : Pallas) (payload : CardanoPayload) (tx : MultiEraTx)
    (inputs : List Tir.Input) (hparse : payload.parsed P = .ok tx) :
    ((∃ map, matchInputs P payload inputs (List.replicate tx.inputs.length false) =
        .ok (some map) ∧ List.Forall₂ (InputServed P payload tx) inputs map ∧
          map.flatten.Nodup) ↔ InputsDealt P payload tx inputs) ∧
    ((inputs.Pairwise fun earlier later => ∀ q ∈ inputTests P payload later,
        QuerySpares P payload tx.inputs earlier q) →
      InputsComplete P payload tx inputs) := by
  constructor
  · rw [matchInputs_eq hparse, ← assignInputs_served_iff]
    constructor
    · rintro ⟨map, hmap, hserved, -⟩
      exact ⟨map, Except.ok.inj hmap, hserved⟩
    · rintro ⟨map, hmap, hserved⟩
      obtain ⟨-, hnodup, -⟩ := assignAll_spec (Q := fun _ _ => True)
        (fun _ _ _ _ hlen h => ⟨(assignInputOn_claims hlen h).1, trivial⟩) hmap
      exact ⟨map, congrArg Except.ok hmap, hserved, hnodup⟩
  · intro hspares hchoice
    have hpair : inputs.Pairwise fun earlier later => ∀ q ∈ inputTests P payload later,
        (∀ {i j : TransactionInput}, i.key = j.key → q i = q j) ∧
          QuerySpares P payload tx.inputs earlier q :=
      hspares.imp fun h q hq => ⟨inputTests_key hq, h q hq⟩
    obtain ⟨map, u', hmap, hclaims, hserved⟩ := assignAll_complete
      (fun tirInput u rest hlen => assignInputOn_keeps tirInput hlen) inputs _ (by simp) hpair
      hchoice
    exact ⟨map, by rw [matchInputs_eq hparse, hmap], hserved, hclaims.nodup⟩

set_option maxRecDepth 4000 in
/-- The query without an address takes the first input, and the second template input pins the
    other one; in the other order the two spare each other. -/
theorem matchInputs_firstFit_pair :
    (∃ map, matchInputs Sample.pairPallas Sample.pairPayload
        [Sample.singleAt "source" (Sample.runtime "from"), Sample.pinnedAt "config" 1]
        (List.replicate Sample.pairTx.inputs.length false) = .ok (some map) ∧
      List.Forall₂ (InputServed Sample.pairPallas Sample.pairPayload Sample.pairTx)
        [Sample.singleAt "source" (Sample.runtime "from"), Sample.pinnedAt "config" 1] map ∧
      map.flatten.Nodup) ∧
    InputsComplete Sample.pairPallas Sample.pairPayload Sample.pairTx
      [Sample.pinnedAt "config" 0, Sample.singleAt "source" (Sample.runtime "from")] := by
  have hpinned : ∀ q, QuerySpares Sample.pairPallas Sample.pairPayload Sample.pairTx.inputs
      (Sample.pinnedAt "config" 0) q := by
    intro q query hquery
    simp [Sample.pinnedAt, expectInputQuery] at hquery
  constructor
  · exact (matchInputs_firstFit _ _ _ _ Sample.parsed_pairPayload).1.mpr (by decide)
  · exact (matchInputs_firstFit _ _ _ _ Sample.parsed_pairPayload).2 (by simp [hpinned])

set_option maxRecDepth 4000 in
/-- The query has no constant address and takes the input that the second template input
    pins. -/
theorem not_inputsComplete :
    ¬InputsComplete Sample.pairPallas Sample.pairPayload Sample.pairTx
      [Sample.singleAt "source" (Sample.runtime "from"), Sample.pinnedAt "config" 0] := by
  intro h
  obtain ⟨map, hmap, -⟩ := h ⟨[1, 0], by decide,
    .cons ⟨rfl, _, rfl, rfl⟩ (.cons ⟨rfl, _, rfl, by decide⟩ .nil)⟩
  have hnone : matchInputs Sample.pairPallas Sample.pairPayload
      [Sample.singleAt "source" (Sample.runtime "from"), Sample.pinnedAt "config" 0]
      (List.replicate Sample.pairTx.inputs.length false) = .ok none := rfl
  rw [hnone] at hmap
  cases hmap

end Tx3Lift
