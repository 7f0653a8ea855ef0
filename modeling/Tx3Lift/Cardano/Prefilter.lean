import Tx3Lift.Cardano.Complete

/-!
# The pre-filter against the matcher

`Fingerprint::matches` is meant as a necessary condition of `match_tx`: cheap counters and sets
against claims of payload slots.

* `outputs_claimed`, `policies_claimed`, `refs_claimed`: what a claim loop that goes through
  says about the payload.
* `prefilter_keeps_matched`: on what both levels check, the pre-filter lets every payload pass
  that the matcher accepts.
* `optional_outputs_iff`: when an optional output rejects a payload, at either level.
-/

namespace Tx3Lift

open Lib Tir

/-! ## What both levels check -/

/-- No two distinct constant policies in one mint or burn. -/
def OnePolicy (tirMint : Tir.Mint) : Prop :=
  ∀ p ∈ constPoliciesIn tirMint.amount, ∀ q ∈ constPoliciesIn tirMint.amount, p = q

/-- The checks of the pre-filter whose subject the matcher looks at too. -/
structure SharedChecks (t : Tir.Tx) (fp : Fingerprint) (summary : PayloadSummary) : Prop where
  outputCount : fp.minOutputs ≤ summary.outputCount
  mintCount : fp.minMints ≤ summary.mintCount
  burnCount : fp.minBurns ≤ summary.burnCount
  inputRefs : ∀ r ∈ fp.requiredInputRefs, r ∈ summary.inputRefs
  outputAddresses : (∀ o ∈ t.outputs, o.optional = false) →
    ∀ a ∈ fp.requiredOutputAddresses, a ∈ summary.outputAddresses
  mintPolicies : (∀ m ∈ t.mints, OnePolicy m) →
    ∀ p ∈ fp.requiredMintPolicies, p ∈ summary.mintPolicies
  burnPolicies : (∀ m ∈ t.burns, OnePolicy m) →
    ∀ p ∈ fp.requiredBurnPolicies, p ∈ summary.burnPolicies

section Loops

variable {P : Pallas} {payload : CardanoPayload} {tx : MultiEraTx}

/-- Every reference that an input pins is the key of a payload input. -/
theorem refs_claimed {inputs : List Tir.Input} {map : List (List ℕ)}
    (h : assignAll (assignInputOn P payload tx) inputs
      (List.replicate tx.inputs.length false) = some map) {r : Tir.UtxoRef}
    (hr : r ∈ inputs.flatMap Tir.Input.pinned) : ∃ i ∈ tx.inputs, i.key = r.key := by
  have hstep : ∀ b u m u', u.length = tx.inputs.length →
      assignInputOn P payload tx b u = some (m, u') → Claims u m u' ∧
        ∀ r ∈ b.pinned, ∃ i ∈ tx.inputs, i.key = r.key := by
    intro b u m u' hlen hb
    refine ⟨(assignInputOn_claims hlen hb).1, fun r hr => ?_⟩
    unfold Tir.Input.pinned at hr
    rcases assignInputOn_cases P payload tx b u with
      ⟨refs, hrefs, heq⟩ | ⟨query, hrefs, -, -⟩ | ⟨hrefs, -, -⟩
    · rw [hrefs] at hr
      rw [heq] at hb
      obtain ⟨-, hfound⟩ := claimRefs_spec hlen hb
      obtain ⟨s, -, i, hi, hir⟩ := exists_right_of_forall₂ hfound hr
      exact ⟨i, List.mem_of_getElem? hi, matchesRef_iff_key.mp hir⟩
    · rw [hrefs] at hr
      cases hr
    · rw [hrefs] at hr
      cases hr
  obtain ⟨hall, -, -⟩ := assignAll_spec hstep h
  obtain ⟨b, hb, hr⟩ := List.mem_flatMap.mp hr
  obtain ⟨m, -, hm⟩ := exists_right_of_forall₂ hall hb
  exact hm r hr

/-- Mandatory outputs take one payload output each, at their constant address. -/
theorem outputs_claimed {outputs : List Tir.Output} {map : List (List ℕ)}
    (h : assignAll (matchOutput tx.outputs) outputs
      (List.replicate tx.outputs.length false) = some map) :
    (outputs.map Tir.Output.demand).sum ≤ tx.outputs.length ∧
      ∀ o ∈ outputs, o.optional = false → ∀ a, constAddress o.address = some a →
        ∃ output ∈ tx.outputs, output.address = some a := by
  constructor
  · rw [← List.countP_true]
    refine sum_demand_le_countP (fun o u m u' hlen hm => ?_) h
    obtain ⟨hclaims, hslots⟩ := matchOutput_spec hlen hm
    refine ⟨hclaims, ?_, fun s hs => ?_⟩
    · have hcount := hslots.count
      unfold Tir.Output.demand
      split_ifs at hcount ⊢
      · exact Nat.zero_le _
      · exact hcount.ge
    · have hlt : s < tx.outputs.length := hlen ▸ hclaims.lt_length hs
      exact ⟨tx.outputs[s], List.getElem?_eq_getElem hlt, rfl⟩
  · intro o ho hmand a ha
    have hall := (mapSound_of_assignAll h fun _ _ _ _ => matchOutput_spec).entries
    obtain ⟨m, -, hslots⟩ := exists_right_of_forall₂ hall ho
    have hcount := hslots.count
    rw [hmand] at hcount
    obtain ⟨s, rfl⟩ := List.length_eq_one_iff.mp hcount
    obtain ⟨output, hs, hat⟩ := hslots.atAddress a ha s (by simp)
    exact ⟨output, List.mem_of_getElem? hs, hat⟩

/-- Mints take one policy of the mint field each, with an amount of their sign; one that names
    a single policy takes that one. Likewise burns. -/
theorem policies_claimed {touches : MultiEraAsset → Bool} {sign : ℤ → Prop}
    (hsign : ∀ a, touches a = true ↔ sign a.anyCoin) {mints : List Tir.Mint}
    {map : List (List ℕ)}
    (h : assignAll (matchPolicy touches tx.mints) mints
      (List.replicate tx.mints.length false) = some map) :
    mints.length ≤ tx.mints.countP (fun p => p.assets.any touches) ∧
      ∀ m ∈ mints, OnePolicy m → ∀ p ∈ constPoliciesIn m.amount,
        ∃ entry ∈ tx.mints, entry.policy.bytes = p ∧ ∃ a ∈ entry.assets, sign a.anyCoin := by
  constructor
  · have hsum : mints.length = (mints.map fun _ => 1).sum := by simp
    rw [hsum]
    refine sum_demand_le_countP (fun b u m u' hlen hm => ?_) h
    obtain ⟨hclaims, s, entry, rfl, hs, ⟨a, ha, hsigned⟩, -⟩ := matchPolicy_spec hsign hlen hm
    refine ⟨hclaims, le_rfl, fun t ht => ?_⟩
    rw [List.mem_singleton.mp ht]
    exact ⟨entry, hs, List.any_eq_true.mpr ⟨a, ha, (hsign a).mpr hsigned⟩⟩
  · intro m hm hone p hp
    have hall := (mapSound_of_assignAll h fun _ _ _ _ => matchPolicy_spec hsign).entries
    obtain ⟨slots, -, s, entry, -, hs, hsigned, hnamed⟩ := exists_right_of_forall₂ hall hm
    have hne : constPoliciesIn m.amount ≠ [] := List.ne_nil_of_mem hp
    exact ⟨entry, List.mem_of_getElem? hs, hone _ (hnamed hne) _ hp, hsigned⟩

end Loops

/-- **The pre-filter keeps what the matcher accepts**, on what both check and for payloads of
    any size. -/
theorem prefilter_keeps_matched (P : Pallas) (T : Tx3) (tii : TiiFile)
    (txName profileName : String) (specialized : Tir.Tx) (args : ArgMap) (fp : Fingerprint)
    (payload : CardanoPayload) (summary : PayloadSummary) (profileName' txName' : String)
    (a : MatchAssignment)
    (hfp : extract T tii txName profileName specialized args = .ok fp)
    (hsummary : summarize P payload = .ok summary)
    (hmatch : matchTx P specialized payload profileName' txName' = .ok (some a)) :
    SharedChecks specialized fp summary := by
  obtain ⟨tx, hparse, hsummary⟩ := Except.bind_eq_ok hsummary
  cases hsummary
  cases extract_eq.symm.trans hfp
  obtain ⟨hin, hout, hmint, hburn, -⟩ := matchTx_eq hparse hmatch
  obtain ⟨hcount, haddress⟩ := outputs_claimed hout
  obtain ⟨hmints, hmintPolicy⟩ :=
    @policies_claimed tx _ (0 < ·) (fun _ => decide_eq_true_iff) specialized.mints _ hmint
  obtain ⟨hburns, hburnPolicy⟩ :=
    @policies_claimed tx _ (· < 0) (fun _ => decide_eq_true_iff) specialized.burns _ hburn
  refine ⟨?_, ?_, ?_, ?_, ?_, ?_, ?_⟩
  · rw [summarizeTx_eq]
    exact u16TryFrom_mono hcount
  · rw [summarizeTx_eq]
    exact u16TryFrom_mono hmints
  · rw [summarizeTx_eq]
    exact u16TryFrom_mono hburns
  · intro r hr
    obtain ⟨ref, href, rfl⟩ := List.mem_map.mp (mem_insertMany_empty.mp hr)
    exact (mem_inputRefs P payload tx).mpr (refs_claimed hin href)
  · intro hmand addr haddr
    obtain ⟨o, ho, hconst⟩ := List.mem_filterMap.mp (mem_insertMany_empty.mp haddr)
    exact (mem_outputAddresses P payload tx).mpr (haddress o ho (hmand o ho) addr hconst)
  · intro hone p hp
    obtain ⟨m, hm, hp⟩ := List.mem_flatMap.mp (mem_insertMany_empty.mp hp)
    exact (mem_mintPolicies P payload tx).mpr (hmintPolicy m hm (hone m hm) p hp)
  · intro hone p hp
    obtain ⟨m, hm, hp⟩ := List.mem_flatMap.mp (mem_insertMany_empty.mp hp)
    exact (mem_burnPolicies P payload tx).mpr (hburnPolicy m hm (hone m hm) p hp)

/-- A template with a pinned input and an output at the script address. -/
def Sample.pinnedLock : Tir.Tx :=
  Sample.templateOf [Sample.pinnedAt "config" 0] [Sample.outputAt (.address Sample.scriptAddress)]

set_option maxRecDepth 4000 in
theorem prefilter_keeps_matched_pair :
    ∃ fp, extract Sample.tx3 Sample.pairTii "lock" "preview" Sample.pinnedLock ∅ = .ok fp ∧
      SharedChecks Sample.pinnedLock fp
        (summarizeTx Sample.pairPallas Sample.pairPayload Sample.pairTx) :=
  ⟨_, rfl, prefilter_keeps_matched Sample.pairPallas Sample.tx3 Sample.pairTii "lock" "preview"
    Sample.pinnedLock ∅ _ Sample.pairPayload _ "" "" ⟨"", "", [[0]], [[0]], [], [], [], []⟩ rfl
    (summarize_eq Sample.parsed_pairPayload) rfl⟩

/-! ## Optional outputs -/

/-- `outputs'` is `outputs` without some of the optional ones. -/
inductive OptionalDropped : List Tir.Output → List Tir.Output → Prop
  | nil : OptionalDropped [] []
  | keep (o : Tir.Output) {outputs outputs' : List Tir.Output}
      (h : OptionalDropped outputs outputs') : OptionalDropped (o :: outputs) (o :: outputs')
  | drop {o : Tir.Output} {outputs outputs' : List Tir.Output} (hopt : o.optional = true)
      (h : OptionalDropped outputs outputs') : OptionalDropped (o :: outputs) outputs'

/-- The constant address and the constant policies of every optional output occur in the
    summary. -/
def OptionalPresent (outputs : List Tir.Output) (summary : PayloadSummary) : Prop :=
  ∀ o ∈ outputs, o.optional = true →
    (∀ a, constAddress o.address = some a → a ∈ summary.outputAddresses) ∧
      ∀ p ∈ constPoliciesIn o.amount, p ∈ summary.valuePolicies

section Optional

variable {outputs outputs' : List Tir.Output}

theorem OptionalDropped.demand_eq (h : OptionalDropped outputs outputs') :
    (outputs'.map Tir.Output.demand).sum = (outputs.map Tir.Output.demand).sum := by
  induction h with
  | nil => rfl
  | keep o _ ih => rw [List.map_cons, List.map_cons, List.sum_cons, List.sum_cons, ih]
  | drop hopt _ ih =>
    rw [List.map_cons, List.sum_cons, ih, Tir.Output.demand, if_pos hopt, zero_add]

theorem OptionalDropped.mem_or (h : OptionalDropped outputs outputs') {o : Tir.Output}
    (ho : o ∈ outputs) : o ∈ outputs' ∨ o.optional = true := by
  induction h with
  | nil => cases ho
  | keep o' _ ih =>
    rcases List.mem_cons.mp ho with rfl | ho
    · exact Or.inl List.mem_cons_self
    · exact (ih ho).imp_left (List.mem_cons_of_mem _)
  | drop hopt _ ih =>
    rcases List.mem_cons.mp ho with rfl | ho
    · exact Or.inr hopt
    · exact ih ho

/-- What the pre-filter asks for on account of the dropped outputs. -/
theorem admits_iff_of_dropped {T : Tx3} {tii : TiiFile} {txName profileName : String} {t : Tir.Tx}
    {json : ByteBuf} {args args' : ArgMap} {fp fp' : Fingerprint}
    (hdrop : OptionalDropped t.outputs outputs')
    (hfp : extract T tii txName profileName t args = .ok fp)
    (hfp' : extract T tii txName profileName { t with outputs := outputs', json := json } args' =
      .ok fp') {summary : PayloadSummary} (h : fp'.Admits summary) :
    fp.Admits summary ↔ OptionalPresent t.outputs summary := by
  cases extract_eq.symm.trans hfp
  cases extract_eq.symm.trans hfp'
  have haddresses : ∀ a, a ∈ insertMany (∅ : BTreeSet ByteBuf)
      (t.outputs.filterMap fun o => constAddress o.address) ↔
        ∃ o ∈ t.outputs, constAddress o.address = some a := fun a => by
    simp
  have hpolicies : ∀ p, p ∈ insertMany (∅ : BTreeSet ByteBuf)
      (t.inputs.flatMap Tir.Input.queryPolicies ++
        t.outputs.flatMap fun o => constPoliciesIn o.amount) ↔
        (∃ i ∈ t.inputs, p ∈ i.queryPolicies) ∨ ∃ o ∈ t.outputs, p ∈ constPoliciesIn o.amount :=
    fun p => by simp
  constructor
  · intro hall o ho hopt
    exact ⟨fun a ha => hall.outputAddresses a ((haddresses a).mpr ⟨o, ho, ha⟩),
      fun p hp => hall.valuePolicies p ((hpolicies p).mpr (Or.inr ⟨o, ho, hp⟩))⟩
  · intro hpresent
    refine ⟨h.inputAddresses, ?_, h.inputRefs, h.referenceRefs, h.mintPolicies, h.burnPolicies,
      ?_, h.signers, h.metadataLabels, h.inputCount, ?_, h.mintCount, h.burnCount,
      h.collateralCount, h.referenceCount, h.validity, h.extras⟩
    · intro a ha
      obtain ⟨o, ho, hconst⟩ := (haddresses a).mp ha
      rcases hdrop.mem_or ho with hkept | hopt
      · refine h.outputAddresses a (mem_insertMany_empty.mpr ?_)
        exact List.mem_filterMap.mpr ⟨o, hkept, hconst⟩
      · exact (hpresent o ho hopt).1 a hconst
    · intro p hp
      rcases (hpolicies p).mp hp with ⟨i, hi, hmem⟩ | ⟨o, ho, hmem⟩
      · refine h.valuePolicies p (mem_insertMany_empty.mpr ?_)
        exact List.mem_append_left _ (List.mem_flatMap.mpr ⟨i, hi, hmem⟩)
      · rcases hdrop.mem_or ho with hkept | hopt
        · refine h.valuePolicies p (mem_insertMany_empty.mpr ?_)
          exact List.mem_append_right _ (List.mem_flatMap.mpr ⟨o, hkept, hmem⟩)
        · exact (hpresent o ho hopt).2 p hmem
    · have hcount := h.outputCount
      simp only [hdrop.demand_eq] at hcount
      exact hcount

end Optional

/-- **Optional outputs and rejection.** When the template without some of its optional outputs
    lets a payload pass, the full template does so too if and only if the summary has what the
    optional outputs name (pre-filter), and the optional outputs leave every mandatory one a
    payload output (matcher). -/
theorem optional_outputs_iff (T : Tx3) (tii : TiiFile) (txName profileName : String) (t : Tir.Tx)
    (outputs' : List Tir.Output) (json : ByteBuf) (args args' : ArgMap) (fp fp' : Fingerprint)
    (hdrop : OptionalDropped t.outputs outputs')
    (hfp : extract T tii txName profileName t args = .ok fp)
    (hfp' : extract T tii txName profileName { t with outputs := outputs', json := json } args' =
      .ok fp') :
    (∀ summary, fp'.matchesSummary summary = true →
      (fp.matchesSummary summary = true ↔ OptionalPresent t.outputs summary)) ∧
    ∀ (P : Pallas) (payload : CardanoPayload) (tx : MultiEraTx) (profileName' txName' : String),
      payload.parsed P = .ok tx →
      (∃ a, matchTx P { t with outputs := outputs', json := json } payload profileName' txName' =
        .ok (some a)) →
      ((∃ a, matchTx P t payload profileName' txName' = .ok (some a)) ↔
        MandatoryServed tx t.outputs) := by
  constructor
  · intro summary h
    rw [matchesSummary_iff] at h ⊢
    exact admits_iff_of_dropped hdrop hfp hfp' h
  · intro P payload tx profileName' txName' hparse hmatch
    obtain ⟨a', ha'⟩ := hmatch
    obtain ⟨hin, -, hmint, hburn, href⟩ := matchTx_eq hparse ha'
    have hsteps : OtherSteps P payload tx t :=
      ⟨⟨_, by rw [matchInputs_eq hparse]; exact congrArg _ hin⟩, ⟨_, hmint⟩, ⟨_, hburn⟩, ⟨_, href⟩⟩
    exact matchTx_isSome_iff hparse hsteps

/-- A template with an optional output and, after it, a mandatory one. -/
def Sample.optionalFirst (optionalAt mandatoryAt : ByteBuf) : Tir.Tx :=
  Sample.templateOf [] [{ address := .address optionalAt, amount := .none, optional := true },
    Sample.outputAt (.address mandatoryAt)]

set_option maxRecDepth 4000 in
/-- Where the payload has an output for each of the two, both levels accept it. -/
theorem optional_outputs_iff_present :
    ∃ fp, extract Sample.tx3 Sample.pairTii "lock" "preview"
        (Sample.optionalFirst Sample.scriptAddress Sample.keyAddress) ∅ = .ok fp ∧
      fp.matchesSummary (summarizeTx Sample.pairPallas Sample.pairPayload Sample.pairTx) = true ∧
      ∃ a, matchTx Sample.pairPallas (Sample.optionalFirst Sample.scriptAddress Sample.keyAddress)
        Sample.pairPayload "preview" "lock" = .ok (some a) := by
  obtain ⟨hfilter, hmatch⟩ := optional_outputs_iff Sample.tx3 Sample.pairTii "lock" "preview"
    (Sample.optionalFirst Sample.scriptAddress Sample.keyAddress)
    [Sample.outputAt (.address Sample.keyAddress)] [] ∅ ∅ _ _ (.drop rfl (.keep _ .nil)) rfl rfl
  refine ⟨_, rfl, (hfilter _ ?_).mpr ?_, (hmatch Sample.pairPallas Sample.pairPayload
    Sample.pairTx "preview" "lock" Sample.parsed_pairPayload ⟨_, rfl⟩).mpr ?_⟩
  · decide +kernel
  · intro o ho hopt
    rcases List.mem_cons.mp ho with rfl | ho
    · refine ⟨fun a ha => ?_, fun p hp => absurd hp List.not_mem_nil⟩
      cases ha
      decide +kernel
    · rw [List.mem_singleton.mp ho] at hopt
      cases hopt
  · exact ⟨_, _, rfl⟩

set_option maxRecDepth 4000 in
/-- The pre-filter drops a payload for the address of an output that need not be there, and in
    `match_tx` the optional output takes the payload output that the mandatory one needs. -/
theorem optional_output_rejects :
    (∃ fp fp' summary,
      extract Sample.tx3 Sample.pairTii "lock" "preview"
        (Sample.optionalFirst Sample.scriptAddress Sample.keyAddress) ∅ = .ok fp ∧
      extract Sample.tx3 Sample.pairTii "lock" "preview"
        { Sample.optionalFirst Sample.scriptAddress Sample.keyAddress with
          outputs := [Sample.outputAt (.address Sample.keyAddress)] } ∅ = .ok fp' ∧
      OptionalDropped (Sample.optionalFirst Sample.scriptAddress Sample.keyAddress).outputs
        [Sample.outputAt (.address Sample.keyAddress)] ∧
      summarize (Sample.pallas []) { raw := Sample.keyTx.cbor } = .ok summary ∧
      fp'.matchesSummary summary = true ∧ fp.matchesSummary summary = false) ∧
    ∃ a', OptionalDropped (Sample.optionalFirst Sample.scriptAddress Sample.scriptAddress).outputs
        [Sample.outputAt (.address Sample.scriptAddress)] ∧
      matchTx Sample.pairPallas
        { Sample.optionalFirst Sample.scriptAddress Sample.scriptAddress with
          outputs := [Sample.outputAt (.address Sample.scriptAddress)] }
        Sample.pairPayload "preview" "lock" = .ok (some a') ∧
      matchTx Sample.pairPallas (Sample.optionalFirst Sample.scriptAddress Sample.scriptAddress)
        Sample.pairPayload "preview" "lock" = .ok none :=
  ⟨⟨_, _, _, rfl, rfl, .drop rfl (.keep _ .nil), rfl, by decide +kernel, by decide +kernel⟩,
    _, .drop rfl (.keep _ .nil), rfl, rfl⟩

end Tx3Lift
