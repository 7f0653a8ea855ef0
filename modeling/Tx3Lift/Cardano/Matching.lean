import Tx3Lift.Cardano.Payload
import Tx3Lift.Lib.FreeSlots

/-!
# `match_tx`

Model of `crates/tx3-lift-cardano/src/matching.rs`. Each of the five loops walks the
template items and claims payload slots on its own vector of consumed flags; every
inner scan is `Lib.claim` with the loop's test.

* `matchTx_eq`: on a payload that parses, the five loops one after the other.
* `claimRefs_spec`, `claimPresentRefs_spec`: the scans for pinned references.
* `assignInputOn_cases`, `matchOutput_eq`, `matchPolicy_eq`, `matchReference_eq_some`: what a loop
  body does.
* `assignInputOn_spec`, `matchOutput_spec`, `matchPolicy_spec`, `matchReference_spec`:
  one spec per loop body.
* `matchTx_sound`: what an assignment promises about the transaction.
-/

namespace Tx3Lift

open Lib Tir

/-! ## Tests -/

/-- `oref.hash().as_slice() == r.txid.as_slice() && oref.index() as u32 == r.index`. -/
def TransactionInput.matchesRef (input : TransactionInput) (r : Tir.UtxoRef) : Bool :=
  decide (input.hash.bytes = r.txid) && decide (input.index.toUInt32 = r.index)

/-- `output.address().ok().map(|a| a.to_vec() == req).unwrap_or(false)`. -/
def MultiEraOutput.isAt (output : MultiEraOutput) (req : ByteBuf) : Bool :=
  match output.address with
  | some a => decide (a = req)
  | none => false

theorem isAt_iff {output : MultiEraOutput} {req : ByteBuf} :
    output.isAt req = true ↔ output.address = some req := by
  unfold MultiEraOutput.isAt
  cases output.address <;> simp

/-! ## Inputs (lines 166–248) -/

/-- The loop `for r in refs` of `assign_input`: each reference claims the first free input
    that has it; `none` is the early `return Ok(None)`. -/
def claimRefs (inputs : List TransactionInput) :
    List Tir.UtxoRef → List Bool → Option (List ℕ × List Bool)
  | [], consumed => some ([], consumed)
  | r :: refs, consumed =>
    match claim (fun i => i.matchesRef r) true 0 inputs consumed with
    | ([], _) => none
    | (m, consumed') => (claimRefs inputs refs consumed').map fun rest => (m ++ rest.1, rest.2)

/-- `address_ok` in `assign_input_by_query`. -/
def addressOk (P : Pallas) (payload : CardanoPayload) (reqAddr : Option ByteBuf)
    (input : TransactionInput) : Bool :=
  match reqAddr with
  | some req =>
    match payload.resolvedOutput P input with
    | some output => output.isAt req
    | none => false
  | none => true

/-- `assign_input_by_query`. -/
def assignInputByQuery (P : Pallas) (query : InputQuery) (payload : CardanoPayload)
    (inputConsumed : List Bool) : Except CardanoLiftError (List ℕ × List Bool) := do
  let reqAddr := constAddress query.address
  let parsed ← payload.parsed P
  return claim (addressOk P payload reqAddr) (!query.many) 0 parsed.inputs inputConsumed

/-- `assign_input`. -/
def assignInput (P : Pallas) (utxos : Expression) (payload : CardanoPayload)
    (inputConsumed : List Bool) : Except CardanoLiftError (Option (List ℕ × List Bool)) :=
  match constUtxoRefs utxos with
  | some refs => do
    let parsed ← payload.parsed P
    return claimRefs parsed.inputs refs inputConsumed
  | none =>
    match expectInputQuery utxos with
    | some query => do
      let assigned ← assignInputByQuery P query payload inputConsumed
      return some assigned
    | none => return some ([], inputConsumed)

/-- The loop over `specialized.inputs` (lines 28–35). -/
def matchInputs (P : Pallas) (payload : CardanoPayload) :
    List Tir.Input → List Bool → Except CardanoLiftError (Option (List (List ℕ)))
  | [], _ => return some []
  | tirInput :: rest, consumed => do
    match ← assignInput P tirInput.utxos payload consumed with
    | none => return none
    | some (assigned, consumed') =>
      let inputMap ← matchInputs P payload rest consumed'
      return inputMap.map (assigned :: ·)

/-! ## Outputs, mints, burns and references (lines 37–149) -/

/-- The body of the loop over `specialized.outputs` (lines 38–63). -/
def matchOutput (payloadOutputs : List MultiEraOutput) (tirOutput : Tir.Output)
    (outputConsumed : List Bool) : Option (List ℕ × List Bool) :=
  let reqAddr := constAddress tirOutput.address
  let matched := claim (fun output : MultiEraOutput => match reqAddr with
    | some req => output.isAt req
    | none => true) true 0 payloadOutputs outputConsumed
  if matched.1.isEmpty && !tirOutput.optional then none else some matched

/-- The body shared by the loops over `specialized.mints` (lines 66–90) and
    `specialized.burns` (lines 93–117); `touches` is the sign test. -/
def matchPolicy (touches : MultiEraAsset → Bool) (payloadMints : List MultiEraPolicyAssets)
    (tirMint : Tir.Mint) (consumed : List Bool) : Option (List ℕ × List Bool) :=
  let policies := constPoliciesIn tirMint.amount
  let matched := claim (fun p : MultiEraPolicyAssets =>
    (policies.isEmpty || policies.any fun req => decide (req = p.policy.bytes)) &&
      p.assets.any touches) true 0 payloadMints consumed
  if matched.1.isEmpty then none else some matched

/-- The mint loop: `a.any_coin() > 0`. -/
def matchMint : List MultiEraPolicyAssets → Tir.Mint → List Bool → Option (List ℕ × List Bool) :=
  matchPolicy fun a => decide (a.anyCoin > 0)

/-- The burn loop: `a.any_coin() < 0`. -/
def matchBurn : List MultiEraPolicyAssets → Tir.Mint → List Bool → Option (List ℕ × List Bool) :=
  matchPolicy fun a => decide (a.anyCoin < 0)

/-- The loop `for r in refs` over the pinned references of one TIR reference: unlike
    `claimRefs`, a reference that is not found is skipped. -/
def claimPresentRefs (payloadRefs : List TransactionInput) :
    List Tir.UtxoRef → List Bool → List ℕ × List Bool
  | [], consumed => ([], consumed)
  | r :: refs, consumed =>
    let matched := claim (fun i => i.matchesRef r) true 0 payloadRefs consumed
    let rest := claimPresentRefs payloadRefs refs matched.2
    (matched.1 ++ rest.1, rest.2)

/-- The body of the loop over `specialized.references` (lines 120–149). -/
def matchReference (payloadRefs : List TransactionInput) (tirRef : Expression)
    (refConsumed : List Bool) : Option (List ℕ × List Bool) :=
  let matched := match constUtxoRefs tirRef with
    | some refs => claimPresentRefs payloadRefs refs refConsumed
    | none => claim (fun _ => true) true 0 payloadRefs refConsumed
  if matched.1.isEmpty then none else some matched

/-- `match_tx` (lines 9–164). -/
def matchTx (P : Pallas) (specialized : Tir.Tx) (payload : CardanoPayload)
    (profileName txName : String) : Except CardanoLiftError (Option MatchAssignment) := do
  let parsed ← payload.parsed P
  let unused : ℕ → List Bool := fun n => List.replicate n false
  let some inputMap ← matchInputs P payload specialized.inputs (unused parsed.inputs.length)
    | return none
  let some outputMap := assignAll (matchOutput parsed.outputs) specialized.outputs
    (unused parsed.outputs.length) | return none
  let some mintMap := assignAll (matchMint parsed.mints) specialized.mints
    (unused parsed.mints.length) | return none
  let some burnMap := assignAll (matchBurn parsed.mints) specialized.burns
    (unused parsed.mints.length) | return none
  let some referenceMap := assignAll (matchReference parsed.referenceInputs)
    specialized.references (unused parsed.referenceInputs.length) | return none
  return some
    { txName := txName
      profileName := profileName
      inputMap := inputMap
      outputMap := outputMap
      referenceMap := referenceMap
      mintMap := mintMap
      burnMap := burnMap
      collateralMap := List.replicate specialized.collateral.length [] }

/-! ## The input loop without its error path -/

/-- `assign_input` on the inputs of the parsed payload. -/
def assignInputOn (P : Pallas) (payload : CardanoPayload) (tx : MultiEraTx) (tirInput : Tir.Input)
    (consumed : List Bool) : Option (List ℕ × List Bool) :=
  match constUtxoRefs tirInput.utxos with
  | some refs => claimRefs tx.inputs refs consumed
  | none =>
    match expectInputQuery tirInput.utxos with
    | some query => some (claim (addressOk P payload (constAddress query.address)) (!query.many) 0
        tx.inputs consumed)
    | none => some ([], consumed)

section Parsed

variable {P : Pallas} {payload : CardanoPayload} {tx : MultiEraTx}

theorem assignInput_eq (hparse : payload.parsed P = .ok tx) (tirInput : Tir.Input)
    (consumed : List Bool) :
    assignInput P tirInput.utxos payload consumed =
      .ok (assignInputOn P payload tx tirInput consumed) := by
  unfold assignInput assignInputOn
  cases constUtxoRefs tirInput.utxos with
  | some refs => simp [hparse, bind, Except.bind, pure, Except.pure]
  | none =>
    cases expectInputQuery tirInput.utxos with
    | some query =>
      simp [assignInputByQuery, hparse, bind, Except.bind, pure, Except.pure]
    | none => rfl

/-- The payload is parsed again for every input; when it parses once it parses always. -/
theorem matchInputs_eq (hparse : payload.parsed P = .ok tx) :
    ∀ (inputs : List Tir.Input) (consumed : List Bool),
      matchInputs P payload inputs consumed =
        .ok (assignAll (assignInputOn P payload tx) inputs consumed) := by
  intro inputs
  induction inputs with
  | nil => intro consumed; rfl
  | cons i inputs ih =>
    intro consumed
    rw [matchInputs, assignInput_eq hparse, assignAll]
    cases assignInputOn P payload tx i consumed with
    | none => rfl
    | some r =>
      obtain ⟨assigned, consumed'⟩ := r
      simp [ih, bind, Except.bind, pure, Except.pure]

/-- `match_tx` on a parsed payload: five loops, the first failure of which ends it. -/
theorem matchTx_parsed (hparse : payload.parsed P = .ok tx) (t : Tir.Tx)
    (profileName txName : String) :
    matchTx P t payload profileName txName = .ok (do
      let inputMap ← assignAll (assignInputOn P payload tx) t.inputs
        (List.replicate tx.inputs.length false)
      let outputMap ← assignAll (matchOutput tx.outputs) t.outputs
        (List.replicate tx.outputs.length false)
      let mintMap ← assignAll (matchMint tx.mints) t.mints (List.replicate tx.mints.length false)
      let burnMap ← assignAll (matchBurn tx.mints) t.burns (List.replicate tx.mints.length false)
      let referenceMap ← assignAll (matchReference tx.referenceInputs) t.references
        (List.replicate tx.referenceInputs.length false)
      some
        { txName := txName
          profileName := profileName
          inputMap := inputMap
          outputMap := outputMap
          referenceMap := referenceMap
          mintMap := mintMap
          burnMap := burnMap
          collateralMap := List.replicate t.collateral.length [] }) := by
  simp only [matchTx, hparse, matchInputs_eq hparse, bind, Except.bind, pure, Except.pure]
  cases assignAll (assignInputOn P payload tx) t.inputs _ with
  | none => rfl
  | some inputMap =>
    cases assignAll (matchOutput tx.outputs) t.outputs _ with
    | none => rfl
    | some outputMap =>
      cases assignAll (matchMint tx.mints) t.mints _ with
      | none => rfl
      | some mintMap =>
        cases assignAll (matchBurn tx.mints) t.burns _ with
        | none => rfl
        | some burnMap =>
          cases assignAll (matchReference tx.referenceInputs) t.references _ <;> rfl

/-- The five loops, when `match_tx` returns an assignment. -/
theorem matchTx_eq (hparse : payload.parsed P = .ok tx) {t : Tir.Tx} {profileName txName : String}
    {a : MatchAssignment} (h : matchTx P t payload profileName txName = .ok (some a)) :
    assignAll (assignInputOn P payload tx) t.inputs
      (List.replicate tx.inputs.length false) = some a.inputMap ∧
    assignAll (matchOutput tx.outputs) t.outputs
      (List.replicate tx.outputs.length false) = some a.outputMap ∧
    assignAll (matchMint tx.mints) t.mints (List.replicate tx.mints.length false) =
      some a.mintMap ∧
    assignAll (matchBurn tx.mints) t.burns (List.replicate tx.mints.length false) =
      some a.burnMap ∧
    assignAll (matchReference tx.referenceInputs) t.references
      (List.replicate tx.referenceInputs.length false) = some a.referenceMap := by
  rw [matchTx_parsed hparse, Except.ok.injEq] at h
  obtain ⟨inputMap, hin, h⟩ := Option.bind_eq_some_iff.mp h
  obtain ⟨outputMap, hout, h⟩ := Option.bind_eq_some_iff.mp h
  obtain ⟨mintMap, hmint, h⟩ := Option.bind_eq_some_iff.mp h
  obtain ⟨burnMap, hburn, h⟩ := Option.bind_eq_some_iff.mp h
  obtain ⟨referenceMap, href, h⟩ := Option.bind_eq_some_iff.mp h
  cases h
  exact ⟨hin, hout, hmint, hburn, href⟩

theorem matchTx_total (hparse : payload.parsed P = .ok tx) (t : Tir.Tx)
    (profileName txName : String) : ∃ r, matchTx P t payload profileName txName = .ok r :=
  ⟨_, matchTx_parsed hparse t profileName txName⟩

end Parsed

/-- The names are written into the assignment and not read. -/
theorem matchTx_names {P : Pallas} {payload : CardanoPayload} {t : Tir.Tx}
    (profileName txName profileName' txName' : String) :
    matchTx P t payload profileName txName = (matchTx P t payload profileName' txName').map
      fun r => r.map fun a => { a with profileName := profileName, txName := txName } := by
  cases hparse : payload.parsed P with
  | error e => simp [matchTx, hparse, bind, Except.bind, Except.map]
  | ok tx =>
    rw [matchTx_parsed hparse, matchTx_parsed hparse]
    simp only [Except.map, Option.bind_eq_bind, Option.map_bind, Function.comp_def,
      Option.map_some]

/-! ## What each loop body claims -/

section Specs

/-- A scan that stops at the first hit claims one slot or none. -/
theorem claim_once {α : Type} {p : α → Bool} {xs : List α} {consumed : List Bool}
    (hlen : consumed.length = xs.length) (h : (claim p true 0 xs consumed).1 ≠ []) :
    ∃ s x, (claim p true 0 xs consumed).1 = [s] ∧ xs[s]? = some x ∧ p x = true := by
  obtain ⟨-, hslots, honce⟩ := claim_spec p true hlen
  have hle := honce rfl
  match hm : (claim p true 0 xs consumed).1, h, hle with
  | [s], _, _ =>
    obtain ⟨x, hx, hp⟩ := hslots s (by rw [hm]; simp)
    exact ⟨s, x, rfl, hx, hp⟩

theorem claimRefs_spec {inputs : List TransactionInput} :
    ∀ {refs : List Tir.UtxoRef} {consumed consumed' : List Bool} {m : List ℕ},
      consumed.length = inputs.length → claimRefs inputs refs consumed = some (m, consumed') →
      Claims consumed m consumed' ∧
      List.Forall₂ (fun r s => ∃ i, inputs[s]? = some i ∧ i.matchesRef r = true) refs m := by
  intro refs
  induction refs with
  | nil =>
    intro consumed consumed' m _ h
    cases h
    exact ⟨Claims.nil _, List.Forall₂.nil⟩
  | cons r refs ih =>
    intro consumed consumed' m hlen h
    obtain ⟨hclaims, -, -⟩ := claim_spec (fun i : TransactionInput => i.matchesRef r) true hlen
    have hone := claim_once (p := fun i : TransactionInput => i.matchesRef r) hlen
    rw [claimRefs] at h
    split at h
    · cases h
    · rename_i m₁ consumed₁ hne heq
      rw [heq] at hclaims hone
      obtain ⟨rest, hrest, hpair⟩ := Option.map_eq_some_iff.mp h
      obtain ⟨m₂, consumed₂⟩ := rest
      cases hpair
      obtain ⟨s, i, rfl, hi, hr⟩ := hone hne
      obtain ⟨h1, h2⟩ := ih (hclaims.length_eq.trans hlen) hrest
      exact ⟨hclaims.append h1, List.Forall₂.cons ⟨i, hi, hr⟩ h2⟩

theorem claimPresentRefs_spec {inputs : List TransactionInput} :
    ∀ (refs : List Tir.UtxoRef) {consumed : List Bool}, consumed.length = inputs.length →
      Claims consumed (claimPresentRefs inputs refs consumed).1
        (claimPresentRefs inputs refs consumed).2 ∧
      ∀ s ∈ (claimPresentRefs inputs refs consumed).1,
        ∃ r ∈ refs, ∃ i, inputs[s]? = some i ∧ i.matchesRef r = true := by
  intro refs
  induction refs with
  | nil => intro consumed _; exact ⟨Claims.nil _, by simp [claimPresentRefs]⟩
  | cons r refs ih =>
    intro consumed hlen
    obtain ⟨hclaims, hslots, -⟩ := claim_spec (fun i : TransactionInput => i.matchesRef r) true hlen
    obtain ⟨h1, h2⟩ := ih (hclaims.length_eq.trans hlen)
    rw [claimPresentRefs]
    refine ⟨hclaims.append h1, fun s hs => ?_⟩
    rcases List.mem_append.mp hs with hs | hs
    · exact ⟨r, by simp, hslots s hs⟩
    · obtain ⟨r', hr', hi⟩ := h2 s hs
      exact ⟨r', by simp [hr'], hi⟩

variable {P : Pallas} {payload : CardanoPayload} {tx : MultiEraTx}

/-- The test of the scans, with the index cut to 32 bits. -/
theorem matchesRef_iff_key {input : TransactionInput} {r : Tir.UtxoRef} :
    input.matchesRef r = true ↔ input.key = (r.txid, r.index) := by
  rw [TransactionInput.matchesRef, Bool.and_eq_true, decide_eq_true_eq, decide_eq_true_eq,
    Prod.ext_iff]
  rfl

/-- The truncated test of the scans is equality of references when indices fit. -/
theorem matchesRef_iff {input : TransactionInput} (h : input.index.toNat < 2 ^ 32)
    (r : Tir.UtxoRef) : input.matchesRef r = true ↔ input.IsRef (r.txid, r.index) :=
  matchesRef_iff_key.trans (key_eq_iff h _)

theorem addressOk_iff {input : TransactionInput} (h : input.index.toNat < 2 ^ 32) {req : ByteBuf} :
    addressOk P payload (some req) input = true ↔
      ∃ output, payload.Resolves P input output ∧ output.address = some req := by
  simp only [← resolvedOutput_eq_some h]
  unfold addressOk
  cases payload.resolvedOutput P input <;> simp [isAt_iff]

/-- The slots of one template input. -/
structure InputSlots (P : Pallas) (payload : CardanoPayload) (tx : MultiEraTx)
    (tirInput : Tir.Input) (slots : List ℕ) : Prop where
  /-- Pinned references are found in order, … -/
  pinned : ∀ refs, constUtxoRefs tirInput.utxos = some refs →
    List.Forall₂ (fun r s => ∃ i, tx.inputs[s]? = some i ∧ i.IsRef (r.txid, r.index)) refs slots
  /-- … and no input that has one of them is left out. -/
  complete : ∀ refs, constUtxoRefs tirInput.utxos = some refs → ∀ i ∈ tx.inputs, ∀ r ∈ refs,
    i.IsRef (r.txid, r.index) → ∃ s ∈ slots, tx.inputs[s]? = some i
  atAddress : ∀ query addr, expectInputQuery tirInput.utxos = some query →
    constAddress query.address = some addr → ∀ s ∈ slots, ∃ i output, tx.inputs[s]? = some i ∧
      payload.Resolves P i output ∧ output.address = some addr
  single : ∀ query, expectInputQuery tirInput.utxos = some query → query.many = false →
    slots.length ≤ 1

/-- The slots of one template output. -/
structure OutputSlots (tx : MultiEraTx) (tirOutput : Tir.Output) (slots : List ℕ) : Prop where
  count : if tirOutput.optional then slots.length ≤ 1 else slots.length = 1
  atAddress : ∀ addr, constAddress tirOutput.address = some addr → ∀ s ∈ slots,
    ∃ output, tx.outputs[s]? = some output ∧ output.address = some addr

/-- The slot of one template mint or burn, whose amounts are of the sign `sign`. -/
def PolicySlots (sign : ℤ → Prop) (tx : MultiEraTx) (tirMint : Tir.Mint) (slots : List ℕ) : Prop :=
  ∃ s p, slots = [s] ∧ tx.mints[s]? = some p ∧ (∃ a ∈ p.assets, sign a.anyCoin) ∧
    (constPoliciesIn tirMint.amount ≠ [] → p.policy.bytes ∈ constPoliciesIn tirMint.amount)

/-- The slots of one template reference. -/
structure ReferenceSlots (tx : MultiEraTx) (tirRef : Expression) (slots : List ℕ) : Prop where
  nonempty : slots ≠ []
  pinned : ∀ refs, constUtxoRefs tirRef = some refs → ∀ s ∈ slots,
    ∃ i, tx.referenceInputs[s]? = some i ∧ ∃ r ∈ refs, i.IsRef (r.txid, r.index)

theorem isRef_unique {i j : TransactionInput} {r : UtxoRef} (hi : i.IsRef r) (hj : j.IsRef r) :
    i = j := by
  have hhash : i.hash = j.hash := Hash.ext_bytes (hi.1.trans hj.1.symm)
  have hindex : i.index = j.index := UInt64.toNat_inj.mp (hi.2.trans hj.2.symm)
  cases i
  cases j
  rw [TransactionInput.mk.injEq]
  exact ⟨hhash, hindex⟩

/-- Pinned references that are found in order. -/
theorem inputSlots_of_refs {tirInput : Tir.Input} {refs : List Tir.UtxoRef} {slots : List ℕ}
    (hrefs : constUtxoRefs tirInput.utxos = some refs)
    (hpinned : List.Forall₂
      (fun r s => ∃ i, tx.inputs[s]? = some i ∧ i.IsRef (r.txid, r.index)) refs slots) :
    InputSlots P payload tx tirInput slots := by
  have hquery := expectInputQuery_of_constUtxoRefs hrefs
  refine ⟨?_, ?_, ?_, ?_⟩
  · intro refs' heq
    cases hrefs.symm.trans heq
    exact hpinned
  · intro refs' heq i hi r hr hir
    cases hrefs.symm.trans heq
    obtain ⟨s, hs, j, hj, hjr⟩ := exists_right_of_forall₂ hpinned hr
    exact ⟨s, hs, by rw [hj, isRef_unique hjr hir]⟩
  · intro query addr heq
    rw [hquery] at heq
    cases heq
  · intro query heq
    rw [hquery] at heq
    cases heq

/-- Inputs that the scan of a query claims. -/
theorem inputSlots_of_query (hfit : tx.IndicesFit) {tirInput : Tir.Input} {query : InputQuery}
    {slots : List ℕ} (hrefs : constUtxoRefs tirInput.utxos = none)
    (hquery : expectInputQuery tirInput.utxos = some query)
    (hslots : ∀ s ∈ slots, ∃ i, tx.inputs[s]? = some i ∧
      addressOk P payload (constAddress query.address) i = true)
    (honce : query.many = false → slots.length ≤ 1) : InputSlots P payload tx tirInput slots := by
  refine ⟨by simp [hrefs], by simp [hrefs], ?_, ?_⟩
  · intro query' addr heq haddr s hs
    cases hquery.symm.trans heq
    obtain ⟨i, hi, hok⟩ := hslots s hs
    have hlt := hfit i (List.mem_append_left _ (List.mem_of_getElem? hi))
    rw [haddr, addressOk_iff hlt] at hok
    obtain ⟨output, hres, hat⟩ := hok
    exact ⟨i, output, hi, hres, hat⟩
  · intro query' heq hmany
    cases hquery.symm.trans heq
    exact honce hmany

/-- What is done for one template input, by the shape of its `utxos`. -/
theorem assignInputOn_cases (P : Pallas) (payload : CardanoPayload) (tx : MultiEraTx)
    (tirInput : Tir.Input) (consumed : List Bool) :
    (∃ refs, constUtxoRefs tirInput.utxos = some refs ∧
      assignInputOn P payload tx tirInput consumed = claimRefs tx.inputs refs consumed) ∨
    (∃ query, constUtxoRefs tirInput.utxos = none ∧
      expectInputQuery tirInput.utxos = some query ∧
      assignInputOn P payload tx tirInput consumed =
        some (claim (addressOk P payload (constAddress query.address)) (!query.many) 0
          tx.inputs consumed)) ∨
    (constUtxoRefs tirInput.utxos = none ∧ expectInputQuery tirInput.utxos = none ∧
      assignInputOn P payload tx tirInput consumed = some ([], consumed)) := by
  unfold assignInputOn
  cases constUtxoRefs tirInput.utxos with
  | some refs => exact Or.inl ⟨refs, rfl, rfl⟩
  | none =>
    cases expectInputQuery tirInput.utxos with
    | some query => exact Or.inr (Or.inl ⟨query, rfl, rfl, rfl⟩)
    | none => exact Or.inr (Or.inr ⟨rfl, rfl, rfl⟩)

theorem assignInputOn_of_query {tirInput : Tir.Input} {query : InputQuery}
    (hquery : expectInputQuery tirInput.utxos = some query) (consumed : List Bool) :
    assignInputOn P payload tx tirInput consumed =
      some (claim (addressOk P payload (constAddress query.address)) (!query.many) 0 tx.inputs
        consumed) := by
  simp only [assignInputOn, constUtxoRefs_of_expectInputQuery hquery, hquery]

/-- Whatever the indices of the inputs: the slots of a template input are claims, and those
    of a query pass its test. -/
theorem assignInputOn_claims {tirInput : Tir.Input} {consumed consumed' : List Bool} {m : List ℕ}
    (hlen : consumed.length = tx.inputs.length)
    (h : assignInputOn P payload tx tirInput consumed = some (m, consumed')) :
    Claims consumed m consumed' ∧
      ∀ query, expectInputQuery tirInput.utxos = some query → ∀ s ∈ m,
        ∃ i, tx.inputs[s]? = some i ∧
          addressOk P payload (constAddress query.address) i = true := by
  rcases assignInputOn_cases P payload tx tirInput consumed with
    ⟨refs, hrefs, heq⟩ | ⟨query, -, hquery, heq⟩ | ⟨-, hquery, heq⟩
  · rw [heq] at h
    exact ⟨(claimRefs_spec hlen h).1, by simp [expectInputQuery_of_constUtxoRefs hrefs]⟩
  · obtain ⟨hclaims, hslots, -⟩ :=
      claim_spec (addressOk P payload (constAddress query.address)) (!query.many) hlen
    rw [Option.some.inj (heq.symm.trans h)] at hclaims hslots
    refine ⟨hclaims, fun query' hquery' => ?_⟩
    cases hquery.symm.trans hquery'
    exact hslots
  · cases heq.symm.trans h
    exact ⟨Claims.nil _, by simp [hquery]⟩

theorem assignInputOn_spec (hfit : tx.IndicesFit) {tirInput : Tir.Input}
    {consumed consumed' : List Bool} {m : List ℕ} (hlen : consumed.length = tx.inputs.length)
    (h : assignInputOn P payload tx tirInput consumed = some (m, consumed')) :
    Claims consumed m consumed' ∧ InputSlots P payload tx tirInput m := by
  obtain ⟨hclaims, hslots⟩ := assignInputOn_claims hlen h
  refine ⟨hclaims, ?_⟩
  rcases assignInputOn_cases P payload tx tirInput consumed with
    ⟨refs, hrefs, heq⟩ | ⟨query, hrefs, hquery, heq⟩ | ⟨hrefs, hquery, heq⟩
  · rw [heq] at h
    obtain ⟨-, hfound⟩ := claimRefs_spec hlen h
    refine inputSlots_of_refs hrefs (hfound.imp fun r s ⟨i, hi, hr⟩ => ⟨i, hi, ?_⟩)
    exact (matchesRef_iff (hfit i (List.mem_append_left _ (List.mem_of_getElem? hi))) r).mp hr
  · obtain ⟨-, -, honce⟩ :=
      claim_spec (addressOk P payload (constAddress query.address)) (!query.many) hlen
    rw [Option.some.inj (heq.symm.trans h)] at honce
    refine inputSlots_of_query hfit hrefs hquery (hslots query hquery) fun hmany => honce ?_
    rw [hmany]
    rfl
  · cases heq.symm.trans h
    exact ⟨by simp [hrefs], by simp [hrefs], by simp [hquery], by simp [hquery]⟩

/-- The test of the scan for one template output. -/
def outputOk (tirOutput : Tir.Output) (output : MultiEraOutput) : Bool :=
  match constAddress tirOutput.address with
  | some req => output.isAt req
  | none => true

theorem matchOutput_eq (outputs : List MultiEraOutput) (tirOutput : Tir.Output)
    (consumed : List Bool) :
    matchOutput outputs tirOutput consumed =
      if (claim (outputOk tirOutput) true 0 outputs consumed).1.isEmpty && !tirOutput.optional
      then none else some (claim (outputOk tirOutput) true 0 outputs consumed) := rfl

theorem matchOutput_spec {tirOutput : Tir.Output} {consumed consumed' : List Bool} {m : List ℕ}
    (hlen : consumed.length = tx.outputs.length)
    (h : matchOutput tx.outputs tirOutput consumed = some (m, consumed')) :
    Claims consumed m consumed' ∧ OutputSlots tx tirOutput m := by
  rw [matchOutput_eq] at h
  split_ifs at h with hempty
  obtain ⟨hclaims, hslots, honce⟩ := claim_spec (outputOk tirOutput) true hlen
  rw [Option.some.inj h] at hclaims hslots honce hempty
  refine ⟨hclaims, ⟨?_, ?_⟩⟩
  · have hle : m.length ≤ 1 := honce rfl
    split_ifs with hopt
    · exact hle
    · have hne : m ≠ [] := by simpa [hopt] using hempty
      have := List.length_pos_iff.mpr hne
      omega
  · intro addr haddr s hs
    obtain ⟨output, ho, hat⟩ := hslots s hs
    rw [outputOk, haddr] at hat
    exact ⟨output, ho, isAt_iff.mp hat⟩

/-- The test of the scan for one mint or burn. -/
def policyOk (touches : MultiEraAsset → Bool) (tirMint : Tir.Mint) (p : MultiEraPolicyAssets) :
    Bool :=
  ((constPoliciesIn tirMint.amount).isEmpty ||
    (constPoliciesIn tirMint.amount).any fun req => decide (req = p.policy.bytes)) &&
    p.assets.any touches

theorem matchPolicy_eq (touches : MultiEraAsset → Bool) (field : List MultiEraPolicyAssets)
    (tirMint : Tir.Mint) (consumed : List Bool) :
    matchPolicy touches field tirMint consumed =
      if (claim (policyOk touches tirMint) true 0 field consumed).1.isEmpty then none
      else some (claim (policyOk touches tirMint) true 0 field consumed) := rfl

theorem matchPolicy_claims {touches : MultiEraAsset → Bool} {tirMint : Tir.Mint}
    {consumed consumed' : List Bool} {m : List ℕ} (hlen : consumed.length = tx.mints.length)
    (h : matchPolicy touches tx.mints tirMint consumed = some (m, consumed')) :
    Claims consumed m consumed' := by
  rw [matchPolicy_eq] at h
  split_ifs at h
  obtain ⟨hclaims, -, -⟩ := claim_spec (policyOk touches tirMint) true hlen
  rwa [Option.some.inj h] at hclaims

theorem matchPolicy_spec {touches : MultiEraAsset → Bool} {sign : ℤ → Prop}
    (hsign : ∀ a, touches a = true ↔ sign a.anyCoin) {tirMint : Tir.Mint}
    {consumed consumed' : List Bool} {m : List ℕ} (hlen : consumed.length = tx.mints.length)
    (h : matchPolicy touches tx.mints tirMint consumed = some (m, consumed')) :
    Claims consumed m consumed' ∧ PolicySlots sign tx tirMint m := by
  refine ⟨matchPolicy_claims hlen h, ?_⟩
  rw [matchPolicy_eq] at h
  split_ifs at h with hempty
  obtain ⟨s, p, hm, hp, hok⟩ := claim_once hlen (by simpa using hempty)
  rw [Option.some.inj h] at hm
  simp only [policyOk, Bool.and_eq_true, Bool.or_eq_true, List.any_eq_true, decide_eq_true_eq,
    List.isEmpty_iff, hsign, exists_eq_right] at hok
  exact ⟨s, p, hm, hp, hok.2, fun hne => hok.1.resolve_left hne⟩

theorem matchMint_spec {tirMint : Tir.Mint} {consumed consumed' : List Bool} {m : List ℕ}
    (hlen : consumed.length = tx.mints.length)
    (h : matchMint tx.mints tirMint consumed = some (m, consumed')) :
    Claims consumed m consumed' ∧ PolicySlots (0 < ·) tx tirMint m :=
  matchPolicy_spec (fun _ => decide_eq_true_iff) hlen h

theorem matchBurn_spec {tirMint : Tir.Mint} {consumed consumed' : List Bool} {m : List ℕ}
    (hlen : consumed.length = tx.mints.length)
    (h : matchBurn tx.mints tirMint consumed = some (m, consumed')) :
    Claims consumed m consumed' ∧ PolicySlots (· < 0) tx tirMint m :=
  matchPolicy_spec (fun _ => decide_eq_true_iff) hlen h

/-- What the loop body for a reference has claimed, by the shape of the reference. -/
theorem matchReference_eq_some {payloadRefs : List TransactionInput} {tirRef : Expression}
    {consumed : List Bool} {matched : List ℕ × List Bool}
    (h : matchReference payloadRefs tirRef consumed = some matched) :
    matched.1 ≠ [] ∧
      ((∃ refs, constUtxoRefs tirRef = some refs ∧
          matched = claimPresentRefs payloadRefs refs consumed) ∨
        (constUtxoRefs tirRef = none ∧
          matched = claim (fun _ => true) true 0 payloadRefs consumed)) := by
  simp only [matchReference] at h
  split_ifs at h with hempty
  cases h
  refine ⟨by simpa using hempty, ?_⟩
  cases constUtxoRefs tirRef with
  | some refs => exact Or.inl ⟨refs, rfl, rfl⟩
  | none => exact Or.inr ⟨rfl, rfl⟩

theorem matchReference_claims {tirRef : Expression} {consumed consumed' : List Bool} {m : List ℕ}
    (hlen : consumed.length = tx.referenceInputs.length)
    (h : matchReference tx.referenceInputs tirRef consumed = some (m, consumed')) :
    Claims consumed m consumed' := by
  obtain ⟨-, ⟨refs, -, heq⟩ | ⟨-, heq⟩⟩ := matchReference_eq_some h
  · obtain ⟨hclaims, -⟩ := claimPresentRefs_spec refs hlen
    rwa [← heq] at hclaims
  · obtain ⟨hclaims, -, -⟩ := claim_spec (fun _ : TransactionInput => true) true hlen
    rwa [← heq] at hclaims

theorem matchReference_spec (hfit : tx.IndicesFit) {tirRef : Expression}
    {consumed consumed' : List Bool} {m : List ℕ}
    (hlen : consumed.length = tx.referenceInputs.length)
    (h : matchReference tx.referenceInputs tirRef consumed = some (m, consumed')) :
    Claims consumed m consumed' ∧ ReferenceSlots tx tirRef m := by
  refine ⟨matchReference_claims hlen h, ?_⟩
  obtain ⟨hne, ⟨refs, hrefs, heq⟩ | ⟨hrefs, -⟩⟩ := matchReference_eq_some h
  · obtain ⟨-, hslots⟩ := claimPresentRefs_spec refs hlen
    rw [← heq] at hslots
    refine ⟨hne, fun refs' heq' s hs => ?_⟩
    cases hrefs.symm.trans heq'
    obtain ⟨r, hr, i, hi, hir⟩ := hslots s hs
    have hlt := hfit i (List.mem_append_right _ (List.mem_of_getElem? hi))
    exact ⟨i, hi, r, hr, (matchesRef_iff hlt r).mp hir⟩
  · exact ⟨hne, by simp [hrefs]⟩

end Specs

/-! ## Soundness -/

/-- The map of one kind of template items: one entry for each item, whose slots are as
    `Slots` says; the slots are in range and none is used twice. -/
structure MapSound {β : Type} (Slots : β → List ℕ → Prop) (items : List β) (range : ℕ)
    (map : List (List ℕ)) : Prop where
  entries : List.Forall₂ Slots items map
  nodup : map.flatten.Nodup
  inRange : ∀ s ∈ map.flatten, s < range

/-- What an assignment promises about the transaction. -/
structure AssignmentSound (P : Pallas) (payload : CardanoPayload) (tx : MultiEraTx)
    (specialized : Tir.Tx) (a : MatchAssignment) : Prop where
  inputs : MapSound (InputSlots P payload tx) specialized.inputs tx.inputs.length a.inputMap
  outputs : MapSound (OutputSlots tx) specialized.outputs tx.outputs.length a.outputMap
  mints : MapSound (PolicySlots (0 < ·) tx) specialized.mints tx.mints.length a.mintMap
  burns : MapSound (PolicySlots (· < 0) tx) specialized.burns tx.mints.length a.burnMap
  references : MapSound (ReferenceSlots tx) specialized.references tx.referenceInputs.length
    a.referenceMap

theorem mapSound_of_assignAll {β : Type} {f : β → List Bool → Option (List ℕ × List Bool)} {n : ℕ}
    {Slots : β → List ℕ → Prop} {items : List β} {map : List (List ℕ)}
    (h : assignAll f items (List.replicate n false) = some map)
    (hf : ∀ b u m u', u.length = n → f b u = some (m, u') → Claims u m u' ∧ Slots b m) :
    MapSound Slots items n map := by
  obtain ⟨h1, h2, h3⟩ := assignAll_spec hf h
  exact ⟨h1, h2, h3⟩

/-- **`match_tx` is sound.** -/
theorem matchTx_sound (P : Pallas) (specialized : Tir.Tx) (payload : CardanoPayload)
    (tx : MultiEraTx) (profileName txName : String) (a : MatchAssignment)
    (hparse : payload.parsed P = .ok tx) (hfit : tx.IndicesFit)
    (h : matchTx P specialized payload profileName txName = .ok (some a)) :
    AssignmentSound P payload tx specialized a := by
  obtain ⟨hin, hout, hmint, hburn, href⟩ := matchTx_eq hparse h
  refine ⟨?_, ?_, ?_, ?_, ?_⟩
  · exact mapSound_of_assignAll hin fun _ _ _ _ => assignInputOn_spec hfit
  · exact mapSound_of_assignAll hout fun _ _ _ _ => matchOutput_spec
  · exact mapSound_of_assignAll hmint fun _ _ _ _ => matchMint_spec
  · exact mapSound_of_assignAll hburn fun _ _ _ _ => matchBurn_spec
  · exact mapSound_of_assignAll href fun _ _ _ _ => matchReference_spec hfit

/-- A template that pins its input and asks for one output at a script address. -/
def sampleTemplate : Tir.Tx :=
  { references := []
    inputs := [{ name := "source", utxos := .utxoRefs [⟨Sample.spentTx.bytes, 0⟩] }]
    outputs := [{ address := .address Sample.scriptAddress, amount := .none, optional := false }]
    validity := none
    mints := []
    burns := []
    collateral := []
    signers := none
    metadata := [] }

theorem matchTx_sound_sample :
    AssignmentSound (Sample.pallas []) { raw := Sample.scriptTx.cbor } Sample.scriptTx
      sampleTemplate
      { txName := "touch", profileName := "preview", inputMap := [[0]], outputMap := [[0]],
        referenceMap := [], mintMap := [], burnMap := [], collateralMap := [] } :=
  matchTx_sound (Sample.pallas []) sampleTemplate { raw := Sample.scriptTx.cbor } Sample.scriptTx
    "preview" "touch" _ rfl (by decide) rfl

end Tx3Lift
