import Tx3Lift.Cardano.Complete
import Tx3Lift.Lib.Remains

/-!
# What is left for a query

A query of the template takes what the template inputs before it leave of the payload inputs
that pass its address test: the first one, or all. It never fails, and its `ref` is not read.

* `single_assigned_iff`, `query_elements`: what a query gets.
* `singles_assigned_iff`: when every single query of an accepted transaction has its input.
* `queryRefs_honoured_iff`: when every input of a query is one of its `ref`s.
-/

namespace Tx3Lift

open Lib Tir

section Queries

variable {P : Pallas} {payload : CardanoPayload} {tx : MultiEraTx} {specialized : Tir.Tx}
  {inputs : List Tir.Input} {k : ℕ} {tirInput : Tir.Input}

/-- What the template inputs before `k` ask for. -/
def requestsBefore (P : Pallas) (payload : CardanoPayload) (inputs : List Tir.Input) (k : ℕ) :
    List (Request TransactionInput) :=
  (inputs.take k).flatMap (Tir.Input.requests P payload)

/-- Every query before `k` accepts the same payload inputs as that of `tirInput`, or none that
    it accepts. -/
def Uncrossed (P : Pallas) (payload : CardanoPayload) (tx : MultiEraTx) (inputs : List Tir.Input)
    (k : ℕ) (tirInput : Tir.Input) : Prop :=
  ∀ earlier ∈ inputs.take k, ∀ query, expectInputQuery earlier.utxos = some query →
    (∀ i ∈ tx.inputs, addressOk P payload (constAddress query.address) i =
      addressOk P payload tirInput.queryAddress i) ∨
    ∀ i ∈ tx.inputs, addressOk P payload (constAddress query.address) i = true →
      addressOk P payload tirInput.queryAddress i = false

theorem query_of_isSingle (hsingle : tirInput.isSingle = true) :
    ∃ query, expectInputQuery tirInput.utxos = some query ∧ query.many = false := by
  unfold Tir.Input.isSingle at hsingle
  cases hquery : expectInputQuery tirInput.utxos with
  | none => simp [hquery] at hsingle
  | some query => exact ⟨query, rfl, by simpa [hquery] using hsingle⟩

/-- No query is crossed in a template whose queries all have constant addresses. -/
theorem uncrossed_of_addressed
    (h : ∀ i ∈ inputs, ∀ query, expectInputQuery i.utxos = some query →
      (constAddress query.address).isSome = true)
    (hmem : tirInput ∈ inputs) {query : InputQuery}
    (hquery : expectInputQuery tirInput.utxos = some query) :
    Uncrossed P payload tx inputs k tirInput := by
  intro earlier hearlier query' hquery'
  have haddr : tirInput.queryAddress = constAddress query.address := by
    rw [Tir.Input.queryAddress, hquery]
    rfl
  obtain ⟨addr, ha⟩ := Option.isSome_iff_exists.mp (h tirInput hmem query hquery)
  obtain ⟨addr', ha'⟩ :=
    Option.isSome_iff_exists.mp (h earlier (List.mem_of_mem_take hearlier) query' hquery')
  rw [haddr, ha, ha']
  by_cases hsame : addr' = addr
  · exact Or.inl fun i _ => by rw [hsame]
  · refine Or.inr fun i _ hok => ?_
    unfold addressOk at hok ⊢
    cases hres : payload.resolvedOutput P i with
    | none => rfl
    | some output =>
      simp only [hres] at hok ⊢
      rw [isAt_iff] at hok
      rw [Bool.eq_false_iff, ne_eq, isAt_iff, hok, Option.some.injEq]
      exact hsame

/-! ## Requests of the template inputs -/

theorem mem_requests {r : Request TransactionInput} (h : r ∈ tirInput.requests P payload) :
    (∃ refs, constUtxoRefs tirInput.utxos = some refs ∧ ∃ ref ∈ refs, r = refRequest true ref) ∨
    ∃ query, expectInputQuery tirInput.utxos = some query ∧
      r.test = addressOk P payload (constAddress query.address) ∧ r.once = !query.many ∧
      r.must = false := by
  cases hrefs : constUtxoRefs tirInput.utxos with
  | some refs =>
    rw [requests_of_refs hrefs] at h
    obtain ⟨ref, href, rfl⟩ := List.mem_map.mp h
    exact Or.inl ⟨refs, rfl, ref, href, rfl⟩
  | none =>
    cases hquery : expectInputQuery tirInput.utxos with
    | some query =>
      rw [requests_of_query hquery, List.mem_singleton] at h
      exact Or.inr ⟨query, rfl, by rw [h], by rw [h], by rw [h]⟩
    | none => simp [Tir.Input.requests, hrefs, hquery] at h

/-- A request looks at the key of an input only. -/
theorem requests_key {r : Request TransactionInput} (h : r ∈ requestsBefore P payload inputs k)
    {i j : TransactionInput} (hij : i.key = j.key) : r.test i = r.test j := by
  obtain ⟨earlier, -, hr⟩ := List.mem_flatMap.mp h
  rcases mem_requests hr with ⟨-, -, ref, -, rfl⟩ | ⟨query, -, htest, -⟩
  · exact matchesRef_of_key hij ref
  · rw [htest]
    exact addressOk_of_key hij _

/-- What `Uncrossed` says about the requests. -/
theorem uncrossed_requests (h : Uncrossed P payload tx inputs k tirInput) :
    ∀ r ∈ requestsBefore P payload inputs k, r.must = false →
      r.like tx.inputs (addressOk P payload tirInput.queryAddress) = true ∨
      ∀ i ∈ tx.inputs, r.test i = true → addressOk P payload tirInput.queryAddress i = false := by
  intro r hr hmust
  obtain ⟨earlier, hearlier, hr⟩ := List.mem_flatMap.mp hr
  rcases mem_requests hr with ⟨-, -, ref, -, rfl⟩ | ⟨query, hquery, htest, -⟩
  · cases hmust
  · rw [Request.like, htest]
    refine (h earlier hearlier query hquery).imp_left fun hsame => List.all_eq_true.mpr fun i hi => ?_
    rw [hsame i hi]
    exact beq_self_eq_true _

/-! ## What a query gets -/

/-- The requests of an accepted transaction that must be served are. -/
theorem must_served {map : List (List ℕ)}
    (h : assignAll (assignInputOn P payload tx) inputs
      (List.replicate tx.inputs.length false) = some map) :
    Served Request.must (requestsBefore P payload inputs k) tx.inputs := by
  have hstep : ∀ b u, u.length = tx.inputs.length →
      ((∃ r, assignInputOn P payload tx b u = some r ∧ True) ↔
        Served Request.must (b.requests P payload) (leftFrom 0 tx.inputs u)) := by
    intro b u hlen
    rcases assignInputOn_cases P payload tx b u with
      ⟨refs, hrefs, heq⟩ | ⟨query, -, hquery, heq⟩ | ⟨hrefs, hquery, heq⟩
    · rw [requests_of_refs hrefs, ← (claimRefs_served_iff (fun _ => rfl) refs hlen).1, heq]
      simp only [and_true]
    · rw [requests_of_query hquery, heq]
      simp [Served]
    · rw [heq]
      simp [Tir.Input.requests, hrefs, hquery, Served]
  obtain ⟨hentries, -, -⟩ := assignAll_spec (Q := fun _ _ => True)
    (fun _ _ _ _ hlen hb => ⟨(assignInputOn_claims hlen hb).1, trivial⟩) h
  have hall := (assignAll_served_iff
    (fun b _ _ hlen => @assignInputOn_serve P payload tx b _ _ hlen) hstep inputs
    (List.replicate tx.inputs.length false) List.length_replicate).mp ⟨map, h, hentries⟩
  rw [leftFrom_replicate, ← List.take_append_drop k inputs, List.flatMap_append] at hall
  exact (served_append.mp hall).1

theorem assignInputOn_single (hsingle : tirInput.isSingle = true) (consumed : List Bool) :
    assignInputOn P payload tx tirInput consumed =
      some (claim (addressOk P payload tirInput.queryAddress) true 0 tx.inputs consumed) := by
  obtain ⟨query, hquery, hmany⟩ := query_of_isSingle hsingle
  simp [assignInputOn_of_query hquery, hquery, hmany, Tir.Input.queryAddress]

/-- A single query gets an input exactly when one that passes its test is left. -/
theorem single_assigned_iff {map : List (List ℕ)}
    (h : assignAll (assignInputOn P payload tx) inputs
      (List.replicate tx.inputs.length false) = some map)
    (hk : inputs[k]? = some tirInput) (hsingle : tirInput.isSingle = true) :
    (∃ s, map[k]? = some [s]) ↔
      ∃ i ∈ leaveAll (requestsBefore P payload inputs k) tx.inputs,
        addressOk P payload tirInput.queryAddress i = true := by
  obtain ⟨u, hlen, hleft, hmap, hentry, -⟩ := assignAll_entry
    (fun b _ _ hlen => @assignInputOn_serve P payload tx b _ _ hlen) List.length_replicate h hk
  rw [assignInputOn_single hsingle, Option.some.injEq] at hentry
  rw [leftFrom_replicate] at hleft
  rw [hmap, ← hentry, requestsBefore, ← hleft, ← claim_once_iff _ hlen]
  simp only [Option.some.injEq]

/-- What a query gets: the inputs left that pass its test, or the first of them. -/
theorem query_elements {map : List (List ℕ)}
    (h : assignAll (assignInputOn P payload tx) inputs
      (List.replicate tx.inputs.length false) = some map)
    (hk : inputs[k]? = some tirInput) {query : InputQuery}
    (hquery : expectInputQuery tirInput.utxos = some query) :
    ∃ slots, map[k]? = some slots ∧ (∀ s ∈ slots, s < tx.inputs.length) ∧
      slots.filterMap (fun s => tx.inputs[s]?) =
        if tirInput.isSingle then
          ((leaveAll (requestsBefore P payload inputs k) tx.inputs).filter
            (addressOk P payload tirInput.queryAddress)).take 1
        else (leaveAll (requestsBefore P payload inputs k) tx.inputs).filter
          (addressOk P payload tirInput.queryAddress) := by
  obtain ⟨u, hlen, hleft, hmap, -, hfree⟩ := assignAll_entry
    (fun b _ _ hlen => @assignInputOn_serve P payload tx b _ _ hlen) List.length_replicate h hk
  rw [leftFrom_replicate] at hleft
  have haddr : tirInput.queryAddress = constAddress query.address := by
    rw [Tir.Input.queryAddress, hquery]
    rfl
  have hclaims := serve_claims (tirInput.requests P payload) hlen
  refine ⟨_, hmap, fun s hs => hlen ▸ hclaims.lt_length hs, ?_⟩
  rw [(serve_leftFrom _ hlen).1, hleft, requests_of_query hquery, giveAll, giveAll,
    List.append_nil, give_eq, isSingle_of_query hquery, haddr]
  rfl

/-! ## Single queries -/

/-- Every single query has exactly one payload input. -/
def SinglesAssigned (inputs : List Tir.Input) (inputMap : List (List ℕ)) : Prop :=
  ∀ (k : ℕ) (tirInput : Tir.Input), inputs[k]? = some tirInput → tirInput.isSingle = true →
    ∃ s, inputMap[k]? = some [s]

/-- The payload inputs that pass the test of the query and that no earlier `many` query
    accepts. -/
def openTo (P : Pallas) (payload : CardanoPayload) (inputs : List Tir.Input) (k : ℕ)
    (tirInput : Tir.Input) (i : TransactionInput) : Bool :=
  addressOk P payload tirInput.queryAddress i &&
    (requestsBefore P payload inputs k).all fun r => r.once || !r.test i

/-- Wherever an earlier template input accepts a payload input that passes the test of a single
    query, there are more payload inputs open to the query than earlier pinned references and
    single queries that accept one of them. -/
def InputsSuffice (P : Pallas) (payload : CardanoPayload) (tx : MultiEraTx)
    (inputs : List Tir.Input) : Prop :=
  ∀ (k : ℕ) (tirInput : Tir.Input), inputs[k]? = some tirInput → tirInput.isSingle = true →
    (∃ r ∈ requestsBefore P payload inputs k,
      r.touches tx.inputs (addressOk P payload tirInput.queryAddress) = true) →
    ((requestsBefore P payload inputs k).countP fun r =>
        r.once && r.touches tx.inputs (openTo P payload inputs k tirInput)) <
      tx.inputs.countP (openTo P payload inputs k tirInput)

/-- What the pre-filter guarantees to a single query: some payload input passes its test. -/
theorem exists_passes_of_admits {T : Tx3} {tii : TiiFile} {txName profileName : String}
    {args : ArgMap} {fp : Fingerprint}
    (hfp : extract T tii txName profileName specialized args = .ok fp)
    (hadmits : fp.Admits (summarizeTx P payload tx)) {tirInput : Tir.Input}
    (hmem : tirInput ∈ specialized.inputs) (hsingle : tirInput.isSingle = true) :
    ∃ i ∈ tx.inputs, addressOk P payload tirInput.queryAddress i = true := by
  cases haddr : tirInput.queryAddress with
  | none =>
    have hcount := hadmits.inputCount
    simp only [summarizeTx_eq, u16TryFrom] at hcount
    have hpos : 0 < tx.inputs.length := by
      have := minInputs_pos hfp hmem hsingle
      omega
    exact ⟨tx.inputs[0], List.getElem_mem hpos, rfl⟩
  | some addr =>
    have hreq := hadmits.inputAddresses addr
      ((mem_requiredInputAddresses hfp).mpr ⟨tirInput, hmem, haddr⟩)
    obtain ⟨i, hi, output, hres, hat⟩ := (mem_inputAddresses P payload tx).mp hreq
    refine ⟨i, hi, ?_⟩
    simp only [addressOk, hres]
    exact isAt_iff.mpr hat

/-- A query that no earlier template input can hurt. -/
theorem exists_left_of_untouched
    (h : ∀ r ∈ requestsBefore P payload inputs k,
      r.touches tx.inputs (addressOk P payload tirInput.queryAddress) = false)
    (hpasses : ∃ i ∈ tx.inputs, addressOk P payload tirInput.queryAddress i = true) :
    ∃ i ∈ leaveAll (requestsBefore P payload inputs k) tx.inputs,
      addressOk P payload tirInput.queryAddress i = true := by
  have hcount := countP_le_leaveAll fun r hr _ => h r hr
  have hnone : ((requestsBefore P payload inputs k).countP fun r =>
      r.once && r.touches tx.inputs (addressOk P payload tirInput.queryAddress)) = 0 := by
    rw [List.countP_eq_zero]
    intro r hr
    simp [h r hr]
  have hpos := List.countP_pos_iff.mpr hpasses
  exact List.countP_pos_iff.mp (by omega)

theorem openTo_of_left {i : TransactionInput}
    (hi : i ∈ leaveAll (requestsBefore P payload inputs k) tx.inputs)
    (hok : addressOk P payload tirInput.queryAddress i = true) :
    openTo P payload inputs k tirInput i = true := by
  rw [openTo, hok, Bool.true_and, List.all_eq_true]
  intro r hr
  cases honce : r.once with
  | true => rfl
  | false =>
    rw [not_test_of_mem_leaveAll honce hr hi]
    rfl

theorem not_touches_openTo {r : Request TransactionInput}
    (hr : r ∈ requestsBefore P payload inputs k) (honce : r.once = false) :
    r.touches tx.inputs (openTo P payload inputs k tirInput) = false := by
  rw [Request.touches, List.any_eq_false]
  intro i _ htouch
  obtain ⟨hopen, htest⟩ := Bool.and_eq_true_iff.mp htouch
  have hall := List.all_eq_true.mp (Bool.and_eq_true_iff.mp hopen).2 r hr
  rw [honce, htest] at hall
  cases hall

theorem openTo_of_key {i j : TransactionInput} (hij : i.key = j.key)
    (h : openTo P payload inputs k tirInput j = true) :
    openTo P payload inputs k tirInput i = true := by
  obtain ⟨hok, hall⟩ := Bool.and_eq_true_iff.mp h
  rw [openTo, addressOk_of_key hij, hok, Bool.true_and, List.all_eq_true]
  intro r hr
  rw [requests_key hr hij]
  exact List.all_eq_true.mp hall r hr

theorem once_of_must {r : Request TransactionInput}
    (hr : r ∈ requestsBefore P payload inputs k) (honce : r.once = false) : r.must = false := by
  obtain ⟨earlier, -, hmem⟩ := List.mem_flatMap.mp hr
  rcases mem_requests hmem with ⟨-, -, ref, -, rfl⟩ | ⟨-, -, -, -, hmust⟩
  · cases honce
  · exact hmust

/-- If one input is open to an uncrossed query, all are that pass its test. -/
theorem openTo_of_uncrossed (h : Uncrossed P payload tx inputs k tirInput)
    {i j : TransactionInput} (hi : i ∈ tx.inputs) (hj : j ∈ tx.inputs)
    (hopen : openTo P payload inputs k tirInput j = true)
    (hok : addressOk P payload tirInput.queryAddress i = true) :
    openTo P payload inputs k tirInput i = true := by
  obtain ⟨hjok, hjall⟩ := Bool.and_eq_true_iff.mp hopen
  rw [openTo, hok, Bool.true_and, List.all_eq_true]
  intro r hr
  have hjr := List.all_eq_true.mp hjall r hr
  cases honce : r.once with
  | true => rfl
  | false =>
    rw [honce, Bool.false_or] at hjr
    rw [Bool.false_or]
    rcases uncrossed_requests h r hr (once_of_must hr honce) with hlike | hapart
    · have hsame : r.test j = addressOk P payload tirInput.queryAddress j := by
        simpa using List.all_eq_true.mp hlike j hj
      rw [hsame, hjok] at hjr
      cases hjr
    · cases htest : r.test i with
      | false => rfl
      | true =>
        rw [hapart i hi htest] at hok
        cases hok

/-- What accepts one of the inputs open to an uncrossed query accepts no others. -/
theorem openTo_of_touches (h : Uncrossed P payload tx inputs k tirInput)
    {r : Request TransactionInput} (hr : r ∈ requestsBefore P payload inputs k)
    (htouch : r.touches tx.inputs (openTo P payload inputs k tirInput) = true)
    {i : TransactionInput} (hi : i ∈ tx.inputs) (htest : r.test i = true) :
    openTo P payload inputs k tirInput i = true := by
  obtain ⟨j, hj, hboth⟩ := List.any_eq_true.mp htouch
  obtain ⟨hopen, hjtest⟩ := Bool.and_eq_true_iff.mp hboth
  obtain ⟨earlier, -, hmem⟩ := List.mem_flatMap.mp hr
  rcases mem_requests hmem with ⟨-, -, ref, -, rfl⟩ | ⟨-, -, -, -, hmust⟩
  · -- a pinned reference accepts one key
    exact openTo_of_key
      ((matchesRef_iff_key.mp htest).trans (matchesRef_iff_key.mp hjtest).symm) hopen
  · rcases uncrossed_requests h r hr hmust with hlike | hapart
    · have hsame : r.test i = addressOk P payload tirInput.queryAddress i := by
        simpa using List.all_eq_true.mp hlike i hi
      exact openTo_of_uncrossed h hi hj hopen (hsame.symm.trans htest)
    · have hjok := hapart j hj hjtest
      rw [(Bool.and_eq_true_iff.mp hopen).1] at hjok
      cases hjok

/-- An assignment serves the template inputs exactly when every single query has its input. -/
theorem singlesAssigned_iff_dealt {map : List (List ℕ)}
    (h : assignAll (assignInputOn P payload tx) inputs
      (List.replicate tx.inputs.length false) = some map) :
    SinglesAssigned inputs map ↔ InputsDealt P payload tx inputs := by
  obtain ⟨hentries, -, -⟩ := assignAll_spec (Q := fun b m =>
      (InputServed P payload tx b m ↔ (b.isSingle = true → ∃ s, m = [s])))
    (fun _ _ _ _ hlen hb => ⟨(assignInputOn_claims hlen hb).1, inputServed_iff hlen hb⟩) h
  have hlength := hentries.length_eq
  rw [← assignInputs_served_iff]
  constructor
  · intro hsingles
    refine ⟨map, h, List.forall₂_iff_get.mpr ⟨hlength, fun k hk hk' => ?_⟩⟩
    have hb : inputs[k]? = some (inputs.get ⟨k, hk⟩) := List.getElem?_eq_getElem hk
    have hm : map[k]? = some (map.get ⟨k, hk'⟩) := List.getElem?_eq_getElem hk'
    rw [forall₂_getElem? hentries hb hm]
    intro hsingle
    obtain ⟨s, hs⟩ := hsingles k _ hb hsingle
    exact ⟨s, Option.some.inj (hm.symm.trans hs)⟩
  · rintro ⟨map', hmap', hserved⟩ k tirInput hk hsingle
    cases h.symm.trans hmap'
    have hlt : k < map.length := hlength ▸ (List.getElem?_eq_some_iff.mp hk).1
    have hm : map[k]? = some map[k] := List.getElem?_eq_getElem hlt
    obtain ⟨s, hs⟩ := (forall₂_getElem? hentries hk hm).mp (forall₂_getElem? hserved hk hm) hsingle
    exact ⟨s, hm.trans (congrArg some hs)⟩

/-- Inputs that suffice. -/
theorem singlesAssigned_of_suffice {map : List (List ℕ)}
    (h : assignAll (assignInputOn P payload tx) inputs
      (List.replicate tx.inputs.length false) = some map)
    (hpasses : ∀ tirInput ∈ inputs, tirInput.isSingle = true →
      ∃ i ∈ tx.inputs, addressOk P payload tirInput.queryAddress i = true)
    (hsuffice : InputsSuffice P payload tx inputs) : SinglesAssigned inputs map := by
  intro k tirInput hk hsingle
  rw [single_assigned_iff h hk hsingle]
  by_cases htouched : ∃ r ∈ requestsBefore P payload inputs k,
      r.touches tx.inputs (addressOk P payload tirInput.queryAddress) = true
  · have hlt := hsuffice k tirInput hk hsingle htouched
    have hle : tx.inputs.countP (openTo P payload inputs k tirInput) ≤ _ :=
      countP_le_leaveAll fun r hr honce => not_touches_openTo hr honce
    obtain ⟨i, hi, hopen⟩ := List.countP_pos_iff.mp (show 0 <
      (leaveAll (requestsBefore P payload inputs k) tx.inputs).countP
        (openTo P payload inputs k tirInput) by omega)
    exact ⟨i, hi, (Bool.and_eq_true_iff.mp hopen).1⟩
  · refine exists_left_of_untouched (fun r hr => ?_)
      (hpasses tirInput (List.mem_of_getElem? hk) hsingle)
    by_contra htouch
    exact htouched ⟨r, hr, by simpa using htouch⟩

/-- Inputs that suffice for an uncrossed query which gets one. -/
theorem suffice_of_assigned {map : List (List ℕ)}
    (h : assignAll (assignInputOn P payload tx) inputs
      (List.replicate tx.inputs.length false) = some map)
    (hsingles : SinglesAssigned inputs map) (hk : inputs[k]? = some tirInput)
    (hsingle : tirInput.isSingle = true) (huncrossed : Uncrossed P payload tx inputs k tirInput) :
    ((requestsBefore P payload inputs k).countP fun r =>
        r.once && r.touches tx.inputs (openTo P payload inputs k tirInput)) <
      tx.inputs.countP (openTo P payload inputs k tirInput) := by
  have hdealt := (singlesAssigned_iff_dealt h).mp hsingles
  rw [InputsDealt, ← List.take_append_drop k inputs, List.flatMap_append, served_append] at hdealt
  have hcount := countP_leaveAll hdealt.1 (p := openTo P payload inputs k tirInput)
    (fun r hr honce => not_touches_openTo hr honce)
    fun r hr _ htouch i hi htest => openTo_of_touches huncrossed hr htouch hi htest
  obtain ⟨i, hi, hok⟩ :=
    (single_assigned_iff h hk hsingle).mp (hsingles k tirInput hk hsingle)
  have hpos := List.countP_pos_iff.mpr ⟨i, hi, openTo_of_left hi hok⟩
  rw [requestsBefore] at hpos ⊢
  omega

/-! ## The `ref` of a query -/

/-- The constant references in the `ref` of the query of a template input. -/
def Tir.Input.queryRefs (input : Tir.Input) : Option (List Tir.UtxoRef) :=
  (expectInputQuery input.utxos).bind fun query => constUtxoRefs query.ref

/-- The input is one of these references. -/
def IsOneOf (refs : List Tir.UtxoRef) (i : TransactionInput) : Prop := ∃ r ∈ refs, i.IsRef r.key

/-- Every input assigned to a query with constant references in its `ref` is one of them. -/
def QueryRefsHonoured (tx : MultiEraTx) (inputs : List Tir.Input) (inputMap : List (List ℕ)) :
    Prop :=
  ∀ (k : ℕ) (tirInput : Tir.Input) (refs : List Tir.UtxoRef), inputs[k]? = some tirInput →
    tirInput.queryRefs = some refs → ∃ slots, inputMap[k]? = some slots ∧
      ∀ s ∈ slots, ∃ i, tx.inputs[s]? = some i ∧ IsOneOf refs i

/-- No two inputs of the transaction agree in the hash and the low 32 bits of the index. -/
def DistinctInputs (tx : MultiEraTx) : Prop := (tx.inputs.map TransactionInput.key).Nodup

/-- The payload inputs that the template inputs before `k` may leave for the query of
    `tirInput`. -/
def queryRemains (P : Pallas) (payload : CardanoPayload) (tx : MultiEraTx)
    (inputs : List Tir.Input) (k : ℕ) (tirInput : Tir.Input) : List TransactionInput :=
  remains tx.inputs (requestsBefore P payload inputs k) (addressOk P payload tirInput.queryAddress)

/-- Whatever may be left for a query with constant references in its `ref` is one of them; for
    a single query that is not crossed, the first that is left. -/
def RefsRemain (P : Pallas) (payload : CardanoPayload) (tx : MultiEraTx)
    (inputs : List Tir.Input) : Prop :=
  ∀ (k : ℕ) (tirInput : Tir.Input) (refs : List Tir.UtxoRef), inputs[k]? = some tirInput →
    tirInput.queryRefs = some refs →
      (∀ i ∈ queryRemains P payload tx inputs k tirInput, IsOneOf refs i) ∨
      (tirInput.isSingle = true ∧ DistinctInputs tx ∧ Uncrossed P payload tx inputs k tirInput ∧
        ∀ i ∈ (queryRemains P payload tx inputs k tirInput).take 1, IsOneOf refs i)

/-- In a transaction with distinct inputs a pinned reference that is served has one input. -/
theorem countP_of_distinct (hdistinct : DistinctInputs tx)
    (hserved : Served Request.must (requestsBefore P payload inputs k) tx.inputs)
    {r : Request TransactionInput} (hr : r ∈ requestsBefore P payload inputs k)
    (hmust : r.must = true) : r.once = true ∧ tx.inputs.countP r.test = 1 := by
  have hfound := hserved.exists_mem r hr hmust
  obtain ⟨earlier, -, hmem⟩ := List.mem_flatMap.mp hr
  rcases mem_requests hmem with ⟨-, -, ref, -, rfl⟩ | ⟨-, -, -, -, hnot⟩
  · refine ⟨rfl, le_antisymm ?_ (List.countP_pos_iff.mpr hfound)⟩
    have hcount := List.nodup_iff_count_le_one.mp hdistinct ref.key
    rw [List.count, List.countP_map] at hcount
    refine (List.countP_mono_left fun i _ hi => ?_).trans hcount
    exact beq_iff_eq.mpr (matchesRef_iff_key.mp hi)
  · rw [hnot] at hmust
    cases hmust

theorem left_eq_queryRemains (hdistinct : DistinctInputs tx)
    (huncrossed : Uncrossed P payload tx inputs k tirInput)
    (hserved : Served Request.must (requestsBefore P payload inputs k) tx.inputs) :
    (leaveAll (requestsBefore P payload inputs k) tx.inputs).filter
      (addressOk P payload tirInput.queryAddress) = queryRemains P payload tx inputs k tirInput :=
  filter_leaveAll_eq hserved (fun _ hr hmust => countP_of_distinct hdistinct hserved hr hmust)
    (uncrossed_requests huncrossed)

theorem forall_slots_iff {slots : List ℕ} (hrange : ∀ s ∈ slots, s < tx.inputs.length)
    (refs : List Tir.UtxoRef) :
    (∀ s ∈ slots, ∃ i, tx.inputs[s]? = some i ∧ IsOneOf refs i) ↔
      ∀ i ∈ slots.filterMap fun s => tx.inputs[s]?, IsOneOf refs i := by
  constructor
  · intro h i hi
    obtain ⟨s, hs, heq⟩ := List.mem_filterMap.mp hi
    obtain ⟨j, hj, hone⟩ := h s hs
    cases heq.symm.trans hj
    exact hone
  · intro h s hs
    have hlt := hrange s hs
    have heq : tx.inputs[s]? = some tx.inputs[s] := List.getElem?_eq_getElem hlt
    exact ⟨_, heq, h _ (List.mem_filterMap.mpr ⟨s, hs, heq⟩)⟩

end Queries

/-- **Single queries of an accepted transaction.** Each has exactly one payload input if and
    only if dealing out the payload inputs serves it. It is enough that the inputs suffice, by
    number, and where no query is crossed by an earlier one that is needed too. -/
theorem singles_assigned_iff (P : Pallas) (T : Tx3) (tii : TiiFile) (txName profileName : String)
    (specialized : Tir.Tx) (args : ArgMap) (payload : CardanoPayload) (tx : MultiEraTx)
    (fp : Fingerprint) (profileName' txName' : String) (a : MatchAssignment)
    (hfp : extract T tii txName profileName specialized args = .ok fp)
    (hparse : payload.parsed P = .ok tx)
    (hadmits : fp.matchesSummary (summarizeTx P payload tx) = true)
    (hmatch : matchTx P specialized payload profileName' txName' = .ok (some a)) :
    (SinglesAssigned specialized.inputs a.inputMap ↔ InputsDealt P payload tx specialized.inputs) ∧
    (InputsSuffice P payload tx specialized.inputs →
      SinglesAssigned specialized.inputs a.inputMap) ∧
    ((∀ (k : ℕ) (tirInput : Tir.Input), specialized.inputs[k]? = some tirInput →
        tirInput.isSingle = true → Uncrossed P payload tx specialized.inputs k tirInput) →
      SinglesAssigned specialized.inputs a.inputMap →
        InputsSuffice P payload tx specialized.inputs) := by
  obtain ⟨hin, -⟩ := matchTx_eq hparse hmatch
  refine ⟨singlesAssigned_iff_dealt hin, singlesAssigned_of_suffice hin ?_, ?_⟩
  · intro tirInput hmem hsingle
    exact exists_passes_of_admits hfp (matchesSummary_iff.mp hadmits) hmem hsingle
  · intro huncrossed hsingles k tirInput hk hsingle _
    exact suffice_of_assigned hin hsingles hk hsingle (huncrossed k tirInput hk hsingle)

/-- One query at each of the two addresses. -/
def Sample.oneOfEach : Tir.Tx :=
  Sample.templateOf [Sample.singleAt "first" (.address Sample.scriptAddress),
    Sample.singleAt "second" (.address Sample.keyAddress)] []

set_option maxRecDepth 4000 in
theorem singles_assigned_iff_pair :
    SinglesAssigned Sample.oneOfEach.inputs [[0], [1]] ∧
      InputsSuffice Sample.pairPallas Sample.pairPayload Sample.pairTx Sample.oneOfEach.inputs := by
  obtain ⟨hdealt, -, hsuffice⟩ := singles_assigned_iff Sample.pairPallas Sample.tx3 Sample.pairTii
    "lock" "preview" Sample.oneOfEach ∅ Sample.pairPayload Sample.pairTx _ "" ""
    ⟨"", "", [[0], [1]], [], [], [], [], []⟩ rfl Sample.parsed_pairPayload (by decide +kernel) rfl
  have hsingles := hdealt.mpr (by decide)
  refine ⟨hsingles, hsuffice (fun k tirInput hk hsingle => ?_) hsingles⟩
  obtain ⟨query, hquery, -⟩ := query_of_isSingle hsingle
  refine uncrossed_of_addressed (fun i hi query hquery => ?_) (List.mem_of_getElem? hk) hquery
  rcases List.mem_cons.mp hi with rfl | hi
  · cases hquery
    rfl
  · rw [List.mem_singleton.mp hi] at hquery
    cases hquery
    rfl

/-- Two queries at the script address, of which the payload has one input. -/
def Sample.twoQueries : Tir.Tx :=
  Sample.templateOf [Sample.singleAt "first" (.address Sample.scriptAddress),
    Sample.singleAt "second" (.address Sample.scriptAddress)] []

set_option maxRecDepth 4000 in
theorem twoQueries_unassigned :
    ∃ fp a, extract Sample.tx3 Sample.pairTii "lock" "preview" Sample.twoQueries ∅ = .ok fp ∧
      Sample.pairPayload.parsed Sample.pairPallas = .ok Sample.pairTx ∧
      fp.matchesSummary (summarizeTx Sample.pairPallas Sample.pairPayload Sample.pairTx) = true ∧
      matchTx Sample.pairPallas Sample.twoQueries Sample.pairPayload "" "" = .ok (some a) ∧
      ¬SinglesAssigned Sample.twoQueries.inputs a.inputMap := by
  refine ⟨_, ⟨"", "", [[0], []], [], [], [], [], []⟩, rfl, Sample.parsed_pairPayload,
    by decide +kernel, rfl, fun h => ?_⟩
  obtain ⟨s, hs⟩ := h 1 _ rfl rfl
  cases hs

/-- **The `ref` of a query in an accepted transaction.** It is honoured if whatever the earlier
    template inputs may leave is one of the references; and only then, where the transaction has
    no input twice and no query is crossed by an earlier one. -/
theorem queryRefs_honoured_iff (P : Pallas) (specialized : Tir.Tx) (payload : CardanoPayload)
    (tx : MultiEraTx) (profileName txName : String) (a : MatchAssignment)
    (hparse : payload.parsed P = .ok tx)
    (hmatch : matchTx P specialized payload profileName txName = .ok (some a)) :
    (RefsRemain P payload tx specialized.inputs →
      QueryRefsHonoured tx specialized.inputs a.inputMap) ∧
    (DistinctInputs tx →
      (∀ (k : ℕ) (tirInput : Tir.Input) (refs : List Tir.UtxoRef),
        specialized.inputs[k]? = some tirInput → tirInput.queryRefs = some refs →
          Uncrossed P payload tx specialized.inputs k tirInput) →
      QueryRefsHonoured tx specialized.inputs a.inputMap →
        RefsRemain P payload tx specialized.inputs) := by
  obtain ⟨hin, -⟩ := matchTx_eq hparse hmatch
  constructor
  · intro hremain k tirInput refs hk hrefs
    obtain ⟨query, hquery, -⟩ := Option.bind_eq_some_iff.mp hrefs
    obtain ⟨slots, hmap, hrange, helements⟩ := query_elements hin hk hquery
    have hserved := must_served (k := k) hin
    refine ⟨slots, hmap, (forall_slots_iff hrange refs).mpr fun i hi => ?_⟩
    rw [helements] at hi
    rcases hremain k tirInput refs hk hrefs with hall | ⟨hsingle, hdistinct, huncrossed, hfirst⟩
    · refine hall i ((filter_leaveAll_sublist hserved).subset ?_)
      split_ifs at hi
      · exact List.mem_of_mem_take hi
      · exact hi
    · rw [if_pos hsingle, left_eq_queryRemains hdistinct huncrossed hserved] at hi
      exact hfirst i hi
  · intro hdistinct huncrossed hhonoured k tirInput refs hk hrefs
    obtain ⟨query, hquery, -⟩ := Option.bind_eq_some_iff.mp hrefs
    obtain ⟨slots, hmap, hrange, helements⟩ := query_elements hin hk hquery
    obtain ⟨slots', hmap', hslots⟩ := hhonoured k tirInput refs hk hrefs
    cases hmap.symm.trans hmap'
    have huncrossed := huncrossed k tirInput refs hk hrefs
    have hone := (forall_slots_iff hrange refs).mp hslots
    rw [helements, left_eq_queryRemains hdistinct huncrossed (must_served hin)] at hone
    cases hsingle : tirInput.isSingle with
    | true =>
      rw [hsingle, if_pos rfl] at hone
      exact Or.inr ⟨rfl, hdistinct, huncrossed, hone⟩
    | false =>
      rw [hsingle, if_neg Bool.false_ne_true] at hone
      exact Or.inl hone

/-- A template with these inputs and then a query at a runtime address, for output `index` of
    the earlier transaction. -/
def Sample.queryFor (earlier : List Tir.Input) (index : UInt32) : Tir.Tx :=
  Sample.templateOf (earlier ++
    [{ name := "source"
       utxos := .evalParam (.expectInput "source"
         { address := Sample.runtime "from", minAmount := .none,
           ref := .utxoRefs [⟨Sample.spentTx.bytes, index⟩], many := false,
           collateral := false }) }]) []

set_option maxRecDepth 4000 in
/-- An earlier template input pins output 0 and leaves output 1, which the query asks for. -/
theorem queryRefs_honoured_iff_pair :
    QueryRefsHonoured Sample.pairTx (Sample.queryFor [Sample.pinnedAt "config" 0] 1).inputs
      [[0], [1]] := by
  refine (queryRefs_honoured_iff Sample.pairPallas
    (Sample.queryFor [Sample.pinnedAt "config" 0] 1) Sample.pairPayload Sample.pairTx "" ""
    ⟨"", "", [[0], [1]], [], [], [], [], []⟩ Sample.parsed_pairPayload rfl).1 ?_
  intro k tirInput refs hk hrefs
  rcases k with _ | _ | k
  · cases hk
    cases hrefs
  · cases hk
    cases hrefs
    refine Or.inl fun i hi => ?_
    have hremains : queryRemains Sample.pairPallas Sample.pairPayload Sample.pairTx
        (Sample.queryFor [Sample.pinnedAt "config" 0] 1).inputs 1 (Sample.queryFor [] 1).inputs[0] =
          [⟨Sample.spentTx, 1⟩] := by decide
    cases List.mem_singleton.mp (hremains ▸ hi)
    exact ⟨_, List.mem_singleton.mpr rfl, rfl, by decide⟩
  · cases hk

set_option maxRecDepth 4000 in
/-- The query asks for output 1 and is given output 0, the first input of the transaction. -/
theorem queryRefs_not_honoured :
    ∃ fp a, extract Sample.tx3 Sample.pairTii "lock" "preview" (Sample.queryFor [] 1) ∅ = .ok fp ∧
      Sample.pairPayload.parsed Sample.pairPallas = .ok Sample.pairTx ∧
      fp.matchesSummary (summarizeTx Sample.pairPallas Sample.pairPayload Sample.pairTx) = true ∧
      matchTx Sample.pairPallas (Sample.queryFor [] 1) Sample.pairPayload "" "" = .ok (some a) ∧
      ¬QueryRefsHonoured Sample.pairTx (Sample.queryFor [] 1).inputs a.inputMap := by
  refine ⟨_, ⟨"", "", [[0]], [], [], [], [], []⟩, rfl, Sample.parsed_pairPayload,
    by decide +kernel, rfl, fun h => ?_⟩
  obtain ⟨slots, hslots, hall⟩ := h 0 _ [⟨Sample.spentTx.bytes, 1⟩] rfl rfl
  cases hslots
  obtain ⟨i, hi, r, hr, hir⟩ := hall 0 (by simp)
  cases hi
  rw [List.mem_singleton.mp hr] at hir
  exact absurd hir.2 (by decide)

end Tx3Lift
