import Tx3Lift.Core.Basic

/-!
# Profile anchors and the tiered hit count

Model of `crates/tx3-lift/src/anchors.rs`: `ProtocolAnchors::from_profile` with
its two parsers, and `ProtocolAnchors::hits`.

* `mem_addresses_fromProfile`: the address anchors are the parties' addresses.
* `countTier_eq`: one counting loop adds the cardinalities of the anchors present
  and of those present in the gating tier.
* `hits_eq`: `hits` counts the anchors with a gating presence and those with any.
* `gates_iff`: a source gates iff one of its anchors has a gating presence.
-/

namespace Tx3Lift

open Lib

/-! ## Parsing environment values (lines 165–197) -/

/-- `str::split_once` on a character. -/
def splitOnce (c : Char) (s : List Char) : Option (List Char × List Char) :=
  match s.span (· != c) with
  | (before, _ :: after) => some (before, after)
  | (_, []) => none

/-- `str::parse::<u32>` on a string of decimal digits. -/
def parseU32 (digits : List Char) : Option UInt32 :=
  let n := digits.foldl (fun n c => 10 * n + (c.toNat - '0'.toNat)) 0
  if n ≤ u32Max then some (UInt32.ofNat n) else none

/-- `parse_utxo_ref`. -/
def parseUtxoRef (s : String) : Option UtxoRef := do
  let (txidHex, indexStr) ← splitOnce '#' s.toList
  if utf8Len txidHex ≠ 64 then none
  else if indexStr.isEmpty || !indexStr.all Char.isDigit then none
  else
    let txidBytes ← hexDecode txidHex
    let index ← parseU32 indexStr
    return (txidBytes, index)

/-- `parse_policy`. -/
def parsePolicy (s : String) : Option ByteBuf :=
  if utf8Len s.toList ≠ 56 then none else hexDecode s.toList

/-! ## `ProtocolAnchors` -/

/-- `ProtocolAnchors` (lines 54–59). -/
structure ProtocolAnchors where
  addresses : BTreeSet ByteBuf := ∅
  utxoRefs : BTreeSet UtxoRef := ∅
  policies : BTreeSet ByteBuf := ∅

/-- The body of the loop over the environment values (lines 81–92). -/
def ProtocolAnchors.addEnvironmentValue (anchors : ProtocolAnchors) : Json → ProtocolAnchors
  | .string s =>
    match parseUtxoRef s with
    | some utxoRef => { anchors with utxoRefs := anchors.utxoRefs.insert utxoRef }
    | none =>
      match parsePolicy s with
      | some policy => { anchors with policies := anchors.policies.insert policy }
      | none => anchors
  | _ => anchors

/-- `ProtocolAnchors::from_profile` (lines 67–95). -/
def ProtocolAnchors.fromProfile (bech32 : String → Except String ByteBuf) (profile : Profile) :
    Except LiftError ProtocolAnchors := do
  let anchors ← profile.parties.values.foldlM (fun (anchors : ProtocolAnchors) address => do
    let bytes ← decodeBech32Address bech32 address
    return { anchors with addresses := anchors.addresses.insert bytes }) {}
  match profile.environment with
  | .object env => return (env.map Prod.snd).foldl ProtocolAnchors.addEnvironmentValue anchors
  | _ => return anchors

/-- `ProtocolAnchors::is_empty` (lines 98–100). -/
def ProtocolAnchors.isEmpty (anchors : ProtocolAnchors) : Bool :=
  anchors.addresses.isEmpty && anchors.utxoRefs.isEmpty && anchors.policies.isEmpty

/-- An environment value never adds an address. -/
theorem addresses_addEnvironmentValue (anchors : ProtocolAnchors) (value : Json) :
    (anchors.addEnvironmentValue value).addresses = anchors.addresses := by
  cases value with
  | string s =>
    simp only [ProtocolAnchors.addEnvironmentValue]
    split
    · rfl
    · split <;> rfl
  | _ => rfl

theorem addresses_foldl_environment (env : List Json) (anchors : ProtocolAnchors) :
    (env.foldl ProtocolAnchors.addEnvironmentValue anchors).addresses = anchors.addresses := by
  induction env generalizing anchors with
  | nil => rfl
  | cons value env ih => rw [List.foldl_cons, ih, addresses_addEnvironmentValue]

theorem foldlM_addresses {bech32 : String → Except String ByteBuf} :
    ∀ {parties : List String} {anchors result : ProtocolAnchors},
      parties.foldlM (fun (anchors : ProtocolAnchors) address => do
        let bytes ← decodeBech32Address bech32 address
        return { anchors with addresses := anchors.addresses.insert bytes }) anchors =
          .ok result →
      ∀ a, a ∈ result.addresses ↔ a ∈ anchors.addresses ∨ ∃ s ∈ parties, bech32 s = .ok a := by
  intro parties
  induction parties with
  | nil =>
    intro anchors result h a
    cases h
    simp
  | cons party parties ih =>
    intro anchors result h a
    rw [List.foldlM_cons] at h
    cases hb : bech32 party with
    | error e => simp [decodeBech32Address, hb, bind, Except.bind] at h
    | ok bytes =>
      simp only [decodeBech32Address, hb, bind, Except.bind, pure, Except.pure] at h
      rw [ih h, mem_insert_iff]
      simp only [List.mem_cons, exists_eq_or_imp, hb, Except.ok.injEq]
      rw [eq_comm (a := a)]
      tauto

/-- The address anchors are the addresses of the profile's parties, of whatever kind. -/
theorem mem_addresses_fromProfile {bech32 : String → Except String ByteBuf} {profile : Profile}
    {anchors : ProtocolAnchors} (h : ProtocolAnchors.fromProfile bech32 profile = .ok anchors)
    (a : ByteBuf) :
    a ∈ anchors.addresses ↔ ∃ party ∈ profile.parties.values, bech32 party = .ok a := by
  unfold ProtocolAnchors.fromProfile at h
  obtain ⟨parties, hparties, h⟩ := Except.bind_eq_ok h
  have haddr : anchors.addresses = parties.addresses := by
    split at h
    · cases h
      exact addresses_foldl_environment _ _
    · cases h
      rfl
  rw [haddr, foldlM_addresses hparties]
  simp

/-! ## `hits` -/

/-- `AnchorHits` (lines 30–36). -/
structure AnchorHits where
  gating : ℕ := 0
  total : ℕ := 0
deriving DecidableEq

/-- `AnchorHits::gates` (lines 40–42). -/
def AnchorHits.gates (hits : AnchorHits) : Bool := decide (hits.gating > 0)

/-- One loop of `hits`: every anchor that is present counts in `total`, and in
    `gating` too if its presence is of the gating tier. -/
def countTier {α : Type} [Ord α] [Std.TransOrd α] (gating present : α → Bool) (anchors : BTreeSet α)
    (hits : AnchorHits) : AnchorHits :=
  anchors.toList.foldl (fun hits a =>
    if present a then
      { total := hits.total + 1, gating := if gating a then hits.gating + 1 else hits.gating }
    else hits) hits

/-- The loop over `self.addresses` (lines 124–139). -/
def ProtocolAnchors.addressHits (anchors : ProtocolAnchors) (summary : PayloadSummary) :
    AnchorHits → AnchorHits :=
  let gating := fun address => summary.inputAddresses.contains address ||
    summary.outputAddressesWithDatum.contains address
  countTier gating (fun address => gating address || summary.outputAddresses.contains address)
    anchors.addresses

/-- The loop over `self.utxo_refs` (lines 141–147). -/
def ProtocolAnchors.utxoRefHits (anchors : ProtocolAnchors) (summary : PayloadSummary) :
    AnchorHits → AnchorHits :=
  let used := fun utxoRef =>
    summary.inputRefs.contains utxoRef || summary.referenceRefs.contains utxoRef
  countTier used used anchors.utxoRefs

/-- The loop over `self.policies` (lines 149–159). -/
def ProtocolAnchors.policyHits (anchors : ProtocolAnchors) (summary : PayloadSummary) :
    AnchorHits → AnchorHits :=
  let gating := fun policy => summary.mintPolicies.contains policy ||
    summary.burnPolicies.contains policy
  countTier gating (fun policy => gating policy || summary.valuePolicies.contains policy)
    anchors.policies

/-- `ProtocolAnchors::hits` (lines 121–162). -/
def ProtocolAnchors.hits (anchors : ProtocolAnchors) (summary : PayloadSummary) : AnchorHits :=
  anchors.policyHits summary (anchors.utxoRefHits summary (anchors.addressHits summary {}))

/-! ## What the loops count -/

theorem foldl_countTier {α : Type} (gating present : α → Bool) (xs : List α) (hits : AnchorHits) :
    xs.foldl (fun hits a =>
      if present a then
        ({ total := hits.total + 1,
           gating := if gating a then hits.gating + 1 else hits.gating } : AnchorHits)
      else hits) hits =
    { total := hits.total + (xs.filter present).length,
      gating := hits.gating + (xs.filter fun a => present a && gating a).length } := by
  induction xs generalizing hits with
  | nil => rfl
  | cons a xs ih =>
    rw [List.foldl_cons, ih]
    by_cases hp : present a = true <;> by_cases hg : gating a = true <;>
      simp [hp, hg] <;> omega

/-- One counting loop, for a gating tier inside the present one. -/
theorem countTier_eq {α : Type} [Ord α] [Std.TransOrd α] [Std.LawfulEqOrd α]
    {gating present : α → Bool} (hsub : ∀ a, gating a = true → present a = true)
    (anchors : BTreeSet α) (hits : AnchorHits) :
    countTier gating present anchors hits =
      { total := hits.total + {a | a ∈ anchors ∧ present a = true}.ncard,
        gating := hits.gating + {a | a ∈ anchors ∧ gating a = true}.ncard } := by
  have hand : (fun a => present a && gating a) = gating := by
    funext a
    cases hg : gating a
    · simp
    · simp [hsub a hg]
  rw [countTier, foldl_countTier, hand, length_filter_toList, length_filter_toList]

/-- One anchor, of any kind. -/
inductive Anchor where
  | address (a : ByteBuf)
  | utxoRef (r : UtxoRef)
  | policy (p : ByteBuf)

/-- The anchors of a set. -/
def ProtocolAnchors.Has (anchors : ProtocolAnchors) : Anchor → Prop
  | .address a => a ∈ anchors.addresses
  | .utxoRef r => r ∈ anchors.utxoRefs
  | .policy p => p ∈ anchors.policies

/-- The presences of the gating tier (lines 10–15). -/
def PayloadSummary.Gating (summary : PayloadSummary) : Anchor → Prop
  | .address a => a ∈ summary.inputAddresses ∨ a ∈ summary.outputAddressesWithDatum
  | .utxoRef r => r ∈ summary.inputRefs ∨ r ∈ summary.referenceRefs
  | .policy p => p ∈ summary.mintPolicies ∨ p ∈ summary.burnPolicies

/-- The presences of both tiers. -/
def PayloadSummary.Present (summary : PayloadSummary) : Anchor → Prop
  | .address a => summary.Gating (.address a) ∨ a ∈ summary.outputAddresses
  | .utxoRef r => summary.Gating (.utxoRef r)
  | .policy p => summary.Gating (.policy p) ∨ p ∈ summary.valuePolicies

theorem finite_anchors {α : Type} [Ord α] [Std.TransOrd α] [Std.LawfulEqOrd α] (s : BTreeSet α)
    (P : α → Prop) : {a | a ∈ s ∧ P a}.Finite :=
  (List.finite_toSet s.toList).subset fun _ ha => Std.ExtTreeSet.mem_toList.mpr ha.1

section Hits

variable (anchors : ProtocolAnchors) (summary : PayloadSummary)

/-- The anchors with a property, kind by kind. -/
theorem setOf_has_eq (Q : Anchor → Prop) :
    {x | anchors.Has x ∧ Q x} =
      (Anchor.address '' {a | a ∈ anchors.addresses ∧ Q (.address a)} ∪
        Anchor.utxoRef '' {r | r ∈ anchors.utxoRefs ∧ Q (.utxoRef r)}) ∪
      Anchor.policy '' {p | p ∈ anchors.policies ∧ Q (.policy p)} := by
  ext x
  cases x <;> simp [ProtocolAnchors.Has]

theorem finite_has (Q : Anchor → Prop) : {x | anchors.Has x ∧ Q x}.Finite := by
  rw [setOf_has_eq]
  exact (((finite_anchors _ _).image _).union ((finite_anchors _ _).image _)).union
    ((finite_anchors _ _).image _)

/-- The three kinds are counted separately. -/
theorem ncard_has (Q : Anchor → Prop) :
    {x | anchors.Has x ∧ Q x}.ncard =
      {a | a ∈ anchors.addresses ∧ Q (.address a)}.ncard +
      {r | r ∈ anchors.utxoRefs ∧ Q (.utxoRef r)}.ncard +
      {p | p ∈ anchors.policies ∧ Q (.policy p)}.ncard := by
  have haddr := (finite_anchors anchors.addresses fun a => Q (.address a)).image Anchor.address
  have href := (finite_anchors anchors.utxoRefs fun r => Q (.utxoRef r)).image Anchor.utxoRef
  have hpolicy := (finite_anchors anchors.policies fun p => Q (.policy p)).image Anchor.policy
  rw [setOf_has_eq, Set.ncard_union_eq _ (haddr.union href) hpolicy,
    Set.ncard_union_eq _ haddr href,
    Set.ncard_image_of_injective _ fun _ _ h => Anchor.address.inj h,
    Set.ncard_image_of_injective _ fun _ _ h => Anchor.utxoRef.inj h,
    Set.ncard_image_of_injective _ fun _ _ h => Anchor.policy.inj h]
  · rw [Set.disjoint_left]
    rintro x ⟨a, -, rfl⟩ ⟨r, -, hr⟩
    cases hr
  · rw [Set.disjoint_left]
    rintro x (⟨a, -, rfl⟩ | ⟨a, -, rfl⟩) ⟨p, -, hp⟩ <;> cases hp

/-- **The hit count.** `hits` counts every anchor with a gating presence once in `gating`,
    and every anchor with a presence once in `total`. -/
theorem hits_eq :
    anchors.hits summary =
      { total := {x | anchors.Has x ∧ summary.Present x}.ncard,
        gating := {x | anchors.Has x ∧ summary.Gating x}.ncard } := by
  simp only [ProtocolAnchors.hits, ProtocolAnchors.addressHits, ProtocolAnchors.utxoRefHits,
    ProtocolAnchors.policyHits]
  rw [countTier_eq (by intro a ha; simp [ha]), countTier_eq (fun _ h => h),
    countTier_eq (by intro a ha; simp [ha]), ncard_has, ncard_has]
  simp only [Bool.or_eq_true, Std.ExtTreeSet.contains_iff_mem, zero_add, PayloadSummary.Gating,
    PayloadSummary.Present]

/-- **The gate.** A source gates iff one of its anchors has a gating presence. -/
theorem gates_iff :
    (anchors.hits summary).gates = true ↔ ∃ x, anchors.Has x ∧ summary.Gating x := by
  rw [AnchorHits.gates, hits_eq, decide_eq_true_eq, gt_iff_lt, Set.ncard_pos (finite_has _ _)]
  rfl

/-- A source that gates has a hit. -/
theorem total_pos_of_gates (h : (anchors.hits summary).gates = true) :
    0 < (anchors.hits summary).total := by
  obtain ⟨x, hhas, hgating⟩ := (gates_iff anchors summary).mp h
  have hpresent : summary.Present x := by
    cases x with
    | address a => exact Or.inl hgating
    | utxoRef r => exact hgating
    | policy p => exact Or.inl hgating
  rw [hits_eq]
  show 0 < {x | anchors.Has x ∧ summary.Present x}.ncard
  rw [Set.ncard_pos (finite_has _ _)]
  exact ⟨x, hhas, hpresent⟩

end Hits

end Tx3Lift
