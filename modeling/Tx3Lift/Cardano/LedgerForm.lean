import Tx3Lift.Cardano.Minting
import Tx3Lift.Cardano.Prefilter
import Tx3Lift.Lib.Totals

/-!
# Minted and burned exactly as the template says

A template lists amounts of assets block by block; the mint field of a transaction that
follows it has one entry per policy, with the sums.

* `constPoliciesIn_of_constAssets`: the policies of a block that is constant throughout.
* `signed_iff`: which entries of the mint field are minted and which are burned.
* `blocksAccepted_iff`: the blocks get every policy exactly when its entries are dealt out.
* `dealtOut_iff_pairwise`: with one policy per block, when no two blocks name the same.
* `exact_minting_accepted_iff`: when such a transaction is accepted; `dealt_onePolicy_iff`: what
  that comes to with one policy per block.
-/

namespace Tx3Lift

open Lib Tir

/-! ## Constant blocks -/

/-- An amount of one asset. -/
structure AssetAmount where
  policy : ByteBuf
  name : ByteBuf
  amount : ℤ

def AssetAmount.key (a : AssetAmount) : ByteBuf × ByteBuf := (a.policy, a.name)

/-- A constant asset name. -/
def constName : Expression → Option ByteBuf
  | .string s => some s.toUTF8.data.toList
  | .bytes b => some b
  | .hash b => some b
  | .evalParam (.set inner) => constName inner
  | _ => none

/-- An asset with constant policy, name and amount. -/
def constAsset (a : AssetExpr) : Option AssetAmount := do
  let policy ← constBytes a.policy
  let name ← constName a.assetName
  let amount ← constNumber a.amount
  return { policy := policy, name := name, amount := amount }

mutual

/-- The assets of an expression, along the walk of `collect_const_policies`; none if one of them
    is not constant. -/
def constAssets : Expression → Option (List AssetAmount)
  | .assets xs => xs.mapM constAsset
  | .list xs => constAssetsInList xs
  | .evalParam (.set inner) => constAssets inner
  | .none => some []
  | _ => none

def constAssetsInList : List Expression → Option (List AssetAmount)
  | [] => some []
  | x :: xs => do
    let assets ← constAssets x
    let rest ← constAssetsInList xs
    return assets ++ rest

end

/-- The assets of mint or burn blocks that are constant throughout. -/
def blockAssets (mints : List Tir.Mint) : Option (List AssetAmount) :=
  constAssetsInList (mints.map Tir.Mint.amount)

/-- The policies that the blocks name. -/
def namedPolicies (mints : List Tir.Mint) : List ByteBuf :=
  mints.flatMap fun m => constPoliciesIn m.amount

/-- The policies of a list of assets; an empty one is no policy. -/
def policiesOf (assets : List AssetAmount) : List ByteBuf :=
  (assets.map AssetAmount.policy).filter fun p => !p.isEmpty

theorem policiesOf_append (assets assets' : List AssetAmount) :
    policiesOf (assets ++ assets') = policiesOf assets ++ policiesOf assets' := by
  rw [policiesOf, policiesOf, policiesOf, List.map_append, List.filter_append]

theorem filterMap_constPolicy (xs : List AssetExpr) :
    ∀ assets : List AssetAmount, xs.mapM constAsset = some assets →
      xs.filterMap AssetExpr.constPolicy = policiesOf assets := by
  induction xs with
  | nil =>
    intro assets h
    cases h
    rfl
  | cons x xs ih =>
    intro assets h
    rw [List.mapM_cons] at h
    obtain ⟨a, ha, h⟩ := Option.bind_eq_some_iff.mp h
    obtain ⟨rest, hrest, h⟩ := Option.bind_eq_some_iff.mp h
    cases h
    obtain ⟨policy, hpolicy, ha⟩ := Option.bind_eq_some_iff.mp ha
    obtain ⟨name, -, ha⟩ := Option.bind_eq_some_iff.mp ha
    obtain ⟨amount, -, ha⟩ := Option.bind_eq_some_iff.mp ha
    cases ha
    rw [List.filterMap_cons, AssetExpr.constPolicy, hpolicy, ih rest hrest, policiesOf, policiesOf,
      List.map_cons, List.filter_cons]
    cases hempty : policy.isEmpty <;> simp [hempty, Option.filter]

/-- The policies in a constant expression are those of its assets. -/
theorem constPoliciesIn_of_constAssets (e : Expression) :
    ∀ assets : List AssetAmount, constAssets e = some assets →
      constPoliciesIn e = policiesOf assets := by
  refine constAssets.induct
    (fun e => ∀ assets : List AssetAmount, constAssets e = some assets →
      constPoliciesIn e = policiesOf assets)
    (fun xs => ∀ assets : List AssetAmount, constAssetsInList xs = some assets →
      constPoliciesInList xs = policiesOf assets)
    ?_ ?_ ?_ ?_ ?_ ?_ ?_ e
  · intro xs assets h
    rw [constAssets] at h
    rw [constPoliciesIn, filterMap_constPolicy xs assets h]
  · intro xs ih assets h
    rw [constAssets] at h
    rw [constPoliciesIn, ih assets h]
  · intro inner ih assets h
    rw [constAssets] at h
    rw [constPoliciesIn, ih assets h]
  · intro assets h
    cases h
    rfl
  · -- no other expression is constant
    intro e h1 h2 h3 h4 assets h
    rw [constAssets] at h
    · cases h
    · exact h1
    · exact h2
    · exact h3
    · exact h4
  · intro assets h
    cases h
    rfl
  · intro x xs ihx ihxs assets h
    rw [constAssetsInList] at h
    obtain ⟨first, hfirst, h⟩ := Option.bind_eq_some_iff.mp h
    obtain ⟨rest, hrest, h⟩ := Option.bind_eq_some_iff.mp h
    cases h
    rw [constPoliciesInList, ihx first hfirst, ihxs rest hrest, policiesOf_append]

/-- The policies that constant blocks name are those of their assets. -/
theorem mem_namedPolicies {mints : List Tir.Mint} {assets : List AssetAmount}
    (h : blockAssets mints = some assets) {p : ByteBuf} :
    p ∈ namedPolicies mints ↔ p ≠ [] ∧ ∃ a ∈ assets, a.policy = p := by
  have hlist : constPoliciesInList (mints.map Tir.Mint.amount) = policiesOf assets := by
    have hpolicies := constPoliciesIn_of_constAssets (.list (mints.map Tir.Mint.amount)) assets
    rw [constAssets, constPoliciesIn] at hpolicies
    exact hpolicies h
  have hflat : ∀ xs : List Tir.Mint, constPoliciesInList (xs.map Tir.Mint.amount) =
      xs.flatMap fun m => constPoliciesIn m.amount := by
    intro xs
    induction xs with
    | nil => rfl
    | cons x xs ih => rw [List.map_cons, constPoliciesInList, ih, List.flatMap_cons]
  rw [namedPolicies, ← hflat, hlist, policiesOf, List.mem_filter, List.mem_map]
  simp [and_comm]

/-! ## The ledger's form -/

/-- The amounts in a mint field. -/
def fieldAssets (mints : List MultiEraPolicyAssets) : List AssetAmount :=
  mints.flatMap fun p => p.assets.map fun a =>
    { policy := p.policy.bytes, name := a.name, amount := a.anyCoin }

/-- A mint field in the ledger's form of what is minted and burned: one entry per policy, no
    name twice in it, no entry without amounts, no amount zero, and under each name what is
    minted less what is burned. -/
structure LedgerForm (mints : List MultiEraPolicyAssets) (minted burned : List AssetAmount) :
    Prop where
  policies : (mints.map MultiEraPolicyAssets.policy).Nodup
  names : ∀ p ∈ mints, (p.assets.map MultiEraAsset.name).Nodup
  nonempty : ∀ p ∈ mints, p.assets ≠ []
  nonzero : ∀ p ∈ mints, ∀ a ∈ p.assets, a.anyCoin ≠ 0
  amounts : ∀ key, total AssetAmount.key AssetAmount.amount (fieldAssets mints) key =
    total AssetAmount.key AssetAmount.amount minted key -
      total AssetAmount.key AssetAmount.amount burned key

/-- All assets of the blocks are constant, with positive amounts, and none is both minted and
    burned. -/
structure ExactBlocks (t : Tir.Tx) (minted burned : List AssetAmount) : Prop where
  mints : blockAssets t.mints = some minted
  burns : blockAssets t.burns = some burned
  mintsPos : ∀ a ∈ minted, 0 < a.amount
  burnsPos : ∀ a ∈ burned, 0 < a.amount
  apart : ∀ a ∈ minted, ∀ b ∈ burned, a.key ≠ b.key

section Ledger

variable {mints : List MultiEraPolicyAssets} {minted burned : List AssetAmount}

theorem mem_fieldAssets {x : AssetAmount} :
    x ∈ fieldAssets mints ↔ ∃ p ∈ mints, ∃ a ∈ p.assets,
      { policy := p.policy.bytes, name := a.name, amount := a.anyCoin } = x := by
  simp [fieldAssets, List.mem_flatMap]

/-- No asset occurs twice in the mint field. -/
theorem LedgerForm.keys_nodup (h : LedgerForm mints minted burned) :
    ((fieldAssets mints).map AssetAmount.key).Nodup := by
  rw [fieldAssets, List.map_flatMap, List.nodup_flatMap]
  constructor
  · intro p hp
    rw [List.map_map]
    have hnames : (p.assets.map MultiEraAsset.name).Nodup := h.names p hp
    refine List.Nodup.of_map Prod.snd ?_
    rw [List.map_map]
    exact hnames
  · refine (List.pairwise_map.mp h.policies).imp fun {p q} hne key hp hq => ?_
    obtain ⟨x, hx, rfl⟩ := List.mem_map.mp hp
    obtain ⟨a, -, rfl⟩ := List.mem_map.mp hx
    obtain ⟨y, hy, hkey⟩ := List.mem_map.mp hq
    obtain ⟨b, -, rfl⟩ := List.mem_map.mp hy
    exact hne (Hash.ext_bytes (congrArg Prod.fst hkey).symm)

/-- **What an entry is for.** The field has amounts of one sign under the policies of the blocks
    of that sign, and under no others. -/
theorem signed_iff {sgn : ℤ} {here other : List AssetAmount}
    (hkeys : ((fieldAssets mints).map AssetAmount.key).Nodup)
    (hhere : ∀ a ∈ here, 0 < a.amount) (hother : ∀ a ∈ other, 0 < a.amount)
    (hapart : ∀ a ∈ here, ∀ b ∈ other, a.key ≠ b.key)
    (hamounts : ∀ key, sgn * total AssetAmount.key AssetAmount.amount (fieldAssets mints) key =
      total AssetAmount.key AssetAmount.amount here key -
        total AssetAmount.key AssetAmount.amount other key) {policy : ByteBuf} :
    (∃ p ∈ mints, p.policy.bytes = policy ∧ ∃ a ∈ p.assets, 0 < sgn * a.anyCoin) ↔
      ∃ a ∈ here, a.policy = policy := by
  constructor
  · rintro ⟨p, hp, rfl, a, ha, hpos⟩
    have hx := total_eq_of_nodup AssetAmount.key AssetAmount.amount hkeys
      (mem_fieldAssets.mpr ⟨p, hp, a, ha, rfl⟩)
    have hsum := hamounts (p.policy.bytes, a.name)
    have hnonneg := total_nonneg AssetAmount.key AssetAmount.amount hother (p.policy.bytes, a.name)
    change total _ _ _ (p.policy.bytes, a.name) = a.anyCoin at hx
    rw [hx] at hsum
    have hminted : 0 < total AssetAmount.key AssetAmount.amount here (p.policy.bytes, a.name) := by
      omega
    obtain ⟨b, hb, hkey⟩ := (total_pos_iff AssetAmount.key AssetAmount.amount hhere).mp hminted
    exact ⟨b, hb, congrArg Prod.fst hkey⟩
  · rintro ⟨b, hb, rfl⟩
    have hpos := (total_pos_iff AssetAmount.key AssetAmount.amount hhere).mpr ⟨b, hb, rfl⟩
    have hzero : total AssetAmount.key AssetAmount.amount other b.key = 0 := by
      by_contra hne
      obtain ⟨c, hc, hkey⟩ := exists_of_total_ne_zero hne
      exact hapart b hb c hc hkey.symm
    have hsum := hamounts b.key
    rw [hzero, sub_zero] at hsum
    have hfield : total AssetAmount.key AssetAmount.amount (fieldAssets mints) b.key ≠ 0 := by
      intro hnone
      rw [hnone, mul_zero] at hsum
      omega
    obtain ⟨x, hx, hkey⟩ := exists_of_total_ne_zero hfield
    have hamount := total_eq_of_nodup AssetAmount.key AssetAmount.amount hkeys hx
    rw [hkey] at hamount
    obtain ⟨p, hp, a, ha, rfl⟩ := mem_fieldAssets.mp hx
    refine ⟨p, hp, congrArg Prod.fst hkey, a, ha, ?_⟩
    rw [hamount] at hsum
    change sgn * a.anyCoin = _ at hsum
    omega

end Ledger

/-! ## Blocks and entries -/

/-- Some slot of the map holds an entry of the policy. -/
def HoldsPolicy (tx : MultiEraTx) (map : List (List ℕ)) (policy : ByteBuf) : Prop :=
  ∃ s ∈ map.flatten, ∃ entry, tx.mints[s]? = some entry ∧ entry.policy.bytes = policy

/-- The loop over the blocks goes through and every policy of `assets` gets a slot. -/
def BlocksAccepted (touches : MultiEraAsset → Bool) (tx : MultiEraTx) (mints : List Tir.Mint)
    (assets : List AssetAmount) : Prop :=
  ∃ map, assignAll (matchPolicy touches tx.mints) mints
    (List.replicate tx.mints.length false) = some map ∧ ∀ a ∈ assets, HoldsPolicy tx map a.policy

/-- Dealing out the entries serves every block and leaves no entry with an amount of the
    sign. -/
def DealtOut (touches : MultiEraAsset → Bool) (tx : MultiEraTx) (mints : List Tir.Mint) : Prop :=
  ∃ taken left, dealEntries touches mints tx.mints = some (taken, left) ∧
    ∀ entry ∈ left, ∀ a ∈ entry.assets, touches a = false

section Blocks

variable {touches : MultiEraAsset → Bool} {tx : MultiEraTx} {mints : List Tir.Mint}

theorem holdsPolicy_iff {map : List (List ℕ)} {policy : ByteBuf} :
    HoldsPolicy tx map policy ↔
      ∃ entry ∈ slotElements tx.mints map, entry.policy.bytes = policy := by
  simp only [HoldsPolicy, mem_slotElements]
  constructor
  · rintro ⟨s, hs, entry, hentry, hpolicy⟩
    exact ⟨entry, ⟨s, hs, hentry⟩, hpolicy⟩
  · rintro ⟨entry, ⟨s, hs, hentry⟩, hpolicy⟩
    exact ⟨s, hs, entry, hentry, hpolicy⟩

/-- No policy is both given out and left. -/
theorem policy_not_left (hnodup : (tx.mints.map MultiEraPolicyAssets.policy).Nodup)
    {taken left : List MultiEraPolicyAssets}
    (hdeal : dealEntries touches mints tx.mints = some (taken, left))
    {entry entry' : MultiEraPolicyAssets} (hentry : entry ∈ taken) (hentry' : entry' ∈ left) :
    entry.policy.bytes ≠ entry'.policy.bytes := by
  have hperm := (deal_perm hdeal).map MultiEraPolicyAssets.policy
  rw [List.map_append] at hperm
  have hapart := List.disjoint_of_nodup_append (hperm.nodup_iff.mpr hnodup)
  intro heq
  refine hapart (List.mem_map_of_mem hentry) ?_
  rw [Hash.ext_bytes heq]
  exact List.mem_map_of_mem hentry'

/-- Every policy of a side gets a slot exactly when its entries are dealt out. -/
theorem blocksAccepted_iff (hnodup : (tx.mints.map MultiEraPolicyAssets.policy).Nodup)
    {assets : List AssetAmount}
    (hentries : ∀ policy, (∃ p ∈ tx.mints, p.policy.bytes = policy ∧
      ∃ a ∈ p.assets, touches a = true) ↔ ∃ a ∈ assets, a.policy = policy) :
    BlocksAccepted touches tx mints assets ↔ DealtOut touches tx mints := by
  constructor
  · rintro ⟨map, hmap, hholds⟩
    obtain ⟨left, hdeal⟩ := deal_of_policyMap hmap
    refine ⟨_, left, hdeal, fun entry hentry a ha => eq_false_of_ne_true fun htouched => ?_⟩
    have hfield : entry ∈ tx.mints := (deal_perm hdeal).subset (List.mem_append_right _ hentry)
    obtain ⟨b, hb, hpolicy⟩ := (hentries _).mp ⟨entry, hfield, rfl, a, ha, htouched⟩
    obtain ⟨entry', hentry', hpolicy'⟩ := holdsPolicy_iff.mp (hholds b hb)
    exact policy_not_left hnodup hdeal hentry' hentry (hpolicy'.trans hpolicy)
  · rintro ⟨taken, left, hdeal, hleft⟩
    have hmap := @policyMap_eq touches tx mints
    rw [hdeal, Option.map_some] at hmap
    obtain ⟨map, hmap, hslots⟩ := Option.map_eq_some_iff.mp hmap
    refine ⟨map, hmap, fun b hb => holdsPolicy_iff.mpr ?_⟩
    obtain ⟨p, hp, hpolicy, a, ha, htouched⟩ := (hentries b.policy).mpr ⟨b, hb, rfl⟩
    rw [hslots]
    rcases List.mem_append.mp ((deal_perm hdeal).symm.subset hp) with hp | hp
    · exact ⟨p, hp, hpolicy⟩
    · rw [hleft p hp a ha] at htouched
      cases htouched

/-! ### Blocks of one policy -/

/-- The block names `policy` and no other one. -/
def Names (tirMint : Tir.Mint) (policy : ByteBuf) : Prop :=
  ∀ p, p ∈ constPoliciesIn tirMint.amount ↔ p = policy

theorem policyOk_of_names {tirMint : Tir.Mint} {policy : ByteBuf} (hnames : Names tirMint policy)
    {p : MultiEraPolicyAssets} :
    policyOk touches tirMint p = true ↔
      p.policy.bytes = policy ∧ ∃ a ∈ p.assets, touches a = true := by
  have hne : constPoliciesIn tirMint.amount ≠ [] := List.ne_nil_of_mem ((hnames policy).mpr rfl)
  simp [policyOk, hne, hnames p.policy.bytes]

/-- **Blocks of one policy.** They are dealt out exactly when no two of them name the same. -/
theorem dealtOut_iff_pairwise (hnodup : (tx.mints.map MultiEraPolicyAssets.policy).Nodup)
    (hentries : ∀ policy, policy ∈ namedPolicies mints ↔ ∃ p ∈ tx.mints, p.policy.bytes = policy ∧
      ∃ a ∈ p.assets, touches a = true)
    (hone : ∀ m ∈ mints, ∃ policy, Names m policy) :
    DealtOut touches tx mints ↔ mints.Pairwise fun m m' =>
      ∀ policy ∈ constPoliciesIn m.amount, policy ∉ constPoliciesIn m'.amount := by
  constructor
  · rintro ⟨taken, left, hdeal, -⟩
    have hperm := (deal_perm hdeal).map MultiEraPolicyAssets.policy
    rw [List.map_append] at hperm
    have htaken := List.pairwise_map.mp (List.nodup_append.mp (hperm.nodup_iff.mpr hnodup)).1
    refine pairwise_of_forall₂ (forall₂_taken hdeal) htaken ?_
    intro m m' p p' hm hm' hp hp' hne policy hpolicy hpolicy'
    obtain ⟨q, hq⟩ := hone m hm
    obtain ⟨q', hq'⟩ := hone m' hm'
    have hsame : q = q' := ((hq policy).mp hpolicy).symm.trans ((hq' policy).mp hpolicy')
    refine hne (Hash.ext_bytes ?_)
    rw [((policyOk_of_names hq).mp hp).1, ((policyOk_of_names hq').mp hp').1, hsame]
  · intro hpairwise
    -- an entry that serves two blocks would have a policy that both of them name
    have hapart : mints.Pairwise fun m m' => ∀ p, policyOk touches m p = true →
        policyOk touches m' p = false := by
      refine hpairwise.imp_of_mem fun {m m'} hm hm' hne p hp => eq_false_of_ne_true fun hp' => ?_
      obtain ⟨q, hq⟩ := hone m hm
      obtain ⟨q', hq'⟩ := hone m' hm'
      have hpq := ((policyOk_of_names hq).mp hp).1
      have hpq' := ((policyOk_of_names hq').mp hp').1
      exact hne _ ((hq _).mpr hpq) ((hq' _).mpr hpq')
    have hfound : ∀ m ∈ mints, ∃ p ∈ tx.mints, policyOk touches m p = true := by
      intro m hm
      obtain ⟨q, hq⟩ := hone m hm
      obtain ⟨p, hp, hpolicy, htouched⟩ :=
        (hentries q).mp (List.mem_flatMap.mpr ⟨m, hm, (hq q).mpr rfl⟩)
      exact ⟨p, hp, (policyOk_of_names hq).mpr ⟨hpolicy, htouched⟩⟩
    obtain ⟨taken, left, hdeal⟩ := deal_of_apart hapart hfound
    refine ⟨taken, left, hdeal, fun entry hentry a ha => eq_false_of_ne_true fun htouched => ?_⟩
    -- the block that names the policy of `entry` took another entry of it
    have hfield : entry ∈ tx.mints := (deal_perm hdeal).subset (List.mem_append_right _ hentry)
    obtain ⟨m, hm, hpolicy⟩ :=
      List.mem_flatMap.mp ((hentries _).mpr ⟨entry, hfield, rfl, a, ha, htouched⟩)
    obtain ⟨q, hq⟩ := hone m hm
    obtain ⟨p, hp, hok⟩ := exists_right_of_forall₂ (forall₂_taken hdeal) hm
    refine policy_not_left hnodup hdeal hp hentry ?_
    rw [((policyOk_of_names hq).mp hok).1, (hq _).mp hpolicy]

end Blocks

/-! ## Acceptance -/

/-- The mint and burn checks of the pre-filter pass, and so do the loops of the matcher, with a
    slot for every policy. -/
structure MintingAccepted (tx : MultiEraTx) (t : Tir.Tx) (minted burned : List AssetAmount)
    (fp : Fingerprint) (summary : PayloadSummary) : Prop where
  mintPolicies : ∀ p ∈ fp.requiredMintPolicies, p ∈ summary.mintPolicies
  burnPolicies : ∀ p ∈ fp.requiredBurnPolicies, p ∈ summary.burnPolicies
  mintCount : fp.minMints ≤ summary.mintCount
  burnCount : fp.minBurns ≤ summary.burnCount
  mints : BlocksAccepted (fun a => decide (a.anyCoin > 0)) tx t.mints minted
  burns : BlocksAccepted (fun a => decide (a.anyCoin < 0)) tx t.burns burned

/-- The policies that the blocks of a side name are those of its assets. -/
theorem mem_namedPolicies_iff {tx : MultiEraTx} {mints : List Tir.Mint} {assets : List AssetAmount}
    {touches : MultiEraAsset → Bool} (hblocks : blockAssets mints = some assets)
    (hentries : ∀ policy, (∃ p ∈ tx.mints, p.policy.bytes = policy ∧
      ∃ a ∈ p.assets, touches a = true) ↔ ∃ a ∈ assets, a.policy = policy) {policy : ByteBuf} :
    policy ∈ namedPolicies mints ↔
      ∃ p ∈ tx.mints, p.policy.bytes = policy ∧ ∃ a ∈ p.assets, touches a = true := by
  rw [mem_namedPolicies hblocks, ← hentries]
  refine and_iff_right_of_imp ?_
  rintro ⟨p, -, rfl, -⟩ hempty
  exact absurd p.policy.length_eq (by rw [hempty]; decide)

section Sides

variable {tx : MultiEraTx} {t : Tir.Tx} {minted burned : List AssetAmount}

/-- The policies with a positive amount are the minted ones. -/
theorem minted_entry_iff (hblocks : ExactBlocks t minted burned)
    (hledger : LedgerForm tx.mints minted burned) (policy : ByteBuf) :
    (∃ p ∈ tx.mints, p.policy.bytes = policy ∧
      ∃ a ∈ p.assets, decide (a.anyCoin > 0) = true) ↔ ∃ a ∈ minted, a.policy = policy := by
  have hsigned := @signed_iff tx.mints 1 minted burned hledger.keys_nodup hblocks.mintsPos
    hblocks.burnsPos hblocks.apart (fun key => by rw [hledger.amounts, one_mul]) policy
  simpa using hsigned

/-- The policies with a negative amount are the burned ones. -/
theorem burned_entry_iff (hblocks : ExactBlocks t minted burned)
    (hledger : LedgerForm tx.mints minted burned) (policy : ByteBuf) :
    (∃ p ∈ tx.mints, p.policy.bytes = policy ∧
      ∃ a ∈ p.assets, decide (a.anyCoin < 0) = true) ↔ ∃ a ∈ burned, a.policy = policy := by
  have hsigned := @signed_iff tx.mints (-1) burned minted hledger.keys_nodup hblocks.burnsPos
    hblocks.mintsPos (fun b hb a ha heq => hblocks.apart a ha b hb heq.symm)
    (fun key => by rw [hledger.amounts]; ring) policy
  simpa using hsigned

end Sides

/-- **A transaction minted as the template says.** It is accepted if and only if dealing out its
    mint field to the mint blocks serves each of them and leaves no minted policy, and likewise
    burns. For blocks of one policy `dealt_onePolicy_iff` says what that comes to. -/
theorem exact_minting_accepted_iff (P : Pallas) (T : Tx3) (tii : TiiFile)
    (txName profileName : String) (t : Tir.Tx) (args : ArgMap) (fp : Fingerprint)
    (payload : CardanoPayload) (tx : MultiEraTx) (summary : PayloadSummary)
    (minted burned : List AssetAmount)
    (hfp : extract T tii txName profileName t args = .ok fp) (hparse : payload.parsed P = .ok tx)
    (hsummary : summarize P payload = .ok summary) (hblocks : ExactBlocks t minted burned)
    (hledger : LedgerForm tx.mints minted burned) :
    MintingAccepted tx t minted burned fp summary ↔
      DealtOut (fun a => decide (a.anyCoin > 0)) tx t.mints ∧
        DealtOut (fun a => decide (a.anyCoin < 0)) tx t.burns := by
  cases extract_eq.symm.trans hfp
  cases (summarize_eq hparse).symm.trans hsummary
  have hmintEntries := minted_entry_iff hblocks hledger
  have hburnEntries := burned_entry_iff hblocks hledger
  rw [← blocksAccepted_iff hledger.policies hmintEntries,
    ← blocksAccepted_iff hledger.policies hburnEntries]
  refine ⟨fun h => ⟨h.mints, h.burns⟩, fun ⟨hmint, hburn⟩ => ⟨?_, ?_, ?_, ?_, hmint, hburn⟩⟩
  · intro p hp
    obtain ⟨entry, hentry, hpolicy, a, ha, hpos⟩ :=
      (mem_namedPolicies_iff hblocks.mints hmintEntries).mp (mem_insertMany_empty.mp hp)
    exact (mem_mintPolicies P payload tx).mpr
      ⟨entry, hentry, hpolicy, a, ha, of_decide_eq_true hpos⟩
  · intro p hp
    obtain ⟨entry, hentry, hpolicy, a, ha, hneg⟩ :=
      (mem_namedPolicies_iff hblocks.burns hburnEntries).mp (mem_insertMany_empty.mp hp)
    exact (mem_burnPolicies P payload tx).mpr
      ⟨entry, hentry, hpolicy, a, ha, of_decide_eq_true hneg⟩
  · obtain ⟨map, hmap, -⟩ := hmint
    rw [summarizeTx_eq]
    exact u16TryFrom_mono (@policies_claimed tx _ (0 < ·) (fun _ => decide_eq_true_iff) t.mints map
      hmap).1
  · obtain ⟨map, hmap, -⟩ := hburn
    rw [summarizeTx_eq]
    exact u16TryFrom_mono (@policies_claimed tx _ (· < 0) (fun _ => decide_eq_true_iff) t.burns map
      hmap).1

namespace Sample

theorem exactBlocks_mixedMint : ExactBlocks mixedMint
    [⟨policyA.bytes, [0x61], 1⟩, ⟨policyB.bytes, [0x61], 2⟩] [⟨policyB.bytes, [0x62], 3⟩] :=
  ⟨rfl, rfl, by decide, by decide, by decide⟩

theorem ledgerForm_mixedTx : LedgerForm mixedTx.mints
    [⟨policyA.bytes, [0x61], 1⟩, ⟨policyB.bytes, [0x61], 2⟩] [⟨policyB.bytes, [0x62], 3⟩] := by
  refine ⟨by decide, by decide, by decide, by decide, fun key => ?_⟩
  have htotal : ∀ (x : AssetAmount) (xs : List AssetAmount),
      total AssetAmount.key AssetAmount.amount (x :: xs) key =
        (if (x.policy, x.name) = key then x.amount else 0) +
          total AssetAmount.key AssetAmount.amount xs key := fun x xs => total_cons _ _ x xs key
  have hfield : fieldAssets mixedTx.mints = [⟨policyA.bytes, [0x61], 1⟩, ⟨policyB.bytes, [0x61], 2⟩,
      ⟨policyB.bytes, [0x62], -3⟩] := rfl
  simp only [hfield, htotal, total_nil]
  by_cases hburned : (policyB.bytes, [0x62]) = key
  · simp only [if_pos hburned]
    ring
  · simp only [if_neg hburned]
    ring

/-- Two mints of one policy, in a block each. -/
def twoBlocks : Tir.Tx := mintingOf [blockOf policyA 0x61 1, blockOf policyA 0x62 2] []

theorem exactBlocks_twoBlocks : ExactBlocks twoBlocks
    [⟨policyA.bytes, [0x61], 1⟩, ⟨policyA.bytes, [0x62], 2⟩] [] :=
  ⟨rfl, rfl, by decide, by decide, by decide⟩

theorem ledgerForm_twoNamesTx : LedgerForm twoNamesTx.mints
    [⟨policyA.bytes, [0x61], 1⟩, ⟨policyA.bytes, [0x62], 2⟩] [] := by
  refine ⟨by decide, by decide, by decide, by decide, fun key => ?_⟩
  rw [total_nil, sub_zero]
  rfl

end Sample

set_option maxRecDepth 4000 in
theorem exact_minting_accepted_iff_mixed :
    ∃ fp, extract Sample.tx3 Sample.pairTii "lock" "preview" Sample.mixedMint ∅ = .ok fp ∧
      MintingAccepted Sample.mixedTx Sample.mixedMint
        [⟨Sample.policyA.bytes, [0x61], 1⟩, ⟨Sample.policyB.bytes, [0x61], 2⟩]
        [⟨Sample.policyB.bytes, [0x62], 3⟩] fp
        (summarizeTx (Sample.pallasOf Sample.mixedTx) (Sample.payloadOf Sample.mixedTx)
          Sample.mixedTx) :=
  ⟨_, rfl, (exact_minting_accepted_iff (Sample.pallasOf Sample.mixedTx) Sample.tx3 Sample.pairTii
    "lock" "preview" Sample.mixedMint ∅ _ (Sample.payloadOf Sample.mixedTx) Sample.mixedTx _ _ _ rfl
    (Sample.parsed_payloadOf _) (summarize_eq (Sample.parsed_payloadOf _))
    Sample.exactBlocks_mixedMint Sample.ledgerForm_mixedTx).mpr
    ⟨⟨_, _, rfl, by decide⟩, ⟨_, _, rfl, by decide⟩⟩⟩

/-- With blocks of one policy the mint field can be dealt out exactly when no two mint blocks, and
    no two burn blocks, name the same policy. -/
theorem dealt_onePolicy_iff {tx : MultiEraTx} {t : Tir.Tx} {minted burned : List AssetAmount}
    (hblocks : ExactBlocks t minted burned) (hledger : LedgerForm tx.mints minted burned)
    (hone : ∀ m ∈ t.mints ++ t.burns, ∃ policy, Names m policy) :
    (DealtOut (fun a => decide (a.anyCoin > 0)) tx t.mints ∧
        DealtOut (fun a => decide (a.anyCoin < 0)) tx t.burns) ↔
      (t.mints.Pairwise fun m m' =>
        ∀ policy ∈ constPoliciesIn m.amount, policy ∉ constPoliciesIn m'.amount) ∧
      t.burns.Pairwise fun m m' =>
        ∀ policy ∈ constPoliciesIn m.amount, policy ∉ constPoliciesIn m'.amount :=
  and_congr
    (dealtOut_iff_pairwise hledger.policies
      (fun _ => mem_namedPolicies_iff hblocks.mints (minted_entry_iff hblocks hledger))
      fun m hm => hone m (List.mem_append_left _ hm))
    (dealtOut_iff_pairwise hledger.policies
      (fun _ => mem_namedPolicies_iff hblocks.burns (burned_entry_iff hblocks hledger))
      fun m hm => hone m (List.mem_append_right _ hm))

set_option maxRecDepth 4000 in
/-- The pre-filter asks for two mints where the ledger has one entry. -/
theorem exact_minting_rejected :
    ∃ fp summary,
      extract Sample.tx3 Sample.pairTii "lock" "preview" Sample.twoBlocks ∅ = .ok fp ∧
      summarize (Sample.pallasOf Sample.twoNamesTx) (Sample.payloadOf Sample.twoNamesTx) =
        .ok summary ∧
      ExactBlocks Sample.twoBlocks
        [⟨Sample.policyA.bytes, [0x61], 1⟩, ⟨Sample.policyA.bytes, [0x62], 2⟩] [] ∧
      LedgerForm Sample.twoNamesTx.mints
        [⟨Sample.policyA.bytes, [0x61], 1⟩, ⟨Sample.policyA.bytes, [0x62], 2⟩] [] ∧
      ¬MintingAccepted Sample.twoNamesTx Sample.twoBlocks
        [⟨Sample.policyA.bytes, [0x61], 1⟩, ⟨Sample.policyA.bytes, [0x62], 2⟩] [] fp summary :=
  ⟨_, _, rfl, summarize_eq (Sample.parsed_payloadOf _), Sample.exactBlocks_twoBlocks,
    Sample.ledgerForm_twoNamesTx, fun h => absurd h.mintCount (by decide +kernel)⟩

end Tx3Lift
