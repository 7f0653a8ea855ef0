import Tx3Lift.Cardano.Annotate
import Tx3Lift.Cardano.Complete
import Tx3Lift.Lib.Dealing

/-!
# Mint and burn blocks against the mint field

A template lists mint and burn blocks, a transaction one entry per policy. `match_tx` gives
each block one entry, and `lift` reports the whole entry.

* `policyMap_eq`: the mint or burn loop deals out the entries of the mint field.
* `mints_apart_iff`: when mints and burns are reported apart and once.
-/

namespace Tx3Lift

open Lib Tir

/-! ## The mint and burn loops -/

/-- The mint field dealt out to blocks, each of which takes the first entry left that it names
    (any, if it names none) and that has an amount of its sign. -/
def dealEntries (touches : MultiEraAsset → Bool) (mints : List Tir.Mint)
    (field : List MultiEraPolicyAssets) :
    Option (List MultiEraPolicyAssets × List MultiEraPolicyAssets) :=
  deal (policyOk touches) (fun _ => false) mints field

section Loops

variable {touches : MultiEraAsset → Bool} {tx : MultiEraTx} {mints : List Tir.Mint}

/-- The loop over mints or burns deals out the entries of the mint field. -/
theorem policyMap_eq :
    (assignAll (matchPolicy touches tx.mints) mints (List.replicate tx.mints.length false)).map
        (slotElements tx.mints) =
      (dealEntries touches mints tx.mints).map Prod.fst :=
  assignAll_eq_deal (fun _ _ => by rw [Bool.not_false, Bool.and_true, matchPolicy_eq]) mints

theorem deal_of_policyMap {map : List (List ℕ)}
    (h : assignAll (matchPolicy touches tx.mints) mints
      (List.replicate tx.mints.length false) = some map) :
    ∃ left, dealEntries touches mints tx.mints = some (slotElements tx.mints map, left) := by
  have hdeal := @policyMap_eq touches tx mints
  rw [h, Option.map_some] at hdeal
  obtain ⟨r, hr, heq⟩ := Option.map_eq_some_iff.mp hdeal.symm
  exact ⟨r.2, by rw [hr, ← heq]⟩

/-- A block only takes entries with an amount of its sign. -/
theorem touched_of_taken {taken left field : List MultiEraPolicyAssets}
    (h : dealEntries touches mints field = some (taken, left)) {entry : MultiEraPolicyAssets}
    (hentry : entry ∈ taken) : ∃ a ∈ entry.assets, touches a = true := by
  obtain ⟨m, -, hm⟩ := exists_left_of_forall₂ (forall₂_taken h) hentry
  exact List.any_eq_true.mp (Bool.and_eq_true_iff.mp hm).2

end Loops

/-! ## Mints and burns apart -/

/-- All amounts of a policy have one sign. -/
def OneSign (entry : MultiEraPolicyAssets) : Prop :=
  (∀ a ∈ entry.assets, 0 < a.anyCoin) ∨ ∀ a ∈ entry.assets, a.anyCoin < 0

def MultiEraPolicyAssets.keys (entry : MultiEraPolicyAssets) : List (ByteBuf × ByteBuf) :=
  entry.assets.map fun a => (entry.policy.bytes, a.name)

/-- The assets that an annotation lists. -/
def MintAnnotation.keys (ann : MintAnnotation) : List (ByteBuf × ByteBuf) :=
  ann.assets.map fun e => (ann.policy, e.1)

/-- Mints are positive, burns negative, and no entry of the mint field is listed more than once
    over both. -/
structure MintsApart (tx : MultiEraTx) (lifted : Lifted) : Prop where
  positive : ∀ ann ∈ lifted.mints, ∀ e ∈ ann.assets, 0 < e.2
  negative : ∀ ann ∈ lifted.burns, ∀ e ∈ ann.assets, e.2 < 0
  once : ∀ key, ((lifted.mints ++ lifted.burns).flatMap MintAnnotation.keys).count key ≤
    (tx.mints.flatMap MultiEraPolicyAssets.keys).count key

/-- The entries that the blocks take have amounts of one sign each. -/
def OneSignTaken (touches : MultiEraAsset → Bool) (tx : MultiEraTx) (mints : List Tir.Mint) :
    Prop :=
  ∀ taken left, dealEntries touches mints tx.mints = some (taken, left) →
    ∀ entry ∈ taken, OneSign entry

section Apart

variable {tx : MultiEraTx}

theorem lift_mints {P : Pallas} {bech32 : String → Except String ByteBuf} {tii : TiiFile}
    {txName profileName : String} {specialized : Tir.Tx} {payload : CardanoPayload}
    {a : MatchAssignment} {lifted : Lifted} (hparse : payload.parsed P = .ok tx)
    (h : lift P bech32 tii txName profileName specialized payload a = .ok lifted) :
    lifted.mints = liftMints tx a.mintMap ∧ lifted.burns = liftMints tx a.burnMap := by
  obtain ⟨tx', htx', h⟩ := Except.bind_eq_ok h
  cases hparse.symm.trans htx'
  obtain ⟨profile, -, h⟩ := Except.bind_eq_ok h
  obtain ⟨parties, -, h⟩ := Except.bind_eq_ok h
  obtain ⟨inputs, -, h⟩ := Except.bind_eq_ok h
  obtain ⟨references, -, h⟩ := Except.bind_eq_ok h
  cases h
  exact ⟨rfl, rfl⟩

/-- What holds of all listed amounts holds of all amounts of the entries in the slots. -/
theorem forall_liftMints {map : List (List ℕ)} {sign : ℤ → Prop} :
    (∀ ann ∈ liftMints tx map, ∀ e ∈ ann.assets, sign e.2) ↔
      ∀ entry ∈ slotElements tx.mints map, ∀ a ∈ entry.assets, sign a.anyCoin := by
  rw [liftMints_eq]
  simp only [mem_slotElements, ← positions_slots]
  constructor
  · rintro h entry ⟨s, hs, hentry⟩ a ha
    obtain ⟨p, hp, rfl⟩ := List.mem_map.mp hs
    refine h (annotateMint p.1 entry) (List.mem_filterMap.mpr ⟨p, hp, by rw [hentry]; rfl⟩)
      (a.name, a.anyCoin) (List.mem_map_of_mem ha)
  · intro h ann hann e he
    obtain ⟨p, hp, hsome⟩ := List.mem_filterMap.mp hann
    obtain ⟨entry, hentry, rfl⟩ := Option.map_eq_some_iff.mp hsome
    obtain ⟨a, ha, rfl⟩ := List.mem_map.mp he
    exact h entry ⟨p.2, List.mem_map_of_mem hp, hentry⟩ a ha

/-- The listed assets are those of the entries in the slots. -/
theorem liftMints_keys (map : List (List ℕ)) :
    (liftMints tx map).flatMap MintAnnotation.keys =
      map.flatten.flatMap fun s => (tx.mints[s]?.map MultiEraPolicyAssets.keys).getD [] := by
  rw [liftMints_eq, ← positions_slots, List.flatMap_map]
  induction positions map with
  | nil => rfl
  | cons p ps ih =>
    rw [List.flatMap_cons, ← ih, List.filterMap_cons]
    cases tx.mints[p.2]? with
    | none => rfl
    | some entry =>
      rw [Option.map_some, List.flatMap_cons]
      congr 1
      rw [ MintAnnotation.keys, annotateMint, List.map_map]
      rfl

theorem oneSign_iff_pos {entry : MultiEraPolicyAssets} (h : ∃ a ∈ entry.assets, 0 < a.anyCoin) :
    OneSign entry ↔ ∀ a ∈ entry.assets, 0 < a.anyCoin := by
  refine ⟨fun hone => hone.resolve_right fun hneg => ?_, Or.inl⟩
  obtain ⟨a, ha, hpos⟩ := h
  exact lt_asymm hpos (hneg a ha)

theorem oneSign_iff_neg {entry : MultiEraPolicyAssets} (h : ∃ a ∈ entry.assets, a.anyCoin < 0) :
    OneSign entry ↔ ∀ a ∈ entry.assets, a.anyCoin < 0 := by
  refine ⟨fun hone => hone.resolve_left fun hpos => ?_, Or.inr⟩
  obtain ⟨a, ha, hneg⟩ := h
  exact lt_asymm hneg (hpos a ha)

/-- Where the entries in the slots touch a sign, one sign means that one. -/
theorem oneSign_taken_iff {touches : MultiEraAsset → Bool} {sign : ℤ → Prop}
    (hsign : ∀ a, touches a = true ↔ sign a.anyCoin)
    (hone : ∀ entry : MultiEraPolicyAssets, (∃ a ∈ entry.assets, sign a.anyCoin) →
      (OneSign entry ↔ ∀ a ∈ entry.assets, sign a.anyCoin))
    {mints : List Tir.Mint} {map : List (List ℕ)}
    (h : assignAll (matchPolicy touches tx.mints) mints
      (List.replicate tx.mints.length false) = some map) :
    OneSignTaken touches tx mints ↔
      ∀ ann ∈ liftMints tx map, ∀ e ∈ ann.assets, sign e.2 := by
  obtain ⟨left, hdeal⟩ := deal_of_policyMap h
  have hsigned : ∀ entry ∈ slotElements tx.mints map,
      (OneSign entry ↔ ∀ a ∈ entry.assets, sign a.anyCoin) := fun entry hentry => by
    obtain ⟨a, ha, htouched⟩ := touched_of_taken hdeal hentry
    exact hone entry ⟨a, ha, (hsign a).mp htouched⟩
  rw [forall_liftMints]
  constructor
  · intro htaken entry hentry
    exact (hsigned entry hentry).mp (htaken _ left hdeal entry hentry)
  · intro hall taken left' hdeal' entry hentry
    cases hdeal.symm.trans hdeal'
    exact (hsigned entry hentry).mpr (hall entry hentry)

end Apart

/-- **Mints and burns in a lifted transaction.** They are reported apart and once if and only if
    every entry that a mint or burn block takes has amounts of one sign. -/
theorem mints_apart_iff (P : Pallas) (bech32 : String → Except String ByteBuf) (tii : TiiFile)
    (txName profileName : String) (specialized : Tir.Tx) (payload : CardanoPayload)
    (tx : MultiEraTx) (profileName' txName' : String) (a : MatchAssignment) (lifted : Lifted)
    (hparse : payload.parsed P = .ok tx)
    (hmatch : matchTx P specialized payload profileName' txName' = .ok (some a))
    (hlift : lift P bech32 tii txName profileName specialized payload a = .ok lifted) :
    MintsApart tx lifted ↔
      OneSignTaken (fun a => decide (a.anyCoin > 0)) tx specialized.mints ∧
        OneSignTaken (fun a => decide (a.anyCoin < 0)) tx specialized.burns := by
  obtain ⟨-, -, hmint, hburn, -⟩ := matchTx_eq hparse hmatch
  have hmaps := slotMaps_of_matchTx hparse hmatch
  obtain ⟨hmints, hburns⟩ := lift_mints hparse hlift
  have hpos : ∀ a : MultiEraAsset, decide (a.anyCoin > 0) = true ↔ 0 < a.anyCoin :=
    fun _ => decide_eq_true_iff
  have hneg : ∀ a : MultiEraAsset, decide (a.anyCoin < 0) = true ↔ a.anyCoin < 0 :=
    fun _ => decide_eq_true_iff
  rw [@oneSign_taken_iff tx _ (0 < ·) hpos (fun _ => oneSign_iff_pos) _ _ hmint,
    @oneSign_taken_iff tx _ (· < 0) hneg (fun _ => oneSign_iff_neg) _ _ hburn, ← hmints, ← hburns]
  refine ⟨fun h => ⟨h.positive, h.negative⟩, fun ⟨hp, hn⟩ => ⟨hp, hn, fun key => ?_⟩⟩
  -- a slot of both maps would hold an entry with all its amounts negative and one positive
  have hapart : a.mintMap.flatten.Disjoint a.burnMap.flatten := fun s hs hs' => by
    have hentry := List.getElem?_eq_getElem (hmaps.mints.inRange s hs)
    obtain ⟨left, hdeal⟩ := deal_of_policyMap hmint
    obtain ⟨b, hb, hbpos⟩ := touched_of_taken hdeal (mem_slotElements.mpr ⟨s, hs, hentry⟩)
    rw [hburns, @forall_liftMints tx _ (· < 0)] at hn
    exact lt_asymm ((hpos b).mp hbpos) (hn _ (mem_slotElements.mpr ⟨s, hs', hentry⟩) b hb)
  have hnodup : (a.mintMap.flatten ++ a.burnMap.flatten).Nodup :=
    List.Nodup.append hmaps.mints.nodup hmaps.burns.nodup hapart
  rw [List.flatMap_append, hmints, hburns, liftMints_keys, liftMints_keys, ← List.flatMap_append]
  exact count_flatMap_getElem?_le hnodup tx.mints MultiEraPolicyAssets.keys key

namespace Sample

def policyA : Hash 28 := ⟨List.replicate 28 0x66, rfl⟩

def policyB : Hash 28 := ⟨List.replicate 28 0x77, rfl⟩

/-- The sample transaction with a mint field. -/
def mintTx (hash : Hash 32) (mintCbor : ByteBuf) (mints : List MultiEraPolicyAssets) : MultiEraTx :=
  { scriptTx with
    hash := hash
    cbor := [0x84, 0xa4, 0x00, 0x81, 0x82, 0x58, 0x20] ++ spentTx.bytes ++ [0x00, 0x01, 0x81] ++
      outputCbor scriptAddress ++ [0x02, 0x1a, 0x00, 0x03, 0x0d, 0x40, 0x09] ++ mintCbor ++
      [0xa0, 0xf5, 0xf6]
    mints := mints }

def twoNamesHash : Hash 32 :=
  ⟨[0x56, 0x46, 0x1a, 0x6f, 0x0a, 0xb5, 0xc4, 0xa7, 0xc3, 0xb6, 0x86, 0xf4, 0x6c, 0x7f, 0x72, 0xf8,
    0x4f, 0x82, 0x3d, 0x12, 0xca, 0x68, 0x84, 0x9e, 0x63, 0x52, 0x80, 0x02, 0x18, 0x1d, 0xba, 0x75],
    rfl⟩

/-- Mints 1 `a` and 2 `b` of one policy. -/
def twoNamesTx : MultiEraTx :=
  mintTx twoNamesHash
    ([0xa1, 0x58, 0x1c] ++ policyA.bytes ++ [0xa2, 0x41, 0x61, 0x01, 0x41, 0x62, 0x02])
    [⟨policyA, [⟨[0x61], 1⟩, ⟨[0x62], 2⟩]⟩]

def mixedHash : Hash 32 :=
  ⟨[0xfc, 0x20, 0x22, 0x68, 0x5b, 0xda, 0x4a, 0xe5, 0x84, 0x13, 0x51, 0xa2, 0x50, 0x05, 0xeb, 0x1a,
    0xf4, 0x83, 0x17, 0x72, 0xbd, 0x7b, 0xbb, 0x83, 0x05, 0x6e, 0x8f, 0x8c, 0x3d, 0x7a, 0x47, 0xb3],
    rfl⟩

/-- Mints 1 `a` of one policy and 2 `a` of another one, of which it burns 3 `b`. -/
def mixedTx : MultiEraTx :=
  mintTx mixedHash
    ([0xa2, 0x58, 0x1c] ++ policyA.bytes ++ [0xa1, 0x41, 0x61, 0x01, 0x58, 0x1c] ++ policyB.bytes ++
      [0xa2, 0x41, 0x61, 0x02, 0x41, 0x62, 0x22])
    [⟨policyA, [⟨[0x61], 1⟩]⟩, ⟨policyB, [⟨[0x61], 2⟩, ⟨[0x62], -3⟩]⟩]

/-- A block of one asset. -/
def blockOf (policy : Hash 28) (name : UInt8) (amount : ℤ) : Tir.Mint :=
  { amount := .assets
      [{ policy := .bytes policy.bytes, assetName := .bytes [name], amount := .number amount }] }

/-- A template that only mints and burns. -/
def mintingOf (mints burns : List Tir.Mint) : Tir.Tx :=
  { templateOf [] [] with
    mints := mints
    burns := burns }

def oneMint : Tir.Tx := mintingOf [blockOf policyA 0x61 1] []

/-- Two mints and a burn, of two policies. -/
def mixedMint : Tir.Tx :=
  mintingOf [blockOf policyA 0x61 1, blockOf policyB 0x61 2] [blockOf policyB 0x62 3]

end Sample

set_option maxRecDepth 4000 in
theorem mints_apart_iff_twoNames :
    ∃ lifted, lift (Sample.pallasOf Sample.twoNamesTx) Sample.bech32 Sample.pairTii "lock" "preview"
        Sample.oneMint (Sample.payloadOf Sample.twoNamesTx)
        ⟨"", "", [], [], [], [[0]], [], []⟩ = .ok lifted ∧
      MintsApart Sample.twoNamesTx lifted := by
  refine ⟨_, rfl, (mints_apart_iff (Sample.pallasOf Sample.twoNamesTx) Sample.bech32 Sample.pairTii
    "lock" "preview" Sample.oneMint (Sample.payloadOf Sample.twoNamesTx) Sample.twoNamesTx "" "" _ _
    (Sample.parsed_payloadOf _) rfl rfl).mpr ⟨fun taken left hdeal entry hentry => Or.inl ?_,
      fun taken left hdeal entry hentry => ?_⟩⟩
  · have hfield := (deal_perm hdeal).subset (List.mem_append_left _ hentry)
    rw [List.mem_singleton.mp hfield]
    decide
  · cases hdeal
    cases hentry

set_option maxRecDepth 4000 in
/-- The second policy is minted and burned: its entry is reported twice, with both signs. -/
theorem mints_not_apart :
    ∃ a lifted, (Sample.payloadOf Sample.mixedTx).parsed (Sample.pallasOf Sample.mixedTx) =
        .ok Sample.mixedTx ∧
      matchTx (Sample.pallasOf Sample.mixedTx) Sample.mixedMint (Sample.payloadOf Sample.mixedTx)
        "preview" "lock" = .ok (some a) ∧
      lift (Sample.pallasOf Sample.mixedTx) Sample.bech32 Sample.pairTii "lock" "preview"
        Sample.mixedMint (Sample.payloadOf Sample.mixedTx) a = .ok lifted ∧
      ¬MintsApart Sample.mixedTx lifted := by
  refine ⟨⟨"lock", "preview", [], [], [], [[0], [1]], [[1]], []⟩, _, Sample.parsed_payloadOf _, rfl,
    rfl, fun h => ?_⟩
  have hnonneg := h.positive (annotateMint 1 ⟨Sample.policyB, [⟨[0x61], 2⟩, ⟨[0x62], -3⟩]⟩)
    (List.mem_cons_of_mem _ List.mem_cons_self) ([0x62], -3) (by decide)
  exact absurd hnonneg (by decide)

end Tx3Lift
