import Tx3Lift.Cardano.Annotate
import Tx3Lift.Cardano.Summarize
import Tx3Lift.Lib.FirstHit

/-!
# Routing

Model of `route_and_lift`, `route_and_lift_with_profile` and `try_lift` in
`crates/tx3-lift-cardano/src/lib.rs`. The maps of a TII are hash maps: the loops see their
keys in an arbitrary order.

* `tryLift_eq_error_iff`, `tryLift_eq_none_iff`, `tryLift_names`: the three outcomes for one
  pair of names.
* `tryLift_reorders`: one pair is tried alike in every order of the maps.
* `route_order_free_iff`: the loops return the same in every order exactly when no two pairs
  contend for the payload.
-/

namespace Tx3Lift

open Lib

/-! ## Model -/

section Model

variable (P : Pallas) (T : Tx3) (bech32 : String → Except String ByteBuf) (tii : TiiFile)

/-- `CardanoLifter::try_lift` (lines 94–124). -/
def tryLift (txName profileName : String) (payload : CardanoPayload) (extraArgs : ArgMap) :
    Except CardanoLiftError (Option Lifted) := do
  let specialized ← (specialize T bech32 tii txName profileName extraArgs).mapError .core
  let summary ← summarize P payload
  let fp ← (fingerprintFor T bech32 tii txName profileName).mapError .core
  if !fp.matchesSummary summary then
    return none
  match ← matchTx P specialized payload profileName txName with
  | none => return none
  | some assignment =>
    let lifted ← lift P bech32 tii txName profileName specialized payload assignment
    return some lifted

/-- `CardanoLifter::route_and_lift` (lines 59–75). -/
def routeAndLift (payload : CardanoPayload) : Except CardanoLiftError (Option Lifted) :=
  firstHit (fun txName => firstHit (fun profileName =>
    tryLift P T bech32 tii txName profileName payload ∅) tii.profiles.keys) tii.transactions.keys

/-- `CardanoLifter::route_and_lift_with_profile` (lines 78–92). -/
def routeAndLiftWithProfile (profileName : String) (payload : CardanoPayload) :
    Except CardanoLiftError (Option Lifted) :=
  firstHit (fun txName => tryLift P T bech32 tii txName profileName payload ∅)
    tii.transactions.keys

end Model

/-! ## One pair of names -/

section Pair

variable (P : Pallas) (T : Tx3) (bech32 : String → Except String ByteBuf) (tii : TiiFile)
  (payload : CardanoPayload) (txName profileName : String)

/-- The payload gets past the pre-filter and the matcher of this template. -/
structure Accepted (tx : MultiEraTx) (tir : Tir.Tx) (fp : Fingerprint) : Prop where
  admitted : fp.matchesSummary (summarizeTx P payload tx) = true
  matched : ∃ a, matchTx P tir payload "" "" = .ok (some a)

/-- The ways in which a pair of names can stop the loops with an error. -/
inductive RouteFails : CardanoLiftError → Prop
  | specialize {e : LiftError} : specialize T bech32 tii txName profileName ∅ = .error e →
      RouteFails (.core e)
  | parse {tir : Tir.Tx} {e : CardanoLiftError} :
      Tx3Lift.specialize T bech32 tii txName profileName ∅ = .ok tir →
      payload.parsed P = .error e → RouteFails e
  | lift {tir : Tir.Tx} {tx : MultiEraTx} {fp : Fingerprint} {a : MatchAssignment}
      {e : CardanoLiftError} :
      Tx3Lift.specialize T bech32 tii txName profileName ∅ = .ok tir →
      payload.parsed P = .ok tx → fingerprintFor T bech32 tii txName profileName = .ok fp →
      fp.matchesSummary (summarizeTx P payload tx) = true →
      matchTx P tir payload profileName txName = .ok (some a) →
      Tx3Lift.lift P bech32 tii txName profileName tir payload a = .error e → RouteFails e

/-- The pair stops the loops: its template accepts the payload, or it fails. -/
def Contends : Prop :=
  (∃ e, RouteFails P T bech32 tii payload txName profileName e) ∨
    ∃ tir tx fp, specialize T bech32 tii txName profileName ∅ = .ok tir ∧
      payload.parsed P = .ok tx ∧ fingerprintFor T bech32 tii txName profileName = .ok fp ∧
      Accepted P payload tx tir fp

end Pair

section Outcomes

variable {P : Pallas} {T : Tx3} {bech32 : String → Except String ByteBuf} {tii : TiiFile}
  {payload : CardanoPayload} {txName profileName : String} {tx : MultiEraTx} {tir : Tir.Tx}
  {fp : Fingerprint}

theorem fingerprintFor_of_specialize
    (h : specialize T bech32 tii txName profileName ∅ = .ok tir) :
    ∃ fp, fingerprintFor T bech32 tii txName profileName = .ok fp := by
  obtain ⟨tx, profile, args, _, htx, hprofile, hargs, -, -⟩ := specialize_eq_ok.mp h
  exact ⟨_, fingerprintFor_eq hprofile hargs htx h⟩

/-- The names do not decide whether a template matches. -/
theorem matched_iff : (∃ a, matchTx P tir payload profileName txName = .ok (some a)) ↔
    ∃ a, matchTx P tir payload "" "" = .ok (some a) := by
  rw [matchTx_names profileName txName "" ""]
  rcases matchTx P tir payload "" "" with e | (_ | a) <;> simp [Except.map]

theorem tryLift_of_accepted (hspec : specialize T bech32 tii txName profileName ∅ = .ok tir)
    (hparse : payload.parsed P = .ok tx)
    (hfp : fingerprintFor T bech32 tii txName profileName = .ok fp)
    (hadmitted : fp.matchesSummary (summarizeTx P payload tx) = true) {a : MatchAssignment}
    (hmatch : matchTx P tir payload profileName txName = .ok (some a)) :
    tryLift P T bech32 tii txName profileName payload ∅ =
      (lift P bech32 tii txName profileName tir payload a).map some := by
  simp only [tryLift, hspec, summarize_eq hparse, hfp, hadmitted, hmatch, bind, Except.bind,
    Except.mapError, Bool.not_true, Bool.false_eq_true, if_false]
  cases lift P bech32 tii txName profileName tir payload a <;> rfl

theorem tryLift_of_not_accepted
    (hspec : specialize T bech32 tii txName profileName ∅ = .ok tir)
    (hparse : payload.parsed P = .ok tx)
    (hfp : fingerprintFor T bech32 tii txName profileName = .ok fp)
    (h : ¬Accepted P payload tx tir fp) :
    tryLift P T bech32 tii txName profileName payload ∅ = .ok none := by
  simp only [tryLift, hspec, summarize_eq hparse, hfp, bind, Except.bind, Except.mapError]
  cases hadmitted : fp.matchesSummary (summarizeTx P payload tx) with
  | false => rfl
  | true =>
    obtain ⟨_ | a, hr⟩ := matchTx_total hparse tir profileName txName
    · simp only [hr, Bool.not_true, Bool.false_eq_true, if_false]
      rfl
    · exact absurd ⟨hadmitted, matched_iff.mp ⟨a, hr⟩⟩ h

theorem tryLift_of_fails {e : CardanoLiftError}
    (h : RouteFails P T bech32 tii payload txName profileName e) :
    tryLift P T bech32 tii txName profileName payload ∅ = .error e := by
  cases h with
  | specialize h => simp only [tryLift, h, Except.mapError, bind, Except.bind]
  | parse hspec h =>
    simp only [tryLift, summarize, hspec, h, Except.mapError, bind, Except.bind]
  | lift hspec hparse hfp hadmitted hmatch h =>
    rw [tryLift_of_accepted hspec hparse hfp hadmitted hmatch, h]
    rfl

/-- What trying one pair of names can come to. -/
theorem tryLift_cases (P : Pallas) (T : Tx3) (bech32 : String → Except String ByteBuf)
    (tii : TiiFile) (payload : CardanoPayload) (txName profileName : String) :
    (∃ e, RouteFails P T bech32 tii payload txName profileName e ∧
      tryLift P T bech32 tii txName profileName payload ∅ = .error e) ∨
    (¬Contends P T bech32 tii payload txName profileName ∧
      tryLift P T bech32 tii txName profileName payload ∅ = .ok none) ∨
    ∃ lifted, Contends P T bech32 tii payload txName profileName ∧
      tryLift P T bech32 tii txName profileName payload ∅ = .ok (some lifted) ∧
      lifted.txName = txName ∧ lifted.profileName = profileName := by
  have hfails : ∀ {e}, RouteFails P T bech32 tii payload txName profileName e →
      ∃ e, RouteFails P T bech32 tii payload txName profileName e ∧
        tryLift P T bech32 tii txName profileName payload ∅ = .error e := fun h =>
    ⟨_, h, tryLift_of_fails h⟩
  cases hspec : specialize T bech32 tii txName profileName ∅ with
  | error e => exact Or.inl (hfails (.specialize hspec))
  | ok tir =>
    cases hparse : payload.parsed P with
    | error e => exact Or.inl (hfails (.parse hspec hparse))
    | ok tx =>
      obtain ⟨fp, hfp⟩ := fingerprintFor_of_specialize hspec
      by_cases hacc : Accepted P payload tx tir fp
      · obtain ⟨a, ha⟩ : ∃ a, matchTx P tir payload profileName txName = .ok (some a) :=
          matched_iff.mpr hacc.matched
        have htry := tryLift_of_accepted hspec hparse hfp hacc.admitted ha
        cases hlift : lift P bech32 tii txName profileName tir payload a with
        | error e => exact Or.inl (hfails (.lift hspec hparse hfp hacc.admitted ha hlift))
        | ok lifted =>
          rw [hlift] at htry
          obtain ⟨-, -, -, -, htxName, hprofileName⟩ := lift_parsed hlift
          exact Or.inr (Or.inr ⟨lifted, Or.inr ⟨tir, tx, fp, hspec, hparse, hfp, hacc⟩, htry,
            htxName, hprofileName⟩)
      · have htry := tryLift_of_not_accepted hspec hparse hfp hacc
        refine Or.inr (Or.inl ⟨?_, htry⟩)
        rintro (⟨e, he⟩ | ⟨tir', tx', fp', hspec', hparse', hfp', hacc'⟩)
        · cases htry.symm.trans (tryLift_of_fails he)
        · cases hspec.symm.trans hspec'
          cases hparse.symm.trans hparse'
          cases hfp.symm.trans hfp'
          exact hacc hacc'

theorem tryLift_eq_none_iff :
    tryLift P T bech32 tii txName profileName payload ∅ = .ok none ↔
      ¬Contends P T bech32 tii payload txName profileName := by
  rcases tryLift_cases P T bech32 tii payload txName profileName with
    ⟨e, he, htry⟩ | ⟨hnot, htry⟩ | ⟨lifted, hcontends, htry, -⟩
  · have hcontends : Contends P T bech32 tii payload txName profileName := Or.inl ⟨e, he⟩
    simp [htry, hcontends]
  · simp [htry, hnot]
  · simp [htry, hcontends]

theorem tryLift_eq_error_iff {e : CardanoLiftError} :
    tryLift P T bech32 tii txName profileName payload ∅ = .error e ↔
      RouteFails P T bech32 tii payload txName profileName e := by
  refine ⟨fun h => ?_, tryLift_of_fails⟩
  rcases tryLift_cases P T bech32 tii payload txName profileName with
    ⟨e', he', htry⟩ | ⟨-, htry⟩ | ⟨lifted, -, htry, -⟩
  · cases h.symm.trans htry
    exact he'
  · cases h.symm.trans htry
  · cases h.symm.trans htry

/-- What is returned carries the names it was found under. -/
theorem tryLift_names {lifted : Lifted}
    (h : tryLift P T bech32 tii txName profileName payload ∅ = .ok (some lifted)) :
    lifted.txName = txName ∧ lifted.profileName = profileName := by
  rcases tryLift_cases P T bech32 tii payload txName profileName with
    ⟨e, -, htry⟩ | ⟨-, htry⟩ | ⟨lifted', -, htry, hnames⟩
  · cases h.symm.trans htry
  · cases h.symm.trans htry
  · cases h.symm.trans htry
    exact hnames

end Outcomes

/-! ## Other orders of the maps -/

/-- The same document with its hash maps in another iteration order. -/
structure TiiFile.Reorders (tii' tii : TiiFile) : Prop where
  version : tii'.version = tii.version
  protocolName : tii'.protocolName = tii.protocolName
  transactions : tii'.transactions.entries.Perm tii.transactions.entries
  profiles : tii'.profiles.entries.Perm tii.profiles.entries

theorem TiiFile.Reorders.refl (tii : TiiFile) : tii.Reorders tii :=
  ⟨rfl, rfl, List.Perm.refl _, List.Perm.refl _⟩

section Reorders

variable {P : Pallas} {T : Tx3} {bech32 : String → Except String ByteBuf} {tii tii' : TiiFile}

/-- Names are looked up alike in every order. -/
theorem TiiFile.Reorders.get? (h : tii'.Reorders tii) :
    tii'.transactions.get? = tii.transactions.get? ∧ tii'.profiles.get? = tii.profiles.get? :=
  ⟨funext (HashMap.get?_of_perm h.transactions), funext (HashMap.get?_of_perm h.profiles)⟩

/-- One pair of names is tried alike in every order. -/
theorem tryLift_reorders (h : tii'.Reorders tii) :
    tryLift P T bech32 tii' = tryLift P T bech32 tii := by
  obtain ⟨htx, hprofile⟩ := h.get?
  have hspec : specialize T bech32 tii' = specialize T bech32 tii := by
    funext txName profileName extraArgs
    simp only [specialize, lookupTx, lookupProfile, htx, hprofile]
  have hextract : extract T tii' = extract T tii := by
    funext txName profileName specialized args
    simp only [extract, emptyFingerprint, h.version, h.protocolName]
  have hfp : fingerprintFor T bech32 tii' = fingerprintFor T bech32 tii := by
    funext txName profileName
    simp only [fingerprintFor, lookupTx, lookupProfile, htx, hprofile, hspec, hextract]
  have hlift : lift P bech32 tii' = lift P bech32 tii := by
    funext txName profileName specialized payload assignment
    simp only [lift, hprofile, h.protocolName]
  funext txName profileName payload extraArgs
  simp only [tryLift, hspec, hfp, hlift]

theorem TiiFile.Reorders.mem_keys (h : tii'.Reorders tii) (name : String) :
    (name ∈ tii'.transactions.keys ↔ name ∈ tii.transactions.keys) ∧
      (name ∈ tii'.profiles.keys ↔ name ∈ tii.profiles.keys) :=
  ⟨HashMap.mem_keys_of_perm h.transactions name, HashMap.mem_keys_of_perm h.profiles name⟩

/-- Some order tries a given pair of names first. -/
theorem TiiFile.exists_reordered {txName profileName : String}
    (htx : txName ∈ tii.transactions.keys) (hprofile : profileName ∈ tii.profiles.keys) :
    ∃ tii' : TiiFile, tii'.Reorders tii ∧
      (∃ rest, tii'.transactions.keys = txName :: rest) ∧
      ∃ rest, tii'.profiles.keys = profileName :: rest := by
  obtain ⟨transactions, rest, htransactions, hkeys⟩ := HashMap.exists_reordered htx
  obtain ⟨profiles, rest', hprofiles, hkeys'⟩ := HashMap.exists_reordered hprofile
  exact ⟨{ tii with transactions := transactions, profiles := profiles },
    ⟨rfl, rfl, htransactions, hprofiles⟩, ⟨rest, hkeys⟩, ⟨rest', hkeys'⟩⟩

end Reorders

/-! ## When routing is free of the order -/

section OrderFree

variable (P : Pallas) (T : Tx3) (bech32 : String → Except String ByteBuf) (tii : TiiFile)
  (payload : CardanoPayload)

/-- `route_and_lift` returns the same in any two orders of the maps. -/
def RouteOrderFree : Prop :=
  ∀ tii₁ tii₂ : TiiFile, tii₁.Reorders tii → tii₂.Reorders tii →
    routeAndLift P T bech32 tii₁ payload = routeAndLift P T bech32 tii₂ payload

/-- So does `route_and_lift_with_profile`. -/
def ProfileRouteOrderFree (profileName : String) : Prop :=
  ∀ tii₁ tii₂ : TiiFile, tii₁.Reorders tii → tii₂.Reorders tii →
    routeAndLiftWithProfile P T bech32 tii₁ profileName payload =
      routeAndLiftWithProfile P T bech32 tii₂ profileName payload

/-- No two of these pairs of names contend for the payload, unless both fail in the same
    way. -/
def NoRivals (pairs : List (String × String)) : Prop :=
  ∀ p ∈ pairs, ∀ q ∈ pairs, Contends P T bech32 tii payload p.1 p.2 →
    Contends P T bech32 tii payload q.1 q.2 →
      p = q ∨ ∃ e, RouteFails P T bech32 tii payload p.1 p.2 e ∧
        RouteFails P T bech32 tii payload q.1 q.2 e

variable {P T bech32 tii payload}

theorem noRivals_iff {pairs : List (String × String)} :
    NoRivals P T bech32 tii payload pairs ↔
      Agrees (fun p => tryLift P T bech32 tii p.1 p.2 payload ∅) pairs := by
  unfold NoRivals Agrees
  simp only [Ne, tryLift_eq_none_iff, not_not]
  refine forall₂_congr fun p _ => forall₂_congr fun q _ =>
    forall_congr' fun hp => forall_congr' fun hq => ⟨?_, fun heq => ?_⟩
  · rintro (rfl | ⟨e, hep, heq⟩)
    · rfl
    · rw [tryLift_of_fails hep, tryLift_of_fails heq]
  · rcases htry : tryLift P T bech32 tii p.1 p.2 payload ∅ with e | (_ | lifted)
    · exact Or.inr ⟨e, tryLift_eq_error_iff.mp htry, tryLift_eq_error_iff.mp (heq.symm.trans htry)⟩
    · exact absurd hp (tryLift_eq_none_iff.mp htry)
    · obtain ⟨htx, hprofile⟩ := tryLift_names htry
      obtain ⟨htx', hprofile'⟩ := tryLift_names (heq.symm.trans htry)
      exact Or.inl (Prod.ext (htx.symm.trans htx') (hprofile.symm.trans hprofile'))

/-- The nested loops of `route_and_lift` as one loop over the pairs of names. -/
theorem routeAndLift_eq : routeAndLift P T bech32 tii payload =
    firstHit (fun p => tryLift P T bech32 tii p.1 p.2 payload ∅)
      (tii.transactions.keys ×ˢ tii.profiles.keys) :=
  firstHit_product (fun txName profileName => tryLift P T bech32 tii txName profileName payload ∅)
    _ _

theorem routeAndLiftWithProfile_eq (profileName : String) :
    routeAndLiftWithProfile P T bech32 tii profileName payload =
      firstHit (fun p => tryLift P T bech32 tii p.1 p.2 payload ∅)
        (tii.transactions.keys.map fun txName => (txName, profileName)) := by
  rw [firstHit_map]
  rfl

theorem forall_reorders {r : TiiFile → TiiFile → Prop} :
    (∀ tii₁ tii₂ : TiiFile, tii₁.Reorders tii → tii₂.Reorders tii → r tii₁ tii₂) ↔
      ∀ i j : {tii' : TiiFile // tii'.Reorders tii}, r i.1 j.1 :=
  ⟨fun h i j => h i.1 j.1 i.2 j.2, fun h tii₁ tii₂ h₁ h₂ => h ⟨tii₁, h₁⟩ ⟨tii₂, h₂⟩⟩

theorem routeOrderFree_iff : RouteOrderFree P T bech32 tii payload ↔
    NoRivals P T bech32 tii payload (tii.transactions.keys ×ˢ tii.profiles.keys) := by
  rw [RouteOrderFree, forall_reorders, noRivals_iff, ← firstHit_orders_iff
    fun i : {tii' : TiiFile // tii'.Reorders tii} => i.1.transactions.keys ×ˢ i.1.profiles.keys]
  · refine forall₂_congr fun i j => ?_
    rw [routeAndLift_eq, routeAndLift_eq, tryLift_reorders i.2, tryLift_reorders j.2]
  · rintro ⟨tii', h⟩ ⟨txName, profileName⟩
    rw [List.mem_product, List.mem_product, (h.mem_keys txName).1, (h.mem_keys profileName).2]
  · rintro ⟨txName, profileName⟩ hpair
    obtain ⟨htx, hprofile⟩ := List.mem_product.mp hpair
    obtain ⟨tii', hreorders, ⟨rest, hkeys⟩, rest', hkeys'⟩ :=
      TiiFile.exists_reordered htx hprofile
    exact ⟨⟨tii', hreorders⟩, _, by rw [hkeys, hkeys', List.product_cons, List.map_cons]; rfl⟩

theorem profileRouteOrderFree_iff {profileName : String} :
    ProfileRouteOrderFree P T bech32 tii payload profileName ↔
      NoRivals P T bech32 tii payload
        (tii.transactions.keys.map fun txName => (txName, profileName)) := by
  rw [ProfileRouteOrderFree, forall_reorders, noRivals_iff, ← firstHit_orders_iff
    fun i : {tii' : TiiFile // tii'.Reorders tii} =>
      i.1.transactions.keys.map fun txName => (txName, profileName)]
  · refine forall₂_congr fun i j => ?_
    rw [routeAndLiftWithProfile_eq, routeAndLiftWithProfile_eq, tryLift_reorders i.2,
      tryLift_reorders j.2]
  · rintro ⟨tii', h⟩ pair
    simp only [List.mem_map, (h.mem_keys _).1]
  · intro pair hpair
    obtain ⟨txName, htx, rfl⟩ := List.mem_map.mp hpair
    obtain ⟨transactions, rest, htransactions, hkeys⟩ := HashMap.exists_reordered htx
    exact ⟨⟨{ tii with transactions := transactions },
      ⟨rfl, rfl, htransactions, List.Perm.refl _⟩⟩, _, by rw [hkeys, List.map_cons]⟩

end OrderFree

/-- **Routing is free of the map order** exactly when no two pairs of names contend for the
    payload. -/
theorem route_order_free_iff (P : Pallas) (T : Tx3) (bech32 : String → Except String ByteBuf)
    (tii : TiiFile) (payload : CardanoPayload) :
    (RouteOrderFree P T bech32 tii payload ↔
      NoRivals P T bech32 tii payload (tii.transactions.keys ×ˢ tii.profiles.keys)) ∧
    ∀ profileName, ProfileRouteOrderFree P T bech32 tii payload profileName ↔
      NoRivals P T bech32 tii payload
        (tii.transactions.keys.map fun txName => (txName, profileName)) :=
  ⟨routeOrderFree_iff, fun _ => profileRouteOrderFree_iff⟩

namespace Sample

/-- A document whose transactions all have the template `lock`, in this order. -/
def siblingTii (names : List String) (h : names.Nodup) : TiiFile :=
  { version := "v1beta0"
    protocolName := "sample"
    transactions := ⟨names.map fun name => (name, transactionOf lockCbor), by
      rw [List.map_map]
      exact (List.map_id names).symm ▸ h⟩
    profiles := HashMap.singleton "preview" vaultProfile }

/-- `lock` under the profile. -/
def lockedTir : Tir.Tx := lockTir (.evalParam (.set (.address scriptAddress)))

theorem fromBytes_lockCbor :
    tx3.fromBytes lockCbor .v1Beta0 = .ok (lockTir (.evalParam (.expectValue "vault"))) := by
  simp only [tx3, if_true]

theorem specialize_sibling {names : List String} (h : names.Nodup) {name : String}
    (hname : name ∈ names) :
    specialize tx3 bech32 (siblingTii names h) name "preview" ∅ = .ok lockedTir := by
  refine specialize_eq_ok.mpr ⟨transactionOf lockCbor, vaultProfile, vaultArgs,
    lockTir (.evalParam (.expectValue "vault")), lookupTx_eq_ok.mpr ?_, rfl,
    argsFromProfile_vault, decodeTir_transactionOf tirVersion_tx3 fromBytes_lockCbor, rfl⟩
  exact HashMap.get?_eq_some_iff.mpr (List.mem_map_of_mem hname)

/-- The sample transaction, none of its inputs resolved. -/
def scriptPayload : CardanoPayload := { raw := scriptTx.cbor }

set_option maxRecDepth 4000 in
theorem fingerprintFor_sibling {names : List String} (h : names.Nodup) {name : String}
    (hname : name ∈ names) :
    ∃ fp, fingerprintFor tx3 bech32 (siblingTii names h) name "preview" = .ok fp ∧
      fp.matchesSummary (summarizeTx (pallas []) scriptPayload scriptTx) = true := by
  have hspec := specialize_sibling h hname
  have hfp := fingerprintFor_eq (lookupProfile_eq_ok.mpr rfl) argsFromProfile_vault
    (lookupTx_eq_ok.mpr (HashMap.get?_eq_some_iff.mpr (List.mem_map_of_mem hname))) hspec
  exact ⟨_, hfp, rfl⟩

set_option maxRecDepth 4000 in
/-- Each of the siblings lifts the sample transaction, under its own name. -/
theorem tryLift_sibling {names : List String} (h : names.Nodup) {name : String}
    (hname : name ∈ names) :
    ∃ lifted, tryLift (pallas []) tx3 bech32 (siblingTii names h) name "preview" scriptPayload ∅ =
      .ok (some lifted) ∧ lifted.txName = name := by
  obtain ⟨fp, hfp, hadmitted⟩ := fingerprintFor_sibling h hname
  have hmatch : matchTx (pallas []) lockedTir scriptPayload "preview" name =
    .ok (some ⟨name, "preview", [], [[0]], [], [], [], []⟩) := rfl
  have hlift : ∃ lifted, lift (pallas []) bech32 (siblingTii names h) name "preview" lockedTir
      scriptPayload ⟨name, "preview", [], [[0]], [], [], [], []⟩ = .ok lifted := ⟨_, rfl⟩
  obtain ⟨lifted, hlift⟩ := hlift
  have htry := tryLift_of_accepted (specialize_sibling h hname) rfl hfp hadmitted hmatch
  rw [hlift] at htry
  exact ⟨lifted, htry, (tryLift_names htry).1⟩

/-- The first sibling wins, on either route. -/
theorem route_sibling {name : String} {names : List String} (h : (name :: names).Nodup) :
    (∃ lifted, routeAndLift (pallas []) tx3 bech32 (siblingTii (name :: names) h) scriptPayload =
      .ok (some lifted) ∧ lifted.txName = name) ∧
    ∃ lifted, routeAndLiftWithProfile (pallas []) tx3 bech32 (siblingTii (name :: names) h)
      "preview" scriptPayload = .ok (some lifted) ∧ lifted.txName = name := by
  obtain ⟨lifted, htry, hname⟩ := tryLift_sibling h (List.mem_cons_self)
  constructor
  · refine ⟨lifted, ?_, hname⟩
    rw [routeAndLift_eq]
    refine (firstHit_cons_of_contends ?_).trans htry
    simp [htry]
  · refine ⟨lifted, ?_, hname⟩
    rw [routeAndLiftWithProfile_eq]
    refine (firstHit_cons_of_contends ?_).trans htry
    simp [htry]

end Sample

/-- Two transactions with one template: the payload goes to the one that the map yields
    first. -/
theorem route_depends_on_order :
    ¬RouteOrderFree (Sample.pallas []) Sample.tx3 Sample.bech32
        (Sample.siblingTii ["open", "close"] (by decide)) Sample.scriptPayload ∧
      ¬ProfileRouteOrderFree (Sample.pallas []) Sample.tx3 Sample.bech32
        (Sample.siblingTii ["open", "close"] (by decide)) Sample.scriptPayload "preview" := by
  have hopen := Sample.route_sibling (show ["open", "close"].Nodup by decide)
  have hclose := Sample.route_sibling (show ["close", "open"].Nodup by decide)
  have hreorders : (Sample.siblingTii ["close", "open"] (by decide)).Reorders
      (Sample.siblingTii ["open", "close"] (by decide)) :=
    ⟨rfl, rfl, List.Perm.swap _ _ _, List.Perm.refl _⟩
  constructor
  · intro hfree
    obtain ⟨⟨lifted, hlifted, hname⟩, -⟩ := hopen
    obtain ⟨⟨lifted', hlifted', hname'⟩, -⟩ := hclose
    have heq := hfree _ _ (TiiFile.Reorders.refl _) hreorders
    rw [hlifted, hlifted'] at heq
    cases heq
    exact absurd (hname.symm.trans hname') (by decide)
  · intro hfree
    obtain ⟨-, lifted, hlifted, hname⟩ := hopen
    obtain ⟨-, lifted', hlifted', hname'⟩ := hclose
    have heq := hfree _ _ (TiiFile.Reorders.refl _) hreorders
    rw [hlifted, hlifted'] at heq
    cases heq
    exact absurd (hname.symm.trans hname') (by decide)

end Tx3Lift
