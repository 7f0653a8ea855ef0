import Tx3Lift.Core.Grammar
import Tx3Lift.Lib.Emit
import Tx3Lift.Tracker.Session
import Tx3Lift.Tracker.Sources

/-!
# Other orders of the hash maps

The maps of a TII are hash maps, and so are the parties of its profiles. The library's routing
depends on their order; the tracker sorts what it finds before it looks at it.

* `selectMatches_map`: the selection looks at names and scores only.
* `Alike.specializeOne`: a source is specialized alike in every order.
* `tracker_order_free`: the tracker starts in every order or in none, and handles every stream
  alike.
-/

namespace Tx3Lift

open Lib

/-! ## Selecting without looking at the payload -/

section Select

variable {α β : Type} (f : α → β)

def Candidate.map (c : Candidate α) : Candidate β :=
  { sourceName := c.sourceName, txName := c.txName, score := c.score, payload := f c.payload }

def Ranked.map (r : Ranked α) : Ranked β :=
  { candidate := r.candidate.map f, matchRank := r.matchRank }

/-- The map of a loop over other payloads. -/
def mapBest (best : BTreeMap String (Candidate α)) : BTreeMap String (Candidate β) :=
  best.map fun _ c => c.map f

theorem mapBest_insert (best : BTreeMap String (Candidate α)) (c : Candidate α) :
    (mapBest f best).insert c.sourceName (c.map f) = mapBest f (best.insert c.sourceName c) := by
  refine Std.ExtTreeMap.ext_getElem? fun k => ?_
  rw [mapBest, mapBest, Std.ExtTreeMap.getElem?_map, Std.ExtTreeMap.getElem?_insert,
    Std.ExtTreeMap.getElem?_insert, Std.ExtTreeMap.getElem?_map]
  split_ifs
  · rfl
  · rfl

theorem keepBest_map (best : BTreeMap String (Candidate α)) (c : Candidate α) :
    keepBest (mapBest f best) (c.map f) = mapBest f (keepBest best c) := by
  have hget : (mapBest f best)[(c.map f).sourceName]? =
      best[c.sourceName]?.map (Candidate.map f) := by
    rw [mapBest, Std.ExtTreeMap.getElem?_map]
    rfl
  unfold keepBest
  rw [hget]
  cases best[c.sourceName]? with
  | none => exact mapBest_insert f best c
  | some existing =>
    have hreplaces : (c.map f).replaces (existing.map f) = c.replaces existing := rfl
    simp only [Option.map_some, hreplaces]
    split_ifs
    · exact mapBest_insert f best c
    · rfl

theorem foldl_keepBest_map (cs : List (Candidate α)) (best : BTreeMap String (Candidate α)) :
    (cs.map (Candidate.map f)).foldl keepBest (mapBest f best) =
      mapBest f (cs.foldl keepBest best) := by
  induction cs generalizing best with
  | nil => rfl
  | cons c cs ih => rw [List.map_cons, List.foldl_cons, keepBest_map, ih, List.foldl_cons]

theorem survivors_map (cs : List (Candidate α)) :
    survivors (cs.map (Candidate.map f)) = (survivors cs).map (Candidate.map f) := by
  have hbest : bestPerSource (cs.map (Candidate.map f)) =
      (bestPerSource cs).map (Candidate.map f) := by
    have hempty : mapBest f (∅ : BTreeMap String (Candidate α)) = ∅ :=
      Std.ExtTreeMap.ext_getElem? fun k => by simp [mapBest]
    rw [bestPerSource, bestPerSource, ← hempty, foldl_keepBest_map, mapBest,
      Std.ExtTreeMap.toList_map, List.map_map, List.map_map]
    rfl
  rw [survivors, survivors, hbest]
  exact (List.map_insertionSort Candidate.before Candidate.before (Candidate.map f) _
    fun a _ b _ => Iff.rfl).symm

theorem denseRanks_map (cs : List (Candidate α)) (rank : ℕ) (prevScore : Option ℕ) :
    denseRanks rank prevScore (cs.map (Candidate.map f)) =
      (denseRanks rank prevScore cs).map (Ranked.map f) := by
  induction cs generalizing rank prevScore with
  | nil => rfl
  | cons c cs ih =>
    have hscore : (c.map f).score = c.score := rfl
    rw [List.map_cons, denseRanks, denseRanks, hscore, ih, ih]
    split_ifs
    · rfl
    · rfl

/-- **The selection does not look at what the candidates carry.** -/
theorem selectMatches_map (cs : List (Candidate α)) (mode : MatchMode) :
    selectMatches (cs.map (Candidate.map f)) mode =
      (selectMatches cs mode).map (Ranked.map f) := by
  have hall : denseRanks 0 none (survivors (cs.map (Candidate.map f))) =
      (denseRanks 0 none (survivors cs)).map (Ranked.map f) := by
    rw [survivors_map, denseRanks_map]
  cases mode with
  | all => exact hall
  | best =>
    show (denseRanks 0 none (survivors (cs.map (Candidate.map f)))).filter _ = _
    rw [hall, List.filter_map]
    rfl

end Select

/-- Candidates of two lists that agree but for what they carry. -/
structure Candidate.Like {α β : Type} (S : α → β → Prop) (c : Candidate α) (d : Candidate β) :
    Prop where
  sourceName : d.sourceName = c.sourceName
  txName : d.txName = c.txName
  score : d.score = c.score
  payload : S c.payload d.payload

/-- Lists of candidates that agree are selected alike. -/
theorem selectMatches_like {α β : Type} {S : α → β → Prop} {cs : List (Candidate α)}
    {ds : List (Candidate β)} (h : List.Forall₂ (Candidate.Like S) cs ds) (mode : MatchMode) :
    List.Forall₂ (fun r r' => Candidate.Like S r.candidate r'.candidate ∧
        r'.matchRank = r.matchRank)
      (selectMatches cs mode) (selectMatches ds mode) := by
  obtain ⟨zs, rfl, rfl, hzs⟩ : ∃ zs : List (Candidate (α × β)),
      cs = zs.map (Candidate.map Prod.fst) ∧ ds = zs.map (Candidate.map Prod.snd) ∧
        ∀ z ∈ zs, S z.payload.1 z.payload.2 := by
    induction h with
    | nil => exact ⟨[], rfl, rfl, by simp⟩
    | @cons c d cs ds hcd _ ih =>
      obtain ⟨zs, rfl, rfl, hzs⟩ := ih
      obtain ⟨sourceName, txName, score, payload⟩ := d
      obtain ⟨hsource, htx, hscore, hpayload⟩ := hcd
      refine ⟨{ c with payload := (c.payload, payload) } :: zs, rfl, ?_, ?_⟩
      · simp only at hsource htx hscore
        rw [hsource, htx, hscore]
        rfl
      · intro z hz
        rcases List.mem_cons.mp hz with rfl | hz
        · exact hpayload
        · exact hzs z hz
  rw [selectMatches_map, selectMatches_map, List.forall₂_map_left_iff, List.forall₂_map_right_iff,
    List.forall₂_same]
  intro r hr
  exact ⟨⟨rfl, rfl, rfl, hzs _ (mem_selectMatches hr)⟩, rfl⟩

/-! ## Documents in other orders -/

/-- The same profile with its parties in another order. -/
structure Profile.Reorders (profile' profile : Profile) : Prop where
  parties : profile'.parties.entries.Perm profile.parties.entries
  environment : profile'.environment = profile.environment

/-- The same document with its maps, and those of its profiles, in other orders. -/
structure TiiFile.Shuffles (tii' tii : TiiFile) : Prop where
  version : tii'.version = tii.version
  protocolName : tii'.protocolName = tii.protocolName
  transactions : tii'.transactions.entries.Perm tii.transactions.entries
  profiles : ∀ name, Option.Rel Profile.Reorders (tii'.profiles.get? name) (tii.profiles.get? name)

section Profiles

variable {bech32 : String → Except String ByteBuf} {profile profile' : Profile}

theorem Profile.Reorders.symm (h : profile'.Reorders profile) : profile.Reorders profile' :=
  ⟨h.parties.symm, h.environment.symm⟩

/-- Entries of different names can be inserted in either order. -/
theorem insert_insert_ne {ν : Type} {k l : String} (h : k ≠ l) (m : BTreeMap String ν) (a b : ν) :
    (m.insert k a).insert l b = (m.insert l b).insert k a := by
  refine Std.ExtTreeMap.ext_getElem? fun j => ?_
  simp only [Std.ExtTreeMap.getElem?_insert, Std.compare_eq_iff_eq]
  split_ifs with hl hk
  · exact absurd (hk.trans hl.symm) h
  · rfl
  · rfl
  · rfl

/-- Loops that insert one entry for each of different keys. -/
theorem run_inserts {ε ν χ : Type} (key : ε → String) (value : ε → Except χ ν)
    {step : BTreeMap String ν → ε → Except χ (BTreeMap String ν)}
    (hstep : ∀ m e, step m e = (value e).map fun v => m.insert (key e) v) {es es' : List ε}
    (hkeys : (es.map key).Nodup) (hp : es.Perm es') {m out : BTreeMap String ν}
    (h : run step m es = .ok out) : run step m es' = .ok out := by
  refine run_perm hp ?_ h
  refine (List.pairwise_map.mp hkeys).imp fun {e f} hne s t => ?_
  simp only [run, List.foldlM_cons, List.foldlM_nil, hstep]
  cases value e with
  | error x =>
    cases value f with
    | error y => simp [bind, Except.bind, Except.map]
    | ok b => simp [bind, Except.bind, Except.map]
  | ok a =>
    cases value f with
    | error y => simp [bind, Except.bind, Except.map]
    | ok b => simp [bind, Except.bind, Except.map, pure, Except.pure, insert_insert_ne hne]

theorem argsFromProfile_reorders (h : profile'.Reorders profile) {args : ArgMap}
    (hargs : argsFromProfile bech32 profile ∅ = .ok args) :
    argsFromProfile bech32 profile' ∅ = .ok args := by
  obtain ⟨out, hrun, hargs⟩ := Except.bind_eq_ok hargs
  have hrun' : run (addPartyArg bech32) (environmentArgs profile'.environment)
      profile'.parties.entries = .ok out := by
    rw [h.environment]
    refine run_inserts Prod.fst (fun e => (decodeBech32Address bech32 e.2).map .address) ?_
      profile.parties.nodup h.parties.symm hrun
    intro m e
    rw [addPartyArg]
    cases decodeBech32Address bech32 e.2 with
    | error x => rfl
    | ok bytes => rfl
  rw [argsFromProfile, hrun']
  exact hargs

theorem profileParties_reorders (h : profile'.Reorders profile) {parties : Parties}
    (hparties : profileParties bech32 profile = .ok parties) :
    profileParties bech32 profile' = .ok parties := by
  refine run_inserts Prod.fst (fun e => ((decodeBech32Address bech32 e.2).mapError .core).map
    fun bytes => ({ name := e.1, address := bytes, role := .absent } : PartyAnnotation)) ?_
      profile.parties.nodup h.parties.symm hparties
  intro m e
  cases decodeBech32Address bech32 e.2 with
  | error x => rfl
  | ok bytes => rfl

/-- If the arguments of a profile exist, so do its parties. -/
theorem exists_profileParties {args : ArgMap}
    (hargs : argsFromProfile bech32 profile ∅ = .ok args) :
    ∃ parties, profileParties bech32 profile = .ok parties := by
  have hparties : ∀ e ∈ profile.parties.entries, ∃ bytes, bech32 e.2 = .ok bytes :=
    argsFromProfile_parties hargs
  refine (foldlM_eq_ok_iff ?_ _ _).mpr hparties
  intro m e
  cases hbytes : bech32 e.2 with
  | error x => simp [decodeBech32Address, hbytes]
  | ok bytes => simp [decodeBech32Address, hbytes]

theorem fromProfile_reorders (h : profile'.Reorders profile) {args : ArgMap}
    (hargs : argsFromProfile bech32 profile ∅ = .ok args) :
    ProtocolAnchors.fromProfile bech32 profile' = ProtocolAnchors.fromProfile bech32 profile := by
  refine fromProfile_congr ?_ ?_ ?_
  · intro address haddress
    obtain ⟨e, he, rfl⟩ := List.mem_map.mp haddress
    exact argsFromProfile_parties hargs e he
  · exact fun address => (h.parties.map Prod.snd).mem_iff
  · intro s
    unfold Profile.HasValue
    rw [h.environment]

end Profiles

/-! ## Sources in other orders -/

/-- The same source, specialized from a document in other orders. The addresses of its profile
    decode. -/
structure SpecializedTii.Alike (bech32 : String → Except String ByteBuf)
    (spec' spec : SpecializedTii) : Prop where
  name : spec'.name = spec.name
  profileName : spec'.profileName = spec.profileName
  anchors : spec'.anchors = spec.anchors
  txs : spec'.txs = spec.txs
  protocolName : spec'.tii.protocolName = spec.tii.protocolName
  parties : ∃ profile profile' parties, spec.tii.profiles.get? spec.profileName = some profile ∧
    spec'.tii.profiles.get? spec.profileName = some profile' ∧
    profileParties bech32 profile = .ok parties ∧ profileParties bech32 profile' = .ok parties

section Alike

variable {T : Tx3} {D : Deps} {spec spec' : SpecializedTii} {specs specs' : List SpecializedTii}

theorem TiiFile.Shuffles.get? {tii tii' : TiiFile} (h : tii'.Shuffles tii) :
    tii'.transactions.get? = tii.transactions.get? :=
  funext (HashMap.get?_of_perm h.transactions)

theorem TiiFile.Shuffles.symm {tii tii' : TiiFile} (h : tii'.Shuffles tii) : tii.Shuffles tii' := by
  refine ⟨h.version.symm, h.protocolName.symm, h.transactions.symm, fun name => ?_⟩
  have hrel := h.profiles name
  generalize tii'.profiles.get? name = found' at hrel ⊢
  generalize tii.profiles.get? name = found at hrel ⊢
  cases hrel with
  | none => exact .none
  | some hreorders => exact .some hreorders.symm

theorem TiiFile.Shuffles.profile {tii tii' : TiiFile} (h : tii'.Shuffles tii) {name : String}
    {profile : Profile} (hget : tii.profiles.get? name = some profile) :
    ∃ profile', tii'.profiles.get? name = some profile' ∧ profile'.Reorders profile := by
  have hrel := h.profiles name
  rw [hget] at hrel
  generalize tii'.profiles.get? name = found' at hrel
  cases hrel with
  | some hreorders => exact ⟨_, rfl, hreorders⟩

/-- What is cached for a transaction. -/
theorem specializeTx_shuffles {tii tii' : TiiFile} (h : tii'.Shuffles tii) :
    specializeTx T tii' = specializeTx T tii := by
  funext profileName args txName
  simp only [specializeTx, lookupTx, h.get?, extract, emptyFingerprint, h.version, h.protocolName]

/-- What is cached for all transactions. -/
theorem specializeTxs_shuffles {tii tii' : TiiFile} (h : tii'.Shuffles tii) {profileName : String}
    {args : ArgMap} {txs : BTreeMap String (Tir.Tx × Fingerprint)}
    (htxs : tii.transactions.keys.foldlM
      (fun (txs : BTreeMap String (Tir.Tx × Fingerprint)) txName => do
        let entry ← specializeTx T tii profileName args txName
        return txs.insert txName entry) ∅ = .ok txs) :
    tii'.transactions.keys.foldlM
      (fun (txs : BTreeMap String (Tir.Tx × Fingerprint)) txName => do
        let entry ← specializeTx T tii' profileName args txName
        return txs.insert txName entry) ∅ = .ok txs := by
  rw [specializeTx_shuffles h]
  refine run_inserts id (specializeTx T tii profileName args) ?_ ?_
    (h.transactions.symm.map Prod.fst) htxs
  · intro m txName
    cases specializeTx T tii profileName args txName with
    | error x => rfl
    | ok entry => rfl
  · rw [List.map_id]
    exact tii.transactions.nodup

/-- A source is specialized alike in every order. -/
theorem specializeOne_shuffles {readTii readTii' : String → Except TrackerError TiiFile}
    {src : SourceConfig} (hread : ∀ tii, readTii src.tiiPath = .ok tii →
      ∃ tii', readTii' src.tiiPath = .ok tii' ∧ tii'.Shuffles tii)
    (h : specializeOne T D.bech32 readTii src = .ok spec) :
    ∃ spec', specializeOne T D.bech32 readTii' src = .ok spec' ∧ spec'.Alike D.bech32 spec := by
  obtain ⟨tii, htii, h⟩ := Except.bind_eq_ok h
  obtain ⟨profile, hprofile, h⟩ := Except.bind_eq_ok h
  obtain ⟨anchors, hanchors, h⟩ := Except.bind_eq_ok h
  obtain ⟨args, hargs, h⟩ := Except.bind_eq_ok h
  obtain ⟨txs, htxs, h⟩ := Except.bind_eq_ok h
  rw [liftCore_eq_ok] at hprofile hanchors hargs
  split_ifs at h with hempty
  · cases h
  · cases h
    obtain ⟨tii', htii', hshuffles⟩ := hread tii htii
    have hget := lookupProfile_eq_ok.mp hprofile
    obtain ⟨profile', hget', hreorders⟩ := hshuffles.profile hget
    obtain ⟨parties, hparties⟩ := exists_profileParties hargs
    have htxs' := specializeTxs_shuffles hshuffles htxs
    refine ⟨⟨src.name, tii', src.profile, anchors, txs⟩, ?_, rfl, rfl, rfl, rfl,
      hshuffles.protocolName, profile, profile', parties, hget, hget', hparties,
      profileParties_reorders hreorders hparties⟩
    simp only [specializeOne, htii', lookupProfile_eq_ok.mpr hget',
      (fromProfile_reorders hreorders hargs).trans hanchors,
      argsFromProfile_reorders hreorders hargs, liftCore, Except.ok_bind, htxs', hempty]
    rfl

/-- The candidates of a source carry the source along. -/
theorem candidatesOf_alike (h : spec'.Alike D.bech32 spec) (payload : CardanoPayload)
    (tx : MultiEraTx) :
    List.Forall₂ (Candidate.Like fun i i' => i'.spec.Alike D.bech32 i.spec ∧ i'.tir = i.tir ∧
        i'.assignment = i.assignment)
      (candidatesOf D payload tx spec) (candidatesOf D payload tx spec') := by
  have heq : candidatesOf D payload tx spec' = (candidatesOf D payload tx spec).map
      (Candidate.map fun i => { i with spec := spec' }) := by
    have hat : spec'.candidateAt D payload tx = fun e => (spec.candidateAt D payload tx e).map
        (Candidate.map fun i => { i with spec := spec' }) := by
      funext e
      unfold SpecializedTii.candidateAt
      by_cases hadmitted : e.2.2.matchesSummary (summarizeTx D.toPallas payload tx) = true
      · rw [if_pos hadmitted, if_pos hadmitted]
        match matchTx D.toPallas e.2.1 payload "" "" with
        | .ok (some a) =>
          simp only [Option.map_some, Candidate.map, SpecializedTii.score, h.name, h.anchors]
        | .ok none => rfl
        | .error x => rfl
      · rw [if_neg hadmitted, if_neg hadmitted]
        rfl
    unfold candidatesOf
    rw [h.anchors, h.txs, hat]
    split_ifs
    · rw [List.map_filterMap]
    · rfl
  rw [heq, List.forall₂_map_right_iff, List.forall₂_same]
  intro c hc
  refine ⟨rfl, rfl, rfl, ?_, rfl, rfl⟩
  rw [(candidatesOf_spec hc).2]
  exact h

/-- A lift reads the document in no order. -/
theorem lift_alike (h : spec'.Alike D.bech32 spec) (txName : String) (tir : Tir.Tx)
    (payload : CardanoPayload) (a : MatchAssignment) :
    lift D.toPallas D.bech32 spec'.tii txName spec'.profileName tir payload a =
      lift D.toPallas D.bech32 spec.tii txName spec.profileName tir payload a := by
  obtain ⟨profile, profile', parties, hget, hget', hparties, hparties'⟩ := h.parties
  unfold lift
  rw [h.profileName, hget, hget', h.protocolName]
  simp only [okOr, Except.ok_bind, hparties, hparties']

theorem liftSurvivor_alike {payload : CardanoPayload} {slot : UInt64} {hash : ByteBuf}
    {r r' : Ranked LiftInputs}
    (h : Candidate.Like (fun i i' : LiftInputs => i'.spec.Alike D.bech32 i.spec ∧ i'.tir = i.tir ∧
      i'.assignment = i.assignment) r.candidate r'.candidate)
    (hrank : r'.matchRank = r.matchRank) :
    liftSurvivor D payload slot hash r' = liftSurvivor D payload slot hash r := by
  obtain ⟨hspec, htir, hassignment⟩ := h.payload
  unfold liftSurvivor
  simp only [h.txName, h.score, hrank, htir, hassignment, lift_alike hspec, hspec.name]

theorem mapM_congr_forall₂ {α β γ χ : Type} {f : α → Except χ γ} {g : β → Except χ γ} {xs : List α}
    {ys : List β} (h : List.Forall₂ (fun x y => g y = f x) xs ys) : ys.mapM g = xs.mapM f := by
  induction h with
  | nil => rfl
  | cons hxy _ ih => rw [List.mapM_cons, List.mapM_cons, hxy, ih]

/-- One payload is handled alike. -/
theorem runSpecializations_alike (h : List.Forall₂ (SpecializedTii.Alike D.bech32) specs' specs)
    (payload : CardanoPayload) (slot : UInt64) (hash : ByteBuf) (mode : MatchMode) :
    runSpecializations D specs' payload slot hash mode =
      runSpecializations D specs payload slot hash mode := by
  cases hparse : payload.parsed D.toPallas with
  | error e => simp [runSpecializations, summarize, hparse, liftCardano, bind, Except.bind]
  | ok tx =>
    simp only [runSpecializations, summarize_eq hparse, liftCardano, Except.ok_bind,
      collectCandidates_parsed hparse]
    have hcandidates : List.Forall₂ (Candidate.Like fun i i' : LiftInputs =>
        i'.spec.Alike D.bech32 i.spec ∧ i'.tir = i.tir ∧ i'.assignment = i.assignment)
        (specs.flatMap (candidatesOf D payload tx))
        (specs'.flatMap (candidatesOf D payload tx)) := by
      induction h with
      | nil => exact .nil
      | cons hspec _ ih =>
        rw [List.flatMap_cons, List.flatMap_cons]
        exact List.rel_append (candidatesOf_alike hspec payload tx) ih
    exact mapM_congr_forall₂ ((selectMatches_like hcandidates mode).imp fun r r' hr =>
      liftSurvivor_alike hr.1 hr.2)

/-- One response is handled alike. -/
theorem handleAction_alike (h : List.Forall₂ (SpecializedTii.Alike D.bech32) specs' specs)
    (cfg : Config) : handleAction D cfg specs' = handleAction D cfg specs := by
  funext store a
  match a with
  | some (.apply anyTx) =>
    have happly : applyRows D specs' cfg.mode anyTx = applyRows D specs cfg.mode anyTx := by
      simp only [applyRows, runSpecializations_alike h]
    show applyTx D specs' cfg.mode store anyTx = applyTx D specs cfg.mode store anyTx
    rw [applyTx, applyTx, happly]
  | some (.undo anyTx) => rfl
  | some (.idle _) => rfl
  | none => rfl

theorem specializeAll_shuffles {readTii readTii' : String → Except TrackerError TiiFile}
    {sources : List SourceConfig} (hread : ∀ path tii, readTii path = .ok tii →
      ∃ tii', readTii' path = .ok tii' ∧ tii'.Shuffles tii)
    (h : specializeAll T D.bech32 readTii sources = .ok specs) :
    ∃ specs', specializeAll T D.bech32 readTii' sources = .ok specs' ∧
      List.Forall₂ (SpecializedTii.Alike D.bech32) specs' specs := by
  induction sources generalizing specs with
  | nil =>
    cases h
    exact ⟨[], rfl, .nil⟩
  | cons src sources ih =>
    obtain ⟨spec, hspec, h⟩ := Except.bind_eq_ok h
    obtain ⟨out, hout, h⟩ := Except.bind_eq_ok h
    cases h
    obtain ⟨spec', hspec', halike⟩ := specializeOne_shuffles (hread src.tiiPath) hspec
    obtain ⟨out', hout', hall⟩ := ih hout
    refine ⟨if spec'.anchors.isEmpty then out' else spec' :: out', ?_, ?_⟩
    · rw [specializeAll, hspec', Except.ok_bind, hout']
      rfl
    · rw [halike.anchors]
      split_ifs
      · exact hall
      · exact .cons halike hall

end Alike

/-- **The tracker does not depend on the order of any hash map.** If the TII files are read with
    their maps, and the parties of their profiles, in other orders, the tracker starts up exactly
    if it did before, and handles every stream from every database alike. -/
theorem tracker_order_free (T : Tx3) (D : Deps) (cfg : Config) (sources : List SourceConfig)
    (readTii readTii' : String → Except TrackerError TiiFile)
    (hread : ∀ path tii, readTii path = .ok tii →
      ∃ tii', readTii' path = .ok tii' ∧ tii'.Shuffles tii)
    (hread' : ∀ path tii', readTii' path = .ok tii' →
      ∃ tii, readTii path = .ok tii ∧ tii'.Shuffles tii) :
    ((∃ specs, specializeAll T D.bech32 readTii sources = .ok specs) ↔
      ∃ specs', specializeAll T D.bech32 readTii' sources = .ok specs') ∧
    ∀ specs specs', specializeAll T D.bech32 readTii sources = .ok specs →
      specializeAll T D.bech32 readTii' sources = .ok specs' →
      ∀ start es, run (handleAction D cfg specs') start es = run (handleAction D cfg specs) start es
    := by
  refine ⟨⟨?_, ?_⟩, ?_⟩
  · rintro ⟨specs, h⟩
    obtain ⟨specs', h', -⟩ := specializeAll_shuffles hread h
    exact ⟨specs', h'⟩
  · rintro ⟨specs', h'⟩
    have hback : ∀ path tii', readTii' path = .ok tii' →
        ∃ tii, readTii path = .ok tii ∧ tii.Shuffles tii' := by
      intro path tii' htii'
      obtain ⟨tii, htii, hshuffles⟩ := hread' path tii' htii'
      exact ⟨tii, htii, hshuffles.symm⟩
    obtain ⟨specs, h, -⟩ := specializeAll_shuffles hback h'
    exact ⟨specs, h⟩
  · intro specs specs' h h' start es
    obtain ⟨specs'', h'', halike⟩ := specializeAll_shuffles hread h
    cases h'.symm.trans h''
    rw [handleAction_alike halike]

/-- The siblings in the other order. -/
theorem tracker_order_free_sample :
    ∃ specs specs', specializeAll Sample.tx3 Sample.bech32
        (Sample.readSiblings ["open", "close"] (by decide)) [Sample.sourceNamed "sample"] =
          .ok specs ∧
      specializeAll Sample.tx3 Sample.bech32 (Sample.readSiblings ["close", "open"] (by decide))
        [Sample.sourceNamed "sample"] = .ok specs' ∧
      ∀ start es, run (handleAction (Sample.deps []) Sample.cfg specs') start es =
        run (handleAction (Sample.deps []) Sample.cfg specs) start es := by
  have hshuffles : (Sample.siblingTii ["close", "open"] (by decide)).Shuffles
      (Sample.siblingTii ["open", "close"] (by decide)) := by
    have hrefl : ∀ found : Option Profile, Option.Rel Profile.Reorders found found := by
      intro found
      cases found with
      | none => exact .none
      | some profile => exact .some ⟨.refl _, rfl⟩
    exact ⟨rfl, rfl, List.Perm.swap _ _ _, fun name => hrefl _⟩
  obtain ⟨specs, hspecs⟩ : ∃ specs, specializeAll Sample.tx3 Sample.bech32
      (Sample.readSiblings ["open", "close"] (by decide)) [Sample.sourceNamed "sample"] =
        .ok specs := by
    obtain ⟨txs, hone⟩ := Sample.specializeOne_siblings (show ["open", "close"].Nodup by decide)
      (List.cons_ne_nil _ _) "sample"
    rw [specializeAll, hone]
    exact ⟨_, rfl⟩
  obtain ⟨hstarts, hruns⟩ := tracker_order_free Sample.tx3 (Sample.deps []) Sample.cfg
    [Sample.sourceNamed "sample"] (Sample.readSiblings ["open", "close"] (by decide))
    (Sample.readSiblings ["close", "open"] (by decide))
    (fun _ tii h => by cases h; exact ⟨_, rfl, hshuffles⟩)
    (fun _ tii h => by cases h; exact ⟨_, rfl, hshuffles⟩)
  obtain ⟨specs', hspecs'⟩ := hstarts.mp ⟨specs, hspecs⟩
  exact ⟨specs, specs', hspecs, hspecs', hruns specs specs' hspecs hspecs'⟩

end Tx3Lift
