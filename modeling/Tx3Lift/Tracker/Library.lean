import Tx3Lift.Core.Grammar
import Tx3Lift.Lib.Emit
import Tx3Lift.Tracker.Provenance

/-!
# The tracker beside the library

The tracker does not route through the library: it specializes once, caches, ranks and stores.
What it stores is what the library's router returns for some order of the document's hash maps,
and what it caches are the library's fingerprints.

* `routesTo_iff`: some order routes to what one of the transactions lifts to.
* `stored_row_routed`: every stored row is a lift the library routes to.
* `stored_iff_routed`: in mode `All` the stored pairs are those the library routes.
* `fingerprints_are_cached`: the caches of the profiles are the slices of `fingerprints_for_all`.
-/

namespace Tx3Lift

open Lib

/-! ## Routing in some order -/

/-- In some order of the document's maps, `route_and_lift_with_profile` returns this lift. -/
def RoutesTo (P : Pallas) (T : Tx3) (bech32 : String → Except String ByteBuf) (tii : TiiFile)
    (profileName : String) (payload : CardanoPayload) (lifted : Lifted) : Prop :=
  ∃ tii' : TiiFile, tii'.Reorders tii ∧
    routeAndLiftWithProfile P T bech32 tii' profileName payload = .ok (some lifted)

section RoutesTo

variable {P : Pallas} {T : Tx3} {bech32 : String → Except String ByteBuf} {tii : TiiFile}
  {profileName : String} {payload : CardanoPayload} {lifted : Lifted}

/-- The orders reach every transaction that lifts the payload, and nothing else. -/
theorem routesTo_iff (hprofile : profileName ∈ tii.profiles.keys) :
    RoutesTo P T bech32 tii profileName payload lifted ↔ ∃ txName ∈ tii.transactions.keys,
      tryLift P T bech32 tii txName profileName payload ∅ = .ok (some lifted) := by
  constructor
  · rintro ⟨tii', hreorders, hroute⟩
    rw [routeAndLiftWithProfile, tryLift_reorders hreorders] at hroute
    rcases firstHit_cases (fun txName => tryLift P T bech32 tii txName profileName payload ∅)
      tii'.transactions.keys with ⟨hnone, -⟩ | ⟨txName, hmem, -, heq⟩
    · cases hroute.symm.trans hnone
    · exact ⟨txName, (hreorders.mem_keys txName).1.mp hmem, heq.symm.trans hroute⟩
  · rintro ⟨txName, htx, htry⟩
    obtain ⟨tii', hreorders, ⟨rest, hkeys⟩, -⟩ := TiiFile.exists_reordered htx hprofile
    refine ⟨tii', hreorders, ?_⟩
    rw [routeAndLiftWithProfile, tryLift_reorders hreorders, hkeys]
    refine (firstHit_cons_of_contends ?_).trans htry
    simp [htry]

end RoutesTo

/-! ## Sources and their caches -/

section Sources

variable {P : Pallas} {T : Tx3} {bech32 : String → Except String ByteBuf}
  {readTii : String → Except TrackerError TiiFile} {sources : List SourceConfig}
  {specialized : List SpecializedTii} {src : SourceConfig} {spec : SpecializedTii}
  {payload : CardanoPayload} {tx : MultiEraTx}

/-- The configured source behind a specialized one. -/
theorem exists_source (h : specializeAll T bech32 readTii sources = .ok specialized)
    (hspec : spec ∈ specialized) :
    ∃ src ∈ sources, specializeOne T bech32 readTii src = .ok spec := by
  obtain ⟨specs, hspecs, rfl⟩ := specializeAll_eq_ok.mp h
  exact exists_left_of_forall₂ hspecs (List.mem_of_mem_filter hspec)

/-- Every configured source specializes, and is kept if it has anchors. -/
theorem exists_specialized (h : specializeAll T bech32 readTii sources = .ok specialized)
    (hsrc : src ∈ sources) : ∃ spec, specializeOne T bech32 readTii src = .ok spec ∧
      (spec.anchors.isEmpty = false → spec ∈ specialized) := by
  obtain ⟨specs, hspecs, rfl⟩ := specializeAll_eq_ok.mp h
  obtain ⟨spec, hmem, hone⟩ := exists_right_of_forall₂ hspecs hsrc
  exact ⟨spec, hone, fun hanchors => List.mem_filter.mpr ⟨hmem, by simp [hanchors]⟩⟩

/-- A source that gates has anchors. -/
theorem isEmpty_of_gates {anchors : ProtocolAnchors} {summary : PayloadSummary}
    (h : (anchors.hits summary).gates = true) : anchors.isEmpty = false := by
  obtain ⟨x, hx, -⟩ := (gates_iff _ _).mp h
  by_contra hempty
  simp only [ProtocolAnchors.isEmpty, Bool.not_eq_false, Bool.and_eq_true,
    Std.ExtTreeSet.isEmpty_iff] at hempty
  obtain ⟨⟨haddresses, hrefs⟩, hpolicies⟩ := hempty
  cases x <;> simp [ProtocolAnchors.Has, haddresses, hrefs, hpolicies] at hx

/-- The profile of a source is one of its document. -/
theorem profile_mem_keys (h : specializeOne T bech32 readTii src = .ok spec) :
    ∃ profile, spec.tii.profiles.get? src.profile = some profile ∧
      ProtocolAnchors.fromProfile bech32 profile = .ok spec.anchors ∧
      src.profile ∈ spec.tii.profiles.keys := by
  obtain ⟨profile, -, -, -, hname, hlookup, hanchors, -⟩ := specializeOne_eq_ok h
  have hget := lookupProfile_eq_ok.mp hlookup
  rw [hname] at hget
  exact ⟨profile, hget, hanchors, List.mem_map_of_mem (HashMap.get?_eq_some_iff.mp hget)⟩

/-- What a source has cached for a name is the fingerprint of its profile. -/
theorem cachedFingerprint_iff (h : specializeOne T bech32 readTii src = .ok spec) {txName : String}
    {fp : Fingerprint} :
    spec.txs[txName]?.map Prod.snd = some fp ↔ txName ∈ spec.tii.transactions.keys ∧
      fingerprintFor T bech32 spec.tii txName src.profile = .ok fp := by
  obtain ⟨-, -, -, -, hname, -⟩ := specializeOne_eq_ok h
  rw [Option.map_eq_some_iff, ← hname]
  constructor
  · rintro ⟨⟨tir, fp⟩, hcached, rfl⟩
    obtain ⟨htx, -, hfp⟩ := (cached_iff h).mp hcached
    exact ⟨htx, hfp⟩
  · rintro ⟨htx, hfp⟩
    obtain ⟨tir, fp', hcached⟩ := exists_cached h htx
    cases hfp.symm.trans ((cached_iff h).mp hcached).2.2
    exact ⟨(tir, fp), hcached, rfl⟩

/-- `try_lift` gives what a cached match lifts to. -/
theorem tryLift_of_cached (h : specializeOne T bech32 readTii src = .ok spec) {txName : String}
    {tir : Tir.Tx} {fp : Fingerprint} {a : MatchAssignment} {lifted : Lifted}
    (hparse : payload.parsed P = .ok tx) (hcached : spec.txs[txName]? = some (tir, fp))
    (hadmitted : fp.matchesSummary (summarizeTx P payload tx) = true)
    (hmatch : matchTx P tir payload "" "" = .ok (some a))
    (hlift : lift P bech32 spec.tii txName spec.profileName tir payload a = .ok lifted) :
    tryLift P T bech32 spec.tii txName spec.profileName payload ∅ = .ok (some lifted) := by
  obtain ⟨-, hspec, hfp⟩ := (cached_iff h).mp hcached
  have hnamed : matchTx P tir payload spec.profileName txName = .ok (some
      { a with profileName := spec.profileName, txName := txName }) := by
    rw [matchTx_names spec.profileName txName "" "", hmatch]
    rfl
  have htry := tryLift_of_accepted hspec hparse hfp hadmitted hnamed
  -- the names in the assignment are not read
  have hsame : lift P bech32 spec.tii txName spec.profileName tir payload
      { a with profileName := spec.profileName, txName := txName } = .ok lifted := hlift
  rwa [hsame] at htry

end Sources

section Routed

variable {T : Tx3} {D : Deps} {readTii : String → Except TrackerError TiiFile}
  {specialized : List SpecializedTii} {src : SourceConfig} {spec : SpecializedTii}
  {payload : CardanoPayload} {tx : MultiEraTx} {lifted : Lifted}

/-- A stored row holds what the library routes to. -/
theorem routesTo_of_explains (h : specializeOne T D.bech32 readTii src = .ok spec)
    (hparse : payload.parsed D.toPallas = .ok tx) {block : MultiEraBlock} {tir : Tir.Tx}
    {fp : Fingerprint} {a : MatchAssignment} {row : MatchesRow}
    (hexplains : Explains D specialized block payload tx spec tir fp a lifted row) :
    RoutesTo D.toPallas T D.bech32 spec.tii src.profile payload lifted := by
  obtain ⟨-, -, -, -, hprofile, -⟩ := specializeOne_eq_ok h
  obtain ⟨-, -, -, hkey⟩ := profile_mem_keys h
  have htry := tryLift_of_cached h hparse hexplains.cached hexplains.admitted hexplains.matched
    hexplains.lifts
  rw [hprofile] at htry
  exact (routesTo_iff hkey).mpr ⟨row.txName, ((cached_iff h).mp hexplains.cached).1, htry⟩

/-- What the library routes, the tracker matches, if the anchors gate it. -/
theorem matches_of_routesTo (h : specializeOne T D.bech32 readTii src = .ok spec)
    (hparse : payload.parsed D.toPallas = .ok tx)
    (hgates : (spec.anchors.hits (summarizeTx D.toPallas payload tx)).gates = true)
    (hroutes : RoutesTo D.toPallas T D.bech32 spec.tii src.profile payload lifted) :
    spec.Matches D.toPallas payload := by
  obtain ⟨-, -, -, -, hprofile, -⟩ := specializeOne_eq_ok h
  obtain ⟨-, -, -, hkey⟩ := profile_mem_keys h
  obtain ⟨txName, htx, htry⟩ := (routesTo_iff hkey).mp hroutes
  rw [← hprofile] at htry
  exact ⟨tx, hparse, hgates, txName, accepts_of_tryLift h htx htry⟩

/-- An Apply that was handled stores the pairs that it routes. -/
theorem key_mem_of_routesTo {cfg : Config} (hmode : cfg.mode = .all) {sources : List SourceConfig}
    (hspec : specializeAll T D.bech32 readTii sources = .ok specialized) (hsrc : src ∈ sources)
    {inputs : List Input} {before after : List (Option Action)} {anyTx : AnyChainTx}
    {block : MultiEraBlock} {rows : List OwnedMatchRow} {tii : TiiFile} {profile : Profile}
    {anchors : ProtocolAnchors}
    (hsplit : actionsOf inputs = before ++ some (.apply anyTx) :: after)
    (hkept : NotUndone tx.hash.bytes after)
    (hpresents : Presents D.toPallas anyTx block payload tx)
    (hrun : runSpecializations D specialized payload block.slot block.hash.bytes cfg.mode =
      .ok rows)
    (htii : readTii src.tiiPath = .ok tii) (hget : tii.profiles.get? src.profile = some profile)
    (hanchors : ProtocolAnchors.fromProfile D.bech32 profile = .ok anchors)
    (hgates : (anchors.hits (summarizeTx D.toPallas payload tx)).gates = true)
    (hroutes : RoutesTo D.toPallas T D.bech32 tii src.profile payload lifted) :
    (tx.hash.bytes, src.name) ∈
      (trackerAfter D cfg specialized inputs).store.matchesTable.map MatchesRow.key := by
  obtain ⟨spec, hone, hkeep⟩ := exists_specialized hspec hsrc
  obtain ⟨-, -, htii', hname, -⟩ := specializeOne_eq_ok hone
  cases htii.symm.trans htii'
  obtain ⟨profile', hget', hanchors', -⟩ := profile_mem_keys hone
  cases hget.symm.trans hget'
  cases hanchors.symm.trans hanchors'
  rw [← hname]
  exact key_mem_of_matches hmode hsplit hkept hpresents hrun (hkeep (isEmpty_of_gates hgates))
    (matches_of_routesTo hone hpresents.parses hgates hroutes)

end Routed

/-- **Every stored row is a lift of the library.** After any sequence of connects and responses,
    each stored row holds what `route_and_lift_with_profile` returns, in some order of the
    document's maps, for the transaction of an Apply that was not undone since. -/
theorem stored_row_routed (T : Tx3) (D : Deps) (cfg : Config) (sources : List SourceConfig)
    (readTii : String → Except TrackerError TiiFile) (specialized : List SpecializedTii)
    (hspec : specializeAll T D.bech32 readTii sources = .ok specialized) (inputs : List Input)
    (row : MatchesRow)
    (hrow : row ∈ (trackerAfter D cfg specialized inputs).store.matchesTable) :
    ∃ before anyTx after block payload tx tii lifted, ∃ src ∈ sources,
      actionsOf inputs = before ++ some (.apply anyTx) :: after ∧ NotUndone row.txHash after ∧
      Presents D.toPallas anyTx block payload tx ∧ readTii src.tiiPath = .ok tii ∧
      RoutesTo D.toPallas T D.bech32 tii src.profile payload lifted ∧
      D.toJson lifted = .ok row.lifted ∧ row.txHash = lifted.txId ∧ row.sourceName = src.name ∧
      row.protocolName = lifted.protocolName ∧ row.txName = lifted.txName ∧
      row.profileName = lifted.profileName := by
  obtain ⟨before, anyTx, after, block, payload, tx, spec, tir, fp, a, lifted, hsplit, hkept,
    hpresents, -, hexplains⟩ := mem_matches_trackerAfter hrow
  obtain ⟨src, hsrc, hone⟩ := exists_source hspec hexplains.source
  obtain ⟨-, -, htii, hname, -⟩ := specializeOne_eq_ok hone
  obtain ⟨tx', hparse', hid, hprotocol, htxName, hprofileName⟩ := lift_parsed hexplains.lifts
  cases hpresents.parses.symm.trans hparse'
  refine ⟨before, anyTx, after, block, payload, tx, spec.tii, lifted, src, hsrc, hsplit, hkept,
    hpresents, htii, routesTo_of_explains hone hpresents.parses hexplains, hexplains.stored, ?_, ?_,
    ?_, htxName.symm, ?_⟩
  · rw [hexplains.txHash, hid]
  · rw [hexplains.sourceName, hname]
  · rw [hexplains.protocolName, hprotocol]
  · rw [hexplains.profileName, hprofileName]

namespace Sample

theorem key_mem_source :
    (scriptTx.hash.bytes, "sample") ∈
      (trackerAfter chainDeps cfg [source] sampleInputs).store.matchesTable.map
        MatchesRow.key := by
  decide +kernel

end Sample

theorem stored_row_routed_sample :
    ∃ row ∈ (trackerAfter Sample.chainDeps Sample.cfg [Sample.source]
        sampleInputs).store.matchesTable,
      ∃ before anyTx after block payload tx tii lifted, ∃ src ∈ [Sample.sourceNamed "sample"],
        actionsOf sampleInputs = before ++ some (.apply anyTx) :: after ∧
        NotUndone row.txHash after ∧ Presents Sample.chainDeps.toPallas anyTx block payload tx ∧
        Sample.readTouch src.tiiPath = .ok tii ∧
        RoutesTo Sample.chainDeps.toPallas Sample.touchTx3 Sample.chainDeps.bech32 tii src.profile
          payload lifted ∧
        Sample.chainDeps.toJson lifted = .ok row.lifted ∧ row.txHash = lifted.txId ∧
        row.sourceName = src.name ∧ row.protocolName = lifted.protocolName ∧
        row.txName = lifted.txName ∧ row.profileName = lifted.profileName := by
  obtain ⟨row, hrow, -⟩ := List.mem_map.mp Sample.key_mem_source
  exact ⟨row, hrow, stored_row_routed Sample.touchTx3 Sample.chainDeps Sample.cfg
    [Sample.sourceNamed "sample"] Sample.readTouch [Sample.source]
    (Sample.specializeAll_touch ["sample"]) sampleInputs row hrow⟩

/-- **The stored pairs are the routed ones.** In mode `All` a transaction is stored for a source
    name exactly when some Apply of it, not undone since, was handled, and a configured source of
    this name gates it and routes it in some order. -/
theorem stored_iff_routed (T : Tx3) (D : Deps) (cfg : Config) (hmode : cfg.mode = .all)
    (sources : List SourceConfig) (readTii : String → Except TrackerError TiiFile)
    (specialized : List SpecializedTii)
    (hspec : specializeAll T D.bech32 readTii sources = .ok specialized) (inputs : List Input)
    (txHash : ByteBuf) (sourceName : String) :
    (txHash, sourceName) ∈
        (trackerAfter D cfg specialized inputs).store.matchesTable.map MatchesRow.key ↔
      ∃ before anyTx after block payload tx tii profile anchors lifted, ∃ src ∈ sources,
        actionsOf inputs = before ++ some (.apply anyTx) :: after ∧ NotUndone txHash after ∧
        Presents D.toPallas anyTx block payload tx ∧ tx.hash.bytes = txHash ∧
        (∃ rows, runSpecializations D specialized payload block.slot block.hash.bytes cfg.mode =
          .ok rows) ∧
        src.name = sourceName ∧ readTii src.tiiPath = .ok tii ∧
        tii.profiles.get? src.profile = some profile ∧
        ProtocolAnchors.fromProfile D.bech32 profile = .ok anchors ∧
        (anchors.hits (summarizeTx D.toPallas payload tx)).gates = true ∧
        RoutesTo D.toPallas T D.bech32 tii src.profile payload lifted := by
  constructor
  · intro hmem
    obtain ⟨row, hrow, hkey⟩ := List.mem_map.mp hmem
    obtain ⟨rfl, rfl⟩ : row.txHash = txHash ∧ row.sourceName = sourceName := Prod.mk.inj hkey
    obtain ⟨before, anyTx, after, block, payload, tx, spec, tir, fp, a, lifted, hsplit, hkept,
      hpresents, hrun, hexplains⟩ := mem_matches_trackerAfter hrow
    obtain ⟨src, hsrc, hone⟩ := exists_source hspec hexplains.source
    obtain ⟨-, -, htii, hname, -⟩ := specializeOne_eq_ok hone
    obtain ⟨profile, hget, hanchors, -⟩ := profile_mem_keys hone
    exact ⟨before, anyTx, after, block, payload, tx, spec.tii, profile, spec.anchors, lifted, src,
      hsrc, hsplit, hkept, hpresents, hexplains.txHash.symm, hrun,
      hname.symm.trans hexplains.sourceName.symm, htii, hget, hanchors, hexplains.gates,
      routesTo_of_explains hone hpresents.parses hexplains⟩
  · rintro ⟨before, anyTx, after, block, payload, tx, tii, profile, anchors, lifted, src, hsrc,
      hsplit, hkept, hpresents, rfl, ⟨rows, hrun⟩, rfl, htii, hget, hanchors, hgates, hroutes⟩
    exact key_mem_of_routesTo hmode hspec hsrc hsplit hkept hpresents hrun htii hget hanchors hgates
      hroutes

theorem stored_iff_routed_sample :
    ∃ before anyTx after block payload tx tii profile anchors lifted,
      ∃ src ∈ [Sample.sourceNamed "sample"],
        actionsOf sampleInputs = before ++ some (.apply anyTx) :: after ∧
        NotUndone Sample.scriptTx.hash.bytes after ∧
        Presents Sample.chainDeps.toPallas anyTx block payload tx ∧
        tx.hash.bytes = Sample.scriptTx.hash.bytes ∧
        (∃ rows, runSpecializations Sample.chainDeps [Sample.source] payload block.slot
          block.hash.bytes Sample.cfg.mode = .ok rows) ∧
        src.name = "sample" ∧ Sample.readTouch src.tiiPath = .ok tii ∧
        tii.profiles.get? src.profile = some profile ∧
        ProtocolAnchors.fromProfile Sample.chainDeps.bech32 profile = .ok anchors ∧
        (anchors.hits (summarizeTx Sample.chainDeps.toPallas payload tx)).gates = true ∧
        RoutesTo Sample.chainDeps.toPallas Sample.touchTx3 Sample.chainDeps.bech32 tii src.profile
          payload lifted :=
  (stored_iff_routed Sample.touchTx3 Sample.chainDeps Sample.cfg rfl [Sample.sourceNamed "sample"]
    Sample.readTouch [Sample.source] (Sample.specializeAll_touch ["sample"]) sampleInputs
    Sample.scriptTx.hash.bytes "sample").mp Sample.key_mem_source

/-! ## Fingerprints of a whole document -/

section Fingerprints

variable {T : Tx3} {bech32 : String → Except String ByteBuf} {tii tii' : TiiFile}
  {all : BTreeMap (String × String) Fingerprint}

/-- The loops of `fingerprints_for_all` are one loop over the pairs of names. -/
theorem fingerprintsForAll_eq :
    fingerprintsForAll T bech32 tii =
      (tii.transactions.keys ×ˢ tii.profiles.keys).foldlM (fun out p => do
        let fp ← fingerprintFor T bech32 tii p.1 p.2
        return out.insert p fp) ∅ := by
  unfold fingerprintsForAll
  generalize (∅ : BTreeMap (String × String) Fingerprint) = out
  induction tii.transactions.keys generalizing out with
  | nil => rfl
  | cons txName names ih =>
    rw [List.product_cons, List.foldlM_append, List.foldlM_cons, List.foldlM_map]
    exact bind_congr fun out' => ih out'

/-- `fingerprints_for_all` succeeds if every pair of names has a fingerprint. -/
theorem exists_fingerprintsForAll_iff :
    (∃ all, fingerprintsForAll T bech32 tii = .ok all) ↔
      ∀ p ∈ tii.transactions.keys ×ˢ tii.profiles.keys,
        ∃ fp, fingerprintFor T bech32 tii p.1 p.2 = .ok fp := by
  rw [fingerprintsForAll_eq]
  exact foldlM_eq_ok_iff (fun _ _ => Except.exists_bind_eq_ok fun _ => ⟨_, rfl⟩) _ _

/-- It returns exactly the fingerprints of the pairs of names. -/
theorem fingerprintsForAll_eq_ok :
    fingerprintsForAll T bech32 tii = .ok all ↔
      (∀ p ∈ tii.transactions.keys ×ˢ tii.profiles.keys,
        ∃ fp, fingerprintFor T bech32 tii p.1 p.2 = .ok fp) ∧
      ∀ p fp, all[p]? = some fp ↔ p ∈ tii.transactions.keys ×ˢ tii.profiles.keys ∧
        fingerprintFor T bech32 tii p.1 p.2 = .ok fp := by
  have hget : ∀ {out}, fingerprintsForAll T bech32 tii = .ok out → ∀ p fp, out[p]? = some fp ↔
      p ∈ tii.transactions.keys ×ˢ tii.profiles.keys ∧
        fingerprintFor T bech32 tii p.1 p.2 = .ok fp := by
    intro out hout
    rw [fingerprintsForAll_eq] at hout
    simpa using (foldlM_insert hout).2
  constructor
  · intro h
    exact ⟨exists_fingerprintsForAll_iff.mp ⟨all, h⟩, hget h⟩
  · rintro ⟨hall, hspec⟩
    obtain ⟨out, hout⟩ := exists_fingerprintsForAll_iff.mpr hall
    have hsame : all = out := by
      refine Std.ExtTreeMap.ext_getElem? fun p => Option.ext fun fp => ?_
      rw [hspec, hget hout]
    rw [hout, hsame]

theorem fingerprintFor_reorders (h : tii'.Reorders tii) :
    fingerprintFor T bech32 tii' = fingerprintFor T bech32 tii := by
  obtain ⟨htx, hprofile⟩ := h.get?
  funext txName profileName
  simp only [fingerprintFor, specialize, lookupTx, lookupProfile, htx, hprofile, extract,
    emptyFingerprint, h.version, h.protocolName]

/-- The fingerprints of a document in another order. -/
theorem fingerprintsForAll_reorders (h : tii'.Reorders tii)
    (hall : fingerprintsForAll T bech32 tii = .ok all) :
    fingerprintsForAll T bech32 tii' = .ok all := by
  have hmem : ∀ p : String × String, p ∈ tii'.transactions.keys ×ˢ tii'.profiles.keys ↔
      p ∈ tii.transactions.keys ×ˢ tii.profiles.keys := by
    intro p
    rw [List.mem_product, List.mem_product, (h.mem_keys p.1).1, (h.mem_keys p.2).2]
  rw [fingerprintsForAll_eq_ok] at hall ⊢
  simpa only [hmem, fingerprintFor_reorders h] using hall

/-- What a fingerprint is made from. -/
theorem fingerprintFor_eq_ok {txName profileName : String} {fp : Fingerprint}
    (h : fingerprintFor T bech32 tii txName profileName = .ok fp) :
    ∃ profile args tir, lookupProfile tii profileName = .ok profile ∧
      argsFromProfile bech32 profile ∅ = .ok args ∧
      specialize T bech32 tii txName profileName ∅ = .ok tir := by
  obtain ⟨profile, hprofile, h⟩ := Except.bind_eq_ok h
  obtain ⟨args, hargs, h⟩ := Except.bind_eq_ok h
  obtain ⟨_, -, h⟩ := Except.bind_eq_ok h
  obtain ⟨tir, htir, -⟩ := Except.bind_eq_ok h
  exact ⟨profile, args, tir, hprofile, hargs, htir⟩

/-- A source specializes if its document has a fingerprint for each of its transactions. -/
theorem exists_specializeOne_of_fingerprints {readTii : String → Except TrackerError TiiFile}
    {src : SourceConfig} (hread : readTii src.tiiPath = .ok tii)
    (hne : tii.transactions.keys ≠ []) (hall : ∀ txName ∈ tii.transactions.keys,
      ∃ fp, fingerprintFor T bech32 tii txName src.profile = .ok fp) :
    ∃ spec, specializeOne T bech32 readTii src = .ok spec := by
  obtain ⟨first, hfirst⟩ := List.exists_mem_of_ne_nil _ hne
  obtain ⟨fp, hfp⟩ := hall first hfirst
  obtain ⟨profile, args, -, hprofile, hargs, -⟩ := fingerprintFor_eq_ok hfp
  have hparties : ∀ address ∈ profile.parties.values, ∃ bytes, bech32 address = .ok bytes := by
    intro address haddress
    obtain ⟨entry, hentry, rfl⟩ := List.mem_map.mp haddress
    exact argsFromProfile_parties hargs entry hentry
  obtain ⟨anchors, hanchors, -⟩ := fromProfile_spec hparties
  have htirs : ∀ txName ∈ tii.transactions.keys,
      ∃ tir, specialize T bech32 tii txName src.profile ∅ = .ok tir := by
    intro txName htx
    obtain ⟨fp, hfp⟩ := hall txName htx
    obtain ⟨-, -, tir, -, -, htir⟩ := fingerprintFor_eq_ok hfp
    exact ⟨tir, htir⟩
  obtain ⟨txs, hone⟩ := exists_specializeOne hread hprofile hanchors hargs htirs hne
  exact ⟨_, hone⟩

end Fingerprints

/-- **The caches are slices of the document's fingerprints.** `fingerprints_for_all` succeeds
    exactly when the tracker accepts the document under each of its profiles, gives the same in
    every order of the document's maps, and a source has in its cache exactly the fingerprints of
    its profile. -/
theorem fingerprints_are_cached (T : Tx3) (bech32 : String → Except String ByteBuf) (tii : TiiFile)
    (hne : tii.transactions.keys ≠ []) :
    ((∃ all, fingerprintsForAll T bech32 tii = .ok all) ↔ ∀ readTii src,
      readTii src.tiiPath = .ok tii → src.profile ∈ tii.profiles.keys →
        ∃ spec, specializeOne T bech32 readTii src = .ok spec) ∧
    ∀ all, fingerprintsForAll T bech32 tii = .ok all → ∀ tii' : TiiFile, tii'.Reorders tii →
      fingerprintsForAll T bech32 tii' = .ok all ∧
      ∀ readTii src spec, readTii src.tiiPath = .ok tii' →
        specializeOne T bech32 readTii src = .ok spec →
        ∀ txName : String, spec.txs[txName]?.map Prod.snd = all[(txName, src.profile)]? := by
  refine ⟨⟨?_, ?_⟩, ?_⟩
  · rintro ⟨all, hall⟩ readTii src hread hmem
    obtain ⟨hfps, -⟩ := fingerprintsForAll_eq_ok.mp hall
    exact exists_specializeOne_of_fingerprints hread hne fun txName htx =>
      hfps (txName, src.profile) (List.mem_product.mpr ⟨htx, hmem⟩)
  · intro hspecs
    refine exists_fingerprintsForAll_iff.mpr fun p hp => ?_
    obtain ⟨htx, hmem⟩ := List.mem_product.mp hp
    obtain ⟨spec, hone⟩ := hspecs (fun _ => .ok tii) ⟨"", "", p.2⟩ rfl hmem
    obtain ⟨-, -, hread, -⟩ := specializeOne_eq_ok hone
    cases hread
    obtain ⟨tir, fp, hcached⟩ := exists_cached hone htx
    exact ⟨fp, ((cachedFingerprint_iff hone).mp (by rw [hcached]; rfl)).2⟩
  · intro all hall tii' hreorders
    have hall' := fingerprintsForAll_reorders hreorders hall
    refine ⟨hall', fun readTii src spec hread hone txName => Option.ext fun fp => ?_⟩
    obtain ⟨-, hget⟩ := fingerprintsForAll_eq_ok.mp hall'
    obtain ⟨-, -, hread', -⟩ := specializeOne_eq_ok hone
    cases hread.symm.trans hread'
    obtain ⟨-, -, -, hmem⟩ := profile_mem_keys hone
    rw [hget, List.mem_product, cachedFingerprint_iff hone, and_iff_left hmem]

/-- The siblings, in the other order. -/
theorem fingerprints_are_cached_sample :
    ∃ all, fingerprintsForAll Sample.tx3 Sample.bech32
        (Sample.siblingTii ["open", "close"] (by decide)) = .ok all ∧
      fingerprintsForAll Sample.tx3 Sample.bech32
        (Sample.siblingTii ["close", "open"] (by decide)) = .ok all ∧
      ∃ spec, specializeOne Sample.tx3 Sample.bech32
          (Sample.readSiblings ["close", "open"] (by decide)) (Sample.sourceNamed "sample") =
            .ok spec ∧
        ∀ txName : String, spec.txs[txName]?.map Prod.snd = all[(txName, "preview")]? := by
  have hreorders : (Sample.siblingTii ["close", "open"] (by decide)).Reorders
      (Sample.siblingTii ["open", "close"] (by decide)) :=
    ⟨rfl, rfl, List.Perm.swap _ _ _, List.Perm.refl _⟩
  obtain ⟨all, hall⟩ : ∃ all, fingerprintsForAll Sample.tx3 Sample.bech32
      (Sample.siblingTii ["open", "close"] (by decide)) = .ok all := by
    refine exists_fingerprintsForAll_iff.mpr fun p hp => ?_
    obtain ⟨htx, hprofile⟩ := List.mem_product.mp hp
    rw [Sample.keys_siblingTii] at htx
    obtain ⟨fp, hfp, -⟩ :=
      Sample.fingerprintFor_sibling (show ["open", "close"].Nodup by decide) htx
    rw [List.mem_singleton.mp hprofile]
    exact ⟨fp, hfp⟩
  obtain ⟨txs, hone⟩ := Sample.specializeOne_siblings (show ["close", "open"].Nodup by decide)
    (List.cons_ne_nil _ _) "sample"
  obtain ⟨-, hcached⟩ := fingerprints_are_cached Sample.tx3 Sample.bech32
    (Sample.siblingTii ["open", "close"] (by decide)) (List.cons_ne_nil _ _)
  obtain ⟨hall', hslices⟩ := hcached all hall _ hreorders
  exact ⟨all, hall, hall', _, hone, hslices _ _ _ rfl hone⟩

end Tx3Lift
