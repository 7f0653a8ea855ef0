import Tx3Lift.Tracker.Provenance
import Tx3Lift.Tracker.Redelivery

/-!
# The server-side filter

Model of `bin/tracker/src/upstream/predicate.rs`: the `[upstream.filter]` block becomes the
`TxPredicate` of every request. Evaluating a predicate is the server's work; what `utxorpc`
documents about it is a hypothesis.

* `compile_spec`: when the block compiles, and which transactions the predicate lets through.
* `filter_loses_nothing`: a filter that names every anchor of every source changes no row, over
  whole runs with rollbacks.
-/

namespace Tx3Lift

open Lib

/-! ## Vocabulary -/

/-- `UpstreamFilter` (`config.rs`, lines 78–90). -/
structure UpstreamFilter where
  addresses : List String
  movesPolicyId : Option String
  mintsPolicyId : Option String

/-- `UpstreamFilter::is_empty`. -/
def UpstreamFilter.isEmpty (filter : UpstreamFilter) : Bool :=
  filter.addresses.isEmpty && filter.movesPolicyId.isNone && filter.mintsPolicyId.isNone

/-- `cardano::AddressPattern`; the tracker sets no other field. -/
structure AddressPattern where
  exactAddress : Option ByteBuf

/-- `cardano::AssetPattern`; the tracker sets no other field. -/
structure AssetPattern where
  policyId : Option ByteBuf

/-- `cardano::TxPattern`; the tracker sets no other field. -/
structure TxPattern where
  hasAddress : Option AddressPattern := none
  movesAsset : Option AssetPattern := none
  mintsAsset : Option AssetPattern := none

/-- `watch::TxPredicate`; the tracker sets no other field. -/
structure TxPredicate where
  pattern : Option TxPattern := none
  anyOf : List TxPredicate := []

/-! ## Model -/

section Model

variable (bech32 : String → Except String ByteBuf)

/-- `predicate_from_pattern` (lines 63–70). -/
def predicateFromPattern (pattern : TxPattern) : TxPredicate := { pattern := some pattern }

def TxPattern.ofAddress (bytes : ByteBuf) : TxPattern :=
  { hasAddress := some { exactAddress := some bytes } }

def TxPattern.ofMoves (bytes : ByteBuf) : TxPattern :=
  { movesAsset := some { policyId := some bytes } }

def TxPattern.ofMints (bytes : ByteBuf) : TxPattern :=
  { mintsAsset := some { policyId := some bytes } }

/-- The body of the loop over `cfg.addresses` (lines 22–31). -/
def addressAlternative (addr : String) : Except TrackerError TxPredicate := do
  let bytes ← liftCore (decodeBech32Address bech32 addr)
  return predicateFromPattern (.ofAddress bytes)

/-- The block of a policy id (lines 33–42 and 44–53). -/
def policyAlternative (pattern : ByteBuf → TxPattern) :
    Option String → Except TrackerError (List TxPredicate)
  | none => return []
  | some policyHex => do
    let bytes ← okOr (hexDecode policyHex.toList) .hex
    return [predicateFromPattern (pattern bytes)]

/-- `compile` (lines 13–61). -/
def compile (filter : UpstreamFilter) : Except TrackerError (Option TxPredicate) :=
  if filter.isEmpty then return none
  else do
    let addresses ← filter.addresses.mapM (addressAlternative bech32)
    let moves ← policyAlternative .ofMoves filter.movesPolicyId
    let mints ← policyAlternative .ofMints filter.mintsPolicyId
    match addresses ++ moves ++ mints with
    | [alternative] => return some alternative
    | alternatives => return some { anyOf := alternatives }

end Model

/-! ## The server -/

/-- What the server decides about a transaction that it could send. -/
structure WatchServer where
  exhibits : TxPattern → AnyChainTx → Bool
  holds : TxPredicate → AnyChainTx → Bool

/-- Whether a transaction is sent under the predicate of a request. -/
def WatchServer.forwards (server : WatchServer) (predicate : Option TxPredicate)
    (anyTx : AnyChainTx) : Bool :=
  match predicate with
  | none => true
  | some p => server.holds p anyTx

/-- How predicates are composed: a pattern, or alternatives. -/
structure WatchServer.Composes (server : WatchServer) : Prop where
  ofPattern : ∀ pattern anyTx,
    server.holds (predicateFromPattern pattern) anyTx = server.exhibits pattern anyTx
  ofAnyOf : ∀ alternatives anyTx,
    server.holds { anyOf := alternatives } anyTx = alternatives.any fun p => server.holds p anyTx

/-- The patterns that a filter asks for. -/
def UpstreamFilter.Asks (bech32 : String → Except String ByteBuf) (filter : UpstreamFilter)
    (pattern : TxPattern) : Prop :=
  (∃ addr ∈ filter.addresses, ∃ bytes, bech32 addr = .ok bytes ∧ pattern = .ofAddress bytes) ∨
    (∃ policyHex bytes, filter.movesPolicyId = some policyHex ∧
      hexDecode policyHex.toList = some bytes ∧ pattern = .ofMoves bytes) ∨
    ∃ policyHex bytes, filter.mintsPolicyId = some policyHex ∧
      hexDecode policyHex.toList = some bytes ∧ pattern = .ofMints bytes

/-- Every address and every policy id of the filter decodes. -/
structure UpstreamFilter.Decodes (bech32 : String → Except String ByteBuf)
    (filter : UpstreamFilter) : Prop where
  addresses : ∀ addr ∈ filter.addresses, ∃ bytes, bech32 addr = .ok bytes
  moves : ∀ policyHex, filter.movesPolicyId = some policyHex →
    ∃ bytes, hexDecode policyHex.toList = some bytes
  mints : ∀ policyHex, filter.mintsPolicyId = some policyHex →
    ∃ bytes, hexDecode policyHex.toList = some bytes

section Compile

variable {bech32 : String → Except String ByteBuf} {filter : UpstreamFilter}

theorem addressAlternative_eq_ok {addr : String} {p : TxPredicate} :
    addressAlternative bech32 addr = .ok p ↔
      ∃ bytes, bech32 addr = .ok bytes ∧ p = predicateFromPattern (.ofAddress bytes) := by
  constructor
  · intro h
    obtain ⟨bytes, hbytes, h⟩ := Except.bind_eq_ok h
    cases h
    exact ⟨bytes, decodeBech32Address_eq_ok.mp (liftCore_eq_ok.mp hbytes), rfl⟩
  · rintro ⟨bytes, hbytes, rfl⟩
    rw [addressAlternative, liftCore_eq_ok.mpr (decodeBech32Address_eq_ok.mpr hbytes)]
    rfl

theorem policyAlternative_eq_ok {pattern : ByteBuf → TxPattern} {policyId : Option String}
    {ps : List TxPredicate} :
    policyAlternative pattern policyId = .ok ps ↔
      (policyId = none ∧ ps = []) ∨ ∃ policyHex bytes, policyId = some policyHex ∧
        hexDecode policyHex.toList = some bytes ∧ ps = [predicateFromPattern (pattern bytes)] := by
  cases policyId with
  | none => simp [policyAlternative, pure, Except.pure, eq_comm]
  | some policyHex =>
    cases hbytes : hexDecode policyHex.toList with
    | none => simp [policyAlternative, hbytes, okOr, bind, Except.bind]
    | some bytes =>
      simp [policyAlternative, hbytes, okOr, bind, Except.bind, pure, Except.pure, eq_comm]

theorem policyAlternative_total {pattern : ByteBuf → TxPattern} {policyId : Option String} :
    (∃ ps, policyAlternative pattern policyId = .ok ps) ↔
      ∀ policyHex, policyId = some policyHex →
        ∃ bytes, hexDecode policyHex.toList = some bytes := by
  simp only [policyAlternative_eq_ok]
  cases policyId with
  | none => simp
  | some policyHex => simp

/-- The alternatives of the addresses. -/
theorem mem_addresses_iff {addrs : List String} {ps : List TxPredicate}
    (h : addrs.mapM (addressAlternative bech32) = .ok ps) {q : TxPredicate} :
    q ∈ ps ↔ ∃ addr ∈ addrs, ∃ bytes, bech32 addr = .ok bytes ∧
      q = predicateFromPattern (.ofAddress bytes) := by
  have hall := mapM_eq_ok.mp h
  constructor
  · intro hq
    obtain ⟨addr, hmem, hok⟩ := exists_left_of_forall₂ hall hq
    exact ⟨addr, hmem, addressAlternative_eq_ok.mp hok⟩
  · rintro ⟨addr, hmem, hok⟩
    obtain ⟨q', hq', hok'⟩ := exists_right_of_forall₂ hall hmem
    cases (addressAlternative_eq_ok.mpr hok).symm.trans hok'
    exact hq'

/-- The alternative of a policy id, if there is one. -/
theorem mem_policy_iff {pattern : ByteBuf → TxPattern} {policyId : Option String}
    {ps : List TxPredicate} (h : policyAlternative pattern policyId = .ok ps) {q : TxPredicate} :
    q ∈ ps ↔ ∃ policyHex bytes, policyId = some policyHex ∧
      hexDecode policyHex.toList = some bytes ∧ q = predicateFromPattern (pattern bytes) := by
  rcases policyAlternative_eq_ok.mp h with ⟨rfl, rfl⟩ | ⟨policyHex, bytes, rfl, hbytes, rfl⟩
  · simp
  · simp [hbytes]

/-- The alternatives of a filter that compiles to a predicate. -/
theorem compile_eq_some {p : TxPredicate} (h : compile bech32 filter = .ok (some p)) :
    ∃ alternatives, (p = { anyOf := alternatives } ∨ alternatives = [p]) ∧
      ∀ q, q ∈ alternatives ↔ ∃ pattern, filter.Asks bech32 pattern ∧
        q = predicateFromPattern pattern := by
  unfold compile at h
  split_ifs at h with hempty
  · cases h
  · obtain ⟨addresses, haddresses, h⟩ := Except.bind_eq_ok h
    obtain ⟨moves, hmoves, h⟩ := Except.bind_eq_ok h
    obtain ⟨mints, hmints, h⟩ := Except.bind_eq_ok h
    refine ⟨addresses ++ moves ++ mints, ?_, fun q => ?_⟩
    · split at h
      · rename_i alternative heq
        cases h
        exact Or.inr heq
      · cases h
        exact Or.inl rfl
    · rw [List.mem_append, List.mem_append, mem_addresses_iff haddresses, mem_policy_iff hmoves,
        mem_policy_iff hmints, or_assoc]
      constructor
      · rintro (⟨addr, hmem, bytes, hbytes, rfl⟩ | ⟨policyHex, bytes, hid, hbytes, rfl⟩ |
          ⟨policyHex, bytes, hid, hbytes, rfl⟩)
        · exact ⟨_, Or.inl ⟨addr, hmem, bytes, hbytes, rfl⟩, rfl⟩
        · exact ⟨_, Or.inr (Or.inl ⟨policyHex, bytes, hid, hbytes, rfl⟩), rfl⟩
        · exact ⟨_, Or.inr (Or.inr ⟨policyHex, bytes, hid, hbytes, rfl⟩), rfl⟩
      · rintro ⟨pattern, ⟨addr, hmem, bytes, hbytes, rfl⟩ | ⟨policyHex, bytes, hid, hbytes, rfl⟩ |
          ⟨policyHex, bytes, hid, hbytes, rfl⟩, rfl⟩
        · exact Or.inl ⟨addr, hmem, bytes, hbytes, rfl⟩
        · exact Or.inr (Or.inl ⟨policyHex, bytes, hid, hbytes, rfl⟩)
        · exact Or.inr (Or.inr ⟨policyHex, bytes, hid, hbytes, rfl⟩)

theorem isEmpty_iff : filter.isEmpty = true ↔
    filter.addresses = [] ∧ filter.movesPolicyId = none ∧ filter.mintsPolicyId = none := by
  simp [UpstreamFilter.isEmpty, and_assoc]

theorem compile_of_parts (h : filter.isEmpty = false) {addresses moves mints : List TxPredicate}
    (haddresses : filter.addresses.mapM (addressAlternative bech32) = .ok addresses)
    (hmoves : policyAlternative .ofMoves filter.movesPolicyId = .ok moves)
    (hmints : policyAlternative .ofMints filter.mintsPolicyId = .ok mints) :
    ∃ p, compile bech32 filter = .ok (some p) := by
  simp only [compile, h, Bool.false_eq_true, if_false, haddresses, hmoves, hmints, Except.ok_bind]
  split
  · exact ⟨_, rfl⟩
  · exact ⟨_, rfl⟩

/-- A filter compiles exactly when all its parts decode. -/
theorem compile_total : (∃ p, compile bech32 filter = .ok p) ↔ filter.Decodes bech32 := by
  constructor
  · rintro ⟨p, h⟩
    unfold compile at h
    split_ifs at h with hempty
    · obtain ⟨haddresses, hmoves, hmints⟩ := isEmpty_iff.mp hempty
      exact ⟨by simp [haddresses], by simp [hmoves], by simp [hmints]⟩
    · obtain ⟨addresses, haddresses, h⟩ := Except.bind_eq_ok h
      obtain ⟨moves, hmoves, h⟩ := Except.bind_eq_ok h
      obtain ⟨mints, hmints, h⟩ := Except.bind_eq_ok h
      refine ⟨fun addr hmem => ?_, policyAlternative_total.mp ⟨moves, hmoves⟩,
        policyAlternative_total.mp ⟨mints, hmints⟩⟩
      obtain ⟨q, -, hq⟩ := exists_right_of_forall₂ (mapM_eq_ok.mp haddresses) hmem
      obtain ⟨bytes, hbytes, -⟩ := addressAlternative_eq_ok.mp hq
      exact ⟨bytes, hbytes⟩
  · intro h
    by_cases hempty : filter.isEmpty = true
    · exact ⟨none, by rw [compile, if_pos hempty]; rfl⟩
    · have haddress : ∀ addr ∈ filter.addresses, ∃ p, addressAlternative bech32 addr = .ok p := by
        intro addr hmem
        obtain ⟨bytes, hbytes⟩ := h.addresses addr hmem
        exact ⟨_, addressAlternative_eq_ok.mpr ⟨bytes, hbytes, rfl⟩⟩
      obtain ⟨addresses, haddresses⟩ := exists_forall₂ (R := fun p addr =>
        addressAlternative bech32 addr = .ok p) haddress
      obtain ⟨moves, hmoves⟩ : ∃ moves,
          policyAlternative .ofMoves filter.movesPolicyId = .ok moves :=
        policyAlternative_total.mpr h.moves
      obtain ⟨mints, hmints⟩ : ∃ mints,
          policyAlternative .ofMints filter.mintsPolicyId = .ok mints :=
        policyAlternative_total.mpr h.mints
      obtain ⟨p, hp⟩ := compile_of_parts (by simpa using hempty) (mapM_eq_ok.mpr haddresses.flip)
        hmoves hmints
      exact ⟨some p, hp⟩

theorem compile_eq_none : compile bech32 filter = .ok none ↔ filter.isEmpty = true := by
  constructor
  · intro h
    by_contra hempty
    unfold compile at h
    rw [if_neg hempty] at h
    obtain ⟨addresses, haddresses, h⟩ := Except.bind_eq_ok h
    obtain ⟨moves, hmoves, h⟩ := Except.bind_eq_ok h
    obtain ⟨mints, hmints, h⟩ := Except.bind_eq_ok h
    split at h
    · cases h
    · cases h
  · intro h
    rw [compile, if_pos h]
    rfl

theorem forwards_of_compile {server : WatchServer} (hserver : server.Composes)
    {predicate : Option TxPredicate} (h : compile bech32 filter = .ok predicate)
    (anyTx : AnyChainTx) :
    server.forwards predicate anyTx = true ↔ filter.isEmpty = true ∨
      ∃ pattern, filter.Asks bech32 pattern ∧ server.exhibits pattern anyTx = true := by
  cases predicate with
  | none => exact ⟨fun _ => Or.inl (compile_eq_none.mp h), fun _ => rfl⟩
  | some p =>
    have hempty : ¬ filter.isEmpty = true := by
      intro hempty
      cases (compile_eq_none.mpr hempty).symm.trans h
    obtain ⟨alternatives, hp, hall⟩ := compile_eq_some h
    have hholds : server.holds p anyTx = true ↔
        ∃ q ∈ alternatives, server.holds q anyTx = true := by
      rcases hp with rfl | rfl
      · rw [hserver.ofAnyOf, List.any_eq_true]
      · simp
    rw [WatchServer.forwards, hholds]
    constructor
    · rintro ⟨q, hq, hholds⟩
      obtain ⟨pattern, hasks, rfl⟩ := (hall q).mp hq
      exact Or.inr ⟨pattern, hasks, hserver.ofPattern pattern anyTx ▸ hholds⟩
    · rintro (h | ⟨pattern, hasks, hexhibits⟩)
      · exact absurd h hempty
      · exact ⟨_, (hall _).mpr ⟨pattern, hasks, rfl⟩,
          (hserver.ofPattern pattern anyTx).trans hexhibits⟩

end Compile

/-- **What the filter lets through.** The block compiles exactly when its addresses and policy ids
    decode; no predicate is sent only for an empty block; and a transaction is let through if the
    block is empty or the transaction shows one of the patterns that the block asks for. -/
theorem compile_spec (bech32 : String → Except String ByteBuf) (filter : UpstreamFilter) :
    ((∃ predicate, compile bech32 filter = .ok predicate) ↔ filter.Decodes bech32) ∧
      ∀ predicate, compile bech32 filter = .ok predicate →
        (predicate = none ↔ filter.isEmpty = true) ∧
        ∀ server : WatchServer, server.Composes → ∀ anyTx,
          server.forwards predicate anyTx = true ↔ filter.isEmpty = true ∨
            ∃ pattern, filter.Asks bech32 pattern ∧ server.exhibits pattern anyTx = true := by
  refine ⟨compile_total, fun predicate h => ⟨?_, fun server hserver =>
    forwards_of_compile hserver h⟩⟩
  constructor
  · rintro rfl
    exact compile_eq_none.mp h
  · intro hempty
    exact Except.ok.inj (h.symm.trans (compile_eq_none.mpr hempty))

/-! ## What the filter loses -/

/-- The filter asks for every anchor of a source; for an output reference nothing can be asked. -/
structure UpstreamFilter.Covers (bech32 : String → Except String ByteBuf) (filter : UpstreamFilter)
    (anchors : ProtocolAnchors) : Prop where
  addresses : ∀ a ∈ anchors.addresses, filter.Asks bech32 (.ofAddress a)
  policies : ∀ p ∈ anchors.policies,
    filter.Asks bech32 (.ofMoves p) ∨ filter.Asks bech32 (.ofMints p)
  utxoRefs : ∀ r, r ∉ anchors.utxoRefs

/-- The transaction that a response applies or undoes. -/
def actionEnvelope : Option Action → Option AnyChainTx
  | some (.apply anyTx) => some anyTx
  | some (.undo anyTx) => some anyTx
  | _ => none

theorem actionTx_eq_some {a : Option Action} {txHash : ByteBuf} :
    actionTx a = some txHash ↔
      ∃ anyTx, actionEnvelope a = some anyTx ∧ anyTx.txHash = some txHash := by
  match a with
  | some (.apply anyTx) => simp [actionTx, actionEnvelope]
  | some (.undo anyTx) => simp [actionTx, actionEnvelope]
  | some (.idle _) => simp [actionTx, actionEnvelope]
  | none => simp [actionTx, actionEnvelope]

/-- Whether a response is sent; only transactions are filtered. -/
def WatchServer.sends (server : WatchServer) (predicate : Option TxPredicate) (a : Option Action) :
    Bool :=
  match actionEnvelope a with
  | some anyTx => server.forwards predicate anyTx
  | none => true

/-- What the comments of `UpstreamFilter` say of the transactions of a stream: an address matches
    where it is consumed or produced, a policy where it is minted or burned, and for moves also
    elsewhere. An Apply and an Undo of one transaction match alike. -/
structure WatchServer.Documented (server : WatchServer) (P : Pallas) (es : List (Option Action)) :
    Prop where
  composes : server.Composes
  addresses : ∀ a ∈ es, ∀ anyTx, actionEnvelope a = some anyTx → ∀ block payload tx,
    Presents P anyTx block payload tx → ∀ address,
      SpentFrom P payload tx address ∨ (∃ o ∈ tx.outputs, o.address = some address) →
      server.exhibits (.ofAddress address) anyTx = true
  policies : ∀ a ∈ es, ∀ anyTx, actionEnvelope a = some anyTx → ∀ block payload tx,
    Presents P anyTx block payload tx → ∀ policy, MintsOrBurns tx policy →
      server.exhibits (.ofMints policy) anyTx = true ∧
        server.exhibits (.ofMoves policy) anyTx = true
  sameTx : ∀ a ∈ es, ∀ b ∈ es, ∀ anyTx anyTx', actionEnvelope a = some anyTx →
    actionEnvelope b = some anyTx' → anyTx.txHash = anyTx'.txHash →
    ∀ pattern, server.exhibits pattern anyTx = server.exhibits pattern anyTx'

section Filtering

variable {D : Deps} {cfg : Config} {specialized : List SpecializedTii} {filter : UpstreamFilter}
  {server : WatchServer} {predicate : Option TxPredicate} {es : List (Option Action)}

theorem exists_of_mem_rowsOf {mode : MatchMode} {anyTx : AnyChainTx} {row : MatchesRow}
    (h : row ∈ rowsOf D specialized mode anyTx) :
    ∃ cursor rows, applyRows D specialized mode anyTx = .ok (some (cursor, rows)) ∧
      ∃ r ∈ rows, r.toRow = row := by
  unfold rowsOf at h
  split at h
  · rename_i cursor rows happly
    exact ⟨cursor, rows, happly, List.mem_map.mp h⟩
  · cases h

/-- A transaction of which a row is written is sent. -/
theorem forwards_of_row (hcompile : compile D.bech32 filter = .ok predicate)
    (hcovers : ∀ spec ∈ specialized, filter.Covers D.bech32 spec.anchors)
    (hserver : server.Documented D.toPallas es) {anyTx : AnyChainTx}
    (hmem : some (.apply anyTx) ∈ es) {row : MatchesRow}
    (hrow : row ∈ rowsOf D specialized cfg.mode anyTx) :
    server.forwards predicate anyTx = true := by
  obtain ⟨cursor, rows, happly, r, hr, rfl⟩ := exists_of_mem_rowsOf hrow
  obtain ⟨block, payload, tx, hpresents, -, hrun⟩ := applyRows_eq_ok.mp happly
  obtain ⟨spec, tir, fp, a, lifted, hexplains⟩ :=
    runSpecializations_explained hpresents.parses hrun r hr
  obtain ⟨x, hhas, hgating⟩ := (gates_iff _ _).mp hexplains.gates
  rw [gating_summarizeTx] at hgating
  have hcover := hcovers spec hexplains.source
  refine (forwards_of_compile hserver.composes hcompile anyTx).mpr (Or.inr ?_)
  cases x with
  | address a =>
    refine ⟨_, hcover.addresses a hhas, hserver.addresses _ hmem _ rfl _ _ _ hpresents a ?_⟩
    exact hgating.imp_right fun ⟨o, ho, haddress, _⟩ => ⟨o, ho, haddress⟩
  | utxoRef r => exact absurd hhas (hcover.utxoRefs r)
  | policy p =>
    obtain ⟨hmints, hmoves⟩ := hserver.policies _ hmem _ rfl _ _ _ hpresents p hgating
    rcases hcover.policies p hhas with hasks | hasks
    · exact ⟨_, hasks, hmoves⟩
    · exact ⟨_, hasks, hmints⟩

/-- A response that is not sent leaves an empty cell empty. -/
theorem rowUpdate_unsent (hcompile : compile D.bech32 filter = .ok predicate)
    (hcovers : ∀ spec ∈ specialized, filter.Covers D.bech32 spec.anchors)
    (hserver : server.Documented D.toPallas es) {a : Option Action} (hmem : a ∈ es)
    (hunsent : server.sends predicate a = false) (key : ByteBuf × String) :
    (rowUpdate D specialized cfg.mode key a).apply none = none := by
  unfold rowUpdate
  cases hc : changeOf D specialized cfg.mode a with
  | none => rfl
  | some change =>
    cases change with
    | put g rows =>
      obtain ⟨anyTx, rfl, -, rfl, -⟩ := changeOf_eq_put hc
      have hno : rowsOf D specialized cfg.mode anyTx = [] := by
        refine List.eq_nil_iff_forall_not_mem.mpr fun row hrow => ?_
        have hsent := forwards_of_row hcompile hcovers hserver hmem hrow
        exact Bool.false_ne_true (hunsent.symm.trans hsent)
      rw [hno]
      rfl
    | drop g =>
      simp only [Change.update]
      split
      · rfl
      · rfl

/-- The responses about one transaction are sent or withheld together. -/
theorem sends_congr (hcompile : compile D.bech32 filter = .ok predicate)
    (hserver : server.Documented D.toPallas es) {a b : Option Action} (ha : a ∈ es) (hb : b ∈ es)
    {txHash : ByteBuf} (hatx : actionTx a = some txHash) (hbtx : actionTx b = some txHash) :
    server.sends predicate a = server.sends predicate b := by
  obtain ⟨anyTx, haenv, hahash⟩ := actionTx_eq_some.mp hatx
  obtain ⟨anyTx', hbenv, hbhash⟩ := actionTx_eq_some.mp hbtx
  have hsame := hserver.sameTx a ha b hb anyTx anyTx' haenv hbenv (hahash.trans hbhash.symm)
  rw [WatchServer.sends, WatchServer.sends, haenv, hbenv, Bool.eq_iff_iff,
    forwards_of_compile hserver.composes hcompile, forwards_of_compile hserver.composes hcompile]
  simp only [hsame]

/-- Over the responses about one transaction, an empty cell ends up as it does over those of them
    that are sent. -/
theorem foldl_sent (hcompile : compile D.bech32 filter = .ok predicate)
    (hcovers : ∀ spec ∈ specialized, filter.Covers D.bech32 spec.anchors)
    (hserver : server.Documented D.toPallas es) (key : ByteBuf × String) :
    (actionsAbout key.1 (es.filter (server.sends predicate))).foldl
        (fun cell a => (rowUpdate D specialized cfg.mode key a).apply cell) none =
      (actionsAbout key.1 es).foldl
        (fun cell a => (rowUpdate D specialized cfg.mode key a).apply cell) none := by
  have hcomm : actionsAbout key.1 (es.filter (server.sends predicate)) =
      (actionsAbout key.1 es).filter (server.sends predicate) := by
    rw [actionsAbout, actionsAbout, List.filter_filter, List.filter_filter]
    exact List.filter_congr fun a _ => Bool.and_comm _ _
  have habout : ∀ a ∈ actionsAbout key.1 es, a ∈ es ∧ actionTx a = some key.1 := fun a ha =>
    ⟨(List.mem_filter.mp ha).1, of_decide_eq_true (List.mem_filter.mp ha).2⟩
  rw [hcomm]
  by_cases hsent : ∃ b ∈ actionsAbout key.1 es, server.sends predicate b = true
  · -- one of them is sent, so all are
    obtain ⟨b, hb, hsent⟩ := hsent
    rw [List.filter_eq_self.mpr]
    intro a ha
    rw [sends_congr hcompile hserver (habout a ha).1 (habout b hb).1 (habout a ha).2
      (habout b hb).2]
    exact hsent
  · -- none is sent, so none fills the cell
    have hunsent : ∀ a ∈ actionsAbout key.1 es, server.sends predicate a = false := fun a ha =>
      Bool.eq_false_iff.mpr fun h => hsent ⟨a, ha, h⟩
    have hnil : (actionsAbout key.1 es).filter (server.sends predicate) = [] :=
      List.filter_eq_nil_iff.mpr fun a ha h => hsent ⟨a, ha, h⟩
    rw [hnil, List.foldl_nil]
    refine (List.foldlRecOn (motive := fun cell => cell = none) _ _ rfl
    fun cell hcell a ha => ?_).symm
    rw [hcell]
    exact rowUpdate_unsent hcompile hcovers hserver (habout a ha).1 (hunsent a ha) key

end Filtering

/-- **A filter over all anchors loses nothing.** If the filter asks for every anchor of every source
    and the server filters as documented, the tracker stores from the filtered stream exactly the
    rows that it would store from the whole one, through any Applies and Undos. -/
theorem filter_loses_nothing (D : Deps) (hP : D.toPallas.Lawful) (cfg : Config)
    (specialized : List SpecializedTii) (filter : UpstreamFilter) (predicate : Option TxPredicate)
    (hcompile : compile D.bech32 filter = .ok predicate)
    (hcovers : ∀ spec ∈ specialized, filter.Covers D.bech32 spec.anchors)
    (server : WatchServer) (es : List (Option Action)) (hserver : server.Documented D.toPallas es)
    (store : Store) (hrun : run (handleAction D cfg specialized) Store.empty es = .ok store) :
    ∃ store', run (handleAction D cfg specialized) Store.empty
        (es.filter (server.sends predicate)) = .ok store' ∧
      store'.matchesTable.Perm store.matchesTable := by
  obtain ⟨store', hrun'⟩ := run_anywhere hrun
    (fun a (ha : a ∈ es.filter (server.sends predicate)) => (List.mem_filter.mp ha).1) Store.empty
  refine ⟨store', hrun', matches_perm fun key => ?_⟩
  rw [run_row_about hP hrun', run_row_about hP hrun]
  exact foldl_sent hcompile hcovers hserver key

namespace Sample

mutual

/-- The value of a predicate, given the values of its patterns. -/
def evalPredicate (exhibits : TxPattern → Bool) : TxPredicate → Bool
  | ⟨some pattern, _⟩ => exhibits pattern
  | ⟨none, alternatives⟩ => evalAny exhibits alternatives

def evalAny (exhibits : TxPattern → Bool) : List TxPredicate → Bool
  | [] => false
  | p :: ps => evalPredicate exhibits p || evalAny exhibits ps

end

theorem evalAny_eq (exhibits : TxPattern → Bool) (ps : List TxPredicate) :
    evalAny exhibits ps = ps.any (evalPredicate exhibits) := by
  induction ps with
  | nil => rw [evalAny, List.any_nil]
  | cons p ps ih => rw [evalAny, List.any_cons, ih]

/-- The patterns of a sample transaction: these resolve no input and hold no asset. -/
def exhibits (pattern : TxPattern) (anyTx : AnyChainTx) : Bool :=
  match txs.find? fun tx => decide (anyTx.txHash = some tx.hash.bytes),
    pattern.hasAddress.bind AddressPattern.exactAddress with
  | some tx, some address => tx.outputs.any fun o => decide (o.address = some address)
  | _, _ => false

def server : WatchServer :=
  { exhibits := exhibits
    holds := fun p anyTx => evalPredicate (fun pattern => exhibits pattern anyTx) p }

theorem server_composes : server.Composes := by
  constructor
  · intro pattern anyTx
    simp only [server, predicateFromPattern, evalPredicate]
  · intro alternatives anyTx
    simp only [server, evalPredicate, evalAny_eq]

/-- The block of the filter that names the sample script address. -/
def filter : UpstreamFilter :=
  { addresses := [scriptParty], movesPolicyId := none, mintsPolicyId := none }

/-- The sample history, and the Undo of a transaction that the filter withholds. -/
def filteredHistory : List (Option Action) :=
  sampleHistory ++ [some (.undo (envelope childBytes keyTx))]

theorem filter_covers : filter.Covers bech32 source.anchors := by
  refine ⟨fun a ha => ?_, fun p hp => ?_, fun r hr => ?_⟩
  · have haddress : scriptAddress = a := by
      simpa [source, touchSource, vaultAnchors] using ha
    exact Or.inl ⟨scriptParty, List.mem_singleton_self _, scriptAddress, rfl, by rw [haddress]⟩
  · simp [source, touchSource, vaultAnchors] at hp
  · simp [source, touchSource, vaultAnchors] at hr

theorem mem_filteredHistory {a : Option Action} {anyTx : AnyChainTx} (h : a ∈ filteredHistory)
    (henv : actionEnvelope a = some anyTx) :
    anyTx = envelope childBytes scriptTx ∨ anyTx = envelope rivalBytes scriptTx ∨
      anyTx = envelope childBytes keyTx := by
  simp only [filteredHistory, sampleHistory, List.cons_append, List.nil_append, List.mem_cons,
    List.not_mem_nil, or_false] at h
  rcases h with rfl | rfl | rfl | rfl <;> cases henv <;> simp

set_option maxRecDepth 4000 in
/-- What the sample envelopes present. -/
theorem presents_filteredHistory {a : Option Action} {anyTx : AnyChainTx} (h : a ∈ filteredHistory)
    (henv : actionEnvelope a = some anyTx) {block : MultiEraBlock} {payload : CardanoPayload}
    {tx : MultiEraTx} (hp : Presents chainDeps.toPallas anyTx block payload tx) :
    anyTx.txHash = some scriptTx.hash.bytes ∧ payload.resolvedInputs = ∅ ∧ tx = scriptTx := by
  rcases mem_filteredHistory h henv with rfl | rfl | rfl
  · have hp' : Presents chainDeps.toPallas (envelope childBytes scriptTx) child
        { raw := scriptTx.cbor } scriptTx :=
      ⟨rfl, ⟨_, scriptTx.hash, scriptTx, rfl, rfl, rfl, rfl⟩, rfl⟩
    obtain ⟨-, rfl, rfl⟩ := hp'.unique hp
    exact ⟨rfl, rfl, rfl⟩
  · have hp' : Presents chainDeps.toPallas (envelope rivalBytes scriptTx) rival
        { raw := scriptTx.cbor } scriptTx :=
      ⟨rfl, ⟨_, scriptTx.hash, scriptTx, rfl, rfl, rfl, rfl⟩, rfl⟩
    obtain ⟨-, rfl, rfl⟩ := hp'.unique hp
    exact ⟨rfl, rfl, rfl⟩
  · obtain ⟨cardanoTx, targetHash, target, hchain, hhash, hfind, -⟩ := hp.target
    have hblock : block = child := by
      have hdecodes : (envelope childBytes keyTx).decodedBlock chainDeps.toPallas =
        some child := rfl
      exact Option.some.inj (hp.decodes.symm.trans hdecodes)
    have htarget : targetHash = keyTx.hash := by
      cases hchain
      exact Option.some.inj (hhash.symm.trans rfl)
    rw [hblock, htarget] at hfind
    cases hfind

theorem server_documented : server.Documented chainDeps.toPallas filteredHistory := by
  refine ⟨server_composes, ?_, ?_, ?_⟩
  · intro a ha anyTx henv block payload tx hp address haddress
    obtain ⟨hhash, hresolved, rfl⟩ := presents_filteredHistory ha henv hp
    have hpays : ∃ o ∈ scriptTx.outputs, o.address = some address := by
      refine haddress.resolve_left ?_
      rintro ⟨i, -, o, ho, -⟩
      simp [CardanoPayload.resolvedOutput, hresolved] at ho
    obtain ⟨o, ho, haddr⟩ := hpays
    have hfound : txs.find? (fun tx => decide (anyTx.txHash = some tx.hash.bytes)) =
        some scriptTx := by
      rw [hhash]
      rfl
    show exhibits _ anyTx = true
    simp only [exhibits, hfound, TxPattern.ofAddress, Option.bind_some, List.any_eq_true,
      decide_eq_true_eq]
    exact ⟨o, ho, haddr⟩
  · intro a ha anyTx henv block payload tx hp policy hmints
    obtain ⟨-, -, rfl⟩ := presents_filteredHistory ha henv hp
    obtain ⟨m, hm, -⟩ := hmints
    cases hm
  · intro a _ b _ anyTx anyTx' _ _ hhash pattern
    show exhibits pattern anyTx = exhibits pattern anyTx'
    rw [exhibits, exhibits, hhash]

end Sample

set_option maxRecDepth 4000 in
theorem filter_loses_nothing_sample :
    ∃ store store', run (handleAction Sample.chainDeps Sample.cfg [Sample.source]) Store.empty
        Sample.filteredHistory = .ok store ∧
      run (handleAction Sample.chainDeps Sample.cfg [Sample.source]) Store.empty
        (Sample.filteredHistory.filter (Sample.server.sends
          (some (predicateFromPattern (.ofAddress Sample.scriptAddress))))) = .ok store' ∧
      store'.matchesTable.Perm store.matchesTable := by
  obtain ⟨store, hrun⟩ : ∃ store, run (handleAction Sample.chainDeps Sample.cfg [Sample.source])
      Store.empty Sample.filteredHistory = .ok store := ⟨_, rfl⟩
  obtain ⟨store', hrun', hperm⟩ := filter_loses_nothing Sample.chainDeps Sample.chainDeps_lawful
    Sample.cfg [Sample.source] Sample.filter _ rfl
    (fun spec hspec => List.mem_singleton.mp hspec ▸ Sample.filter_covers) Sample.server
    Sample.filteredHistory Sample.server_documented store hrun
  exact ⟨store, store', hrun, hrun', hperm⟩

end Tx3Lift
