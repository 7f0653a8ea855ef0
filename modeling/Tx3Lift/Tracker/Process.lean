import Tx3Lift.Cardano.Lifting
import Tx3Lift.Cardano.Matching
import Tx3Lift.Cardano.Gate
import Tx3Lift.Lib.Lists
import Tx3Lift.Tracker.Select
import Tx3Lift.Tracker.Store

/-!
# Handling streamed transactions

Model of `bin/tracker/src/process.rs`. `apply_tx` is split where it touches the store:
`applyRows` is everything before the write, a function of the event alone.

* `runSpecializations_spec`: what every row of one transaction has, and that no source
  occurs twice among them.
* `applyRows_eq_some`: the steps of an Apply that is written; `applyRows_spec`: where its
  cursor and its rows come from.
* `applyTx_eq`, `undoTx_eq`: the two handlers as store transactions.
-/

namespace Tx3Lift

open Lib

/-! ## Environment -/

/-- What the tracker uses of other crates: pallas, the bech32 decoder and
    `serde_json::to_string` on a `Lifted`. -/
structure Deps extends Pallas where
  bech32 : String → Except String ByteBuf
  toJson : Lifted → Except String String

/-- `Error` (`error.rs`), less the variant `TomlDe`. -/
inductive TrackerError where
  | config (text : String)
  | io (text : String)
  | json (text : String)
  | hex
  | lift (e : LiftError)
  | liftCardano (e : CardanoLiftError)
  | tonicTransport
  | rpc
  | sqlite (text : String)
  | join (text : String)
  | pallasDecode (text : String)
  | txNotInBlock (hash : String)
  | internal (text : String)

/-- `Error::from(CardanoLiftError)`. -/
def liftCardano {α : Type} : Except CardanoLiftError α → Except TrackerError α
  | .ok a => .ok a
  | .error e => .error (.liftCardano e)

/-- `SpecializedTii` (`specialization.rs`). -/
structure SpecializedTii where
  name : String
  tii : TiiFile
  profileName : String
  anchors : ProtocolAnchors
  txs : BTreeMap String (Tir.Tx × Fingerprint)

/-! ## Envelopes of the stream (`utxorpc_spec`) -/

/-- `cardano::TxOutput`, of which only the original bytes are read. -/
structure U5cTxOutput where
  originalCbor : Option ByteBuf

/-- `cardano::TxInput`. -/
structure U5cTxInput where
  txHash : ByteBuf
  outputIndex : UInt32
  asOutput : Option U5cTxOutput

/-- `cardano::Tx`. -/
structure U5cTx where
  hash : ByteBuf
  inputs : List U5cTxInput
  referenceInputs : List U5cTxInput

/-- `watch::AnyChainBlock`. -/
structure AnyChainBlock where
  nativeBytes : ByteBuf

/-- `watch::AnyChainTx`; `chain` is the `Chain::Cardano` case. -/
structure AnyChainTx where
  chain : Option U5cTx
  block : Option AnyChainBlock

/-! ## `run_specializations` -/

/-- `LiftInputs`. -/
structure LiftInputs where
  spec : SpecializedTii
  tir : Tir.Tx
  assignment : MatchAssignment

section Model

variable (D : Deps)

/-- The loop over `&spec.txs` of a source that gates (lines 165–191). -/
def sourceCandidates (spec : SpecializedTii) (hits : AnchorHits) (summary : PayloadSummary)
    (payload : CardanoPayload) :
    List (String × Tir.Tx × Fingerprint) → Except TrackerError (List (Candidate LiftInputs))
  | [] => return []
  | (txName, tir, fp) :: rest =>
    if fp.matchesSummary summary then do
      match ← liftCardano (matchTx D.toPallas tir payload "" "") with
      | none => sourceCandidates spec hits summary payload rest
      | some assignment =>
        let candidates ← sourceCandidates spec hits summary payload rest
        return { sourceName := spec.name
                 txName := txName
                 score := u32TryFrom (hits.total + fp.informationScore)
                 payload := { spec := spec, tir := tir, assignment := assignment } } :: candidates
    else sourceCandidates spec hits summary payload rest

/-- The loop over `specialized`: the gate, then the candidates (lines 153–192). -/
def collectCandidates (summary : PayloadSummary) (payload : CardanoPayload) :
    List SpecializedTii → Except TrackerError (List (Candidate LiftInputs))
  | [] => return []
  | spec :: rest =>
    let hits := spec.anchors.hits summary
    if hits.gates then do
      let candidates ← sourceCandidates D spec hits summary payload spec.txs.toList
      let more ← collectCandidates summary payload rest
      return candidates ++ more
    else collectCandidates summary payload rest

/-- The body of the loop over the survivors (lines 199–223). -/
def liftSurvivor (payload : CardanoPayload) (blockSlot : UInt64) (blockHash : ByteBuf)
    (r : Ranked LiftInputs) : Except TrackerError OwnedMatchRow := do
  let inputs := r.candidate.payload
  let lifted ← liftCardano (lift D.toPallas D.bech32 inputs.spec.tii r.candidate.txName
    inputs.spec.profileName inputs.tir payload inputs.assignment)
  let liftedJson ← (D.toJson lifted).mapError .json
  return { txHash := lifted.txId
           blockSlot := blockSlot
           blockHash := blockHash
           sourceName := inputs.spec.name
           protocolName := lifted.protocolName
           txName := lifted.txName
           profileName := lifted.profileName
           liftedJson := liftedJson
           score := r.candidate.score
           matchRank := r.matchRank }

/-- `run_specializations` (lines 140–225). -/
def runSpecializations (specialized : List SpecializedTii) (payload : CardanoPayload)
    (blockSlot : UInt64) (blockHash : ByteBuf) (mode : MatchMode) :
    Except TrackerError (List OwnedMatchRow) := do
  let summary ← liftCardano (summarize D.toPallas payload)
  let candidates ← collectCandidates D summary payload specialized
  (selectMatches candidates mode).mapM (liftSurvivor D payload blockSlot blockHash)

/-! ## `apply_tx` and `undo_tx` -/

/-- `collect_resolved_inputs` (lines 309–334). -/
def collectResolvedInputs (tx : U5cTx) (era : Era) : BTreeMap UtxoRef ResolvedOutput :=
  (tx.inputs ++ tx.referenceInputs).foldl (fun out input =>
    match input.asOutput.bind U5cTxOutput.originalCbor with
    | some cbor => out.insert (input.txHash, input.outputIndex) { era := era, cbor := cbor }
    | none => out) ∅

/-- `ChainPoint` of a block (lines 76–79). -/
def MultiEraBlock.point (block : MultiEraBlock) : ChainPoint :=
  { slot := block.slot, hash := block.hash }

/-- `apply_tx` up to the write (lines 29–91): no cursor if the envelope lacks its parts. -/
def applyRows (specialized : List SpecializedTii) (mode : MatchMode) (anyTx : AnyChainTx) :
    Except TrackerError (Option (ChainPoint × List OwnedMatchRow)) :=
  match anyTx.chain, anyTx.block with
  | some cardanoTx, some block =>
    if block.nativeBytes.isEmpty then return none
    else do
      let multiEraBlock ← (D.decodeBlock block.nativeBytes).mapError .pallasDecode
      let targetHash ← okOr (Hash.ofBytes? 32 cardanoTx.hash) (.internal "tx hash != 32 bytes")
      let targetTx ← okOr (multiEraBlock.txs.find? fun t => t.hash = targetHash)
        (.txNotInBlock (hexEncode targetHash.bytes))
      let resolved := collectResolvedInputs cardanoTx multiEraBlock.era
      let payload ← liftCardano (CardanoPayload.fromCbor D.toPallas targetTx.cbor)
      let rows ← runSpecializations D specialized (payload.withResolvedInputs resolved)
        multiEraBlock.slot multiEraBlock.hash.bytes mode
      return some (multiEraBlock.point, rows)
  | _, _ => return none

/-- `apply_tx` (lines 22–104). -/
def applyTx (specialized : List SpecializedTii) (mode : MatchMode) (store : Store)
    (anyTx : AnyChainTx) : Except TrackerError Store := do
  match ← applyRows D specialized mode anyTx with
  | some (cursor, rows) => return (store.applyBlock cursor rows).1
  | none => return store

/-- The block of an envelope, as `undo_tx` reads it. -/
def AnyChainTx.decodedBlock (P : Pallas) (anyTx : AnyChainTx) : Option MultiEraBlock :=
  (anyTx.block.filter fun b => !b.nativeBytes.isEmpty).bind fun b =>
    (P.decodeBlock b.nativeBytes).toOption

/-- `parent` in `undo_tx` (lines 112–123). -/
def undoParent (P : Pallas) (anyTx : AnyChainTx) : Option ChainPoint :=
  (anyTx.decodedBlock P).bind fun b =>
    b.header.previousHash.map fun h => { slot := satPred b.header.slot, hash := h }

/-- `undo_tx` (lines 106–129). -/
def undoTx (P : Pallas) (store : Store) (anyTx : AnyChainTx) : Store :=
  match anyTx.chain with
  | some cardanoTx => (store.undoTx cardanoTx.hash (undoParent P anyTx)).1
  | none => store

end Model

/-! ## The rows of one transaction -/

section Rows

variable {D : Deps} {specialized : List SpecializedTii} {summary : PayloadSummary}
  {payload : CardanoPayload}

theorem liftCardano_eq_ok {α : Type} {x : Except CardanoLiftError α} {a : α} :
    liftCardano x = .ok a ↔ x = .ok a := by
  cases x <;> simp [liftCardano]

theorem sourceCandidates_spec {spec : SpecializedTii} {hits : AnchorHits} :
    ∀ {txs : List (String × Tir.Tx × Fingerprint)} {candidates : List (Candidate LiftInputs)},
      sourceCandidates D spec hits summary payload txs = .ok candidates →
      ∀ c ∈ candidates, c.payload.spec = spec ∧ c.sourceName = spec.name := by
  intro txs
  induction txs with
  | nil => intro candidates h; cases h; simp
  | cons t txs ih =>
    intro candidates h
    obtain ⟨txName, tir, fp⟩ := t
    rw [sourceCandidates] at h
    split_ifs at h with hmatch
    · obtain ⟨assignment, -, h⟩ := Except.bind_eq_ok h
      cases assignment with
      | none => exact ih h
      | some assignment =>
        obtain ⟨rest, hrest, h⟩ := Except.bind_eq_ok h
        cases h
        intro c hc
        rcases List.mem_cons.mp hc with rfl | hc
        · exact ⟨rfl, rfl⟩
        · exact ih hrest c hc
    · exact ih h

/-- Every candidate is of a source that gates. -/
theorem collectCandidates_spec :
    ∀ {specs : List SpecializedTii} {candidates : List (Candidate LiftInputs)},
      collectCandidates D summary payload specs = .ok candidates →
      ∀ c ∈ candidates, c.payload.spec ∈ specs ∧ c.sourceName = c.payload.spec.name ∧
        (c.payload.spec.anchors.hits summary).gates = true := by
  intro specs
  induction specs with
  | nil => intro candidates h; cases h; simp
  | cons spec specs ih =>
    intro candidates h
    have hrest : ∀ {xs}, collectCandidates D summary payload specs = .ok xs → ∀ c ∈ xs,
        c.payload.spec ∈ spec :: specs ∧ c.sourceName = c.payload.spec.name ∧
          (c.payload.spec.anchors.hits summary).gates = true := fun hxs c hc =>
      ⟨List.mem_cons_of_mem _ (ih hxs c hc).1, (ih hxs c hc).2⟩
    simp only [collectCandidates] at h
    split_ifs at h with hgates
    · obtain ⟨own, hown, h⟩ := Except.bind_eq_ok h
      obtain ⟨more, hmore, h⟩ := Except.bind_eq_ok h
      cases h
      intro c hc
      rcases List.mem_append.mp hc with hc | hc
      · obtain ⟨hspec, hname⟩ := sourceCandidates_spec hown c hc
        exact ⟨by simp [hspec], by rw [hname, hspec], by rw [hspec]; exact hgates⟩
      · exact hrest hmore c hc
    · exact hrest h

theorem liftSurvivor_spec {blockSlot : UInt64} {blockHash : ByteBuf} {r : Ranked LiftInputs}
    {row : OwnedMatchRow} (h : liftSurvivor D payload blockSlot blockHash r = .ok row) :
    (∃ tx, payload.parsed D.toPallas = .ok tx ∧ row.txHash = tx.hash.bytes) ∧
      row.blockSlot = blockSlot ∧ row.blockHash = blockHash ∧
      row.sourceName = r.candidate.payload.spec.name := by
  obtain ⟨lifted, hlifted, h⟩ := Except.bind_eq_ok h
  obtain ⟨tx, htx, hid, -⟩ := lift_parsed (liftCardano_eq_ok.mp hlifted)
  obtain ⟨json, -, h⟩ := Except.bind_eq_ok h
  cases h
  exact ⟨⟨tx, htx, hid⟩, rfl, rfl, rfl⟩

/-- What every row of one transaction has. -/
structure RowOf (specialized : List SpecializedTii) (summary : PayloadSummary) (txHash : ByteBuf)
    (blockSlot : UInt64) (blockHash : ByteBuf) (row : OwnedMatchRow) : Prop where
  txHash : row.txHash = txHash
  blockSlot : row.blockSlot = blockSlot
  blockHash : row.blockHash = blockHash
  /-- The row is of a source that gates. -/
  source : ∃ spec ∈ specialized, spec.name = row.sourceName ∧
    (spec.anchors.hits summary).gates = true

/-- The rows of one transaction: no source occurs twice among them. -/
theorem runSpecializations_spec {blockSlot : UInt64} {blockHash : ByteBuf} {mode : MatchMode}
    {tx : MultiEraTx} (hparse : payload.parsed D.toPallas = .ok tx) {rows : List OwnedMatchRow}
    (h : runSpecializations D specialized payload blockSlot blockHash mode = .ok rows) :
    (∀ row ∈ rows, RowOf specialized (summarizeTx D.toPallas payload tx) tx.hash.bytes blockSlot
      blockHash row) ∧
      (rows.map OwnedMatchRow.sourceName).Nodup := by
  obtain ⟨summary, hsummary, h⟩ := Except.bind_eq_ok h
  cases (summarize_eq hparse).symm.trans (liftCardano_eq_ok.mp hsummary)
  obtain ⟨candidates, hcandidates, h⟩ := Except.bind_eq_ok h
  have hsurvivor : ∀ r ∈ selectMatches candidates mode, _ := fun r hr =>
    collectCandidates_spec hcandidates r.candidate (mem_selectMatches hr)
  have hrows := mapM_eq_ok.mp h
  have hspec : ∀ r row, liftSurvivor D payload blockSlot blockHash r = .ok row →
      r ∈ selectMatches candidates mode →
      RowOf specialized (summarizeTx D.toPallas payload tx) tx.hash.bytes blockSlot blockHash row ∧
        row.sourceName = r.candidate.sourceName := by
    intro r row hrow hr
    obtain ⟨⟨tx', htx', hid⟩, hslot, hhash, hsource⟩ := liftSurvivor_spec hrow
    cases hparse.symm.trans htx'
    obtain ⟨hmem, hname, hgates⟩ := hsurvivor r hr
    exact ⟨⟨hid, hslot, hhash, _, hmem, hsource.symm, hgates⟩, hsource.trans hname.symm⟩
  constructor
  · intro row hrow
    obtain ⟨r, hr, hlift⟩ := exists_left_of_forall₂ hrows hrow
    exact (hspec r row hlift hr).1
  · have hnames : rows.map OwnedMatchRow.sourceName =
        (selectMatches candidates mode).map fun r => r.candidate.sourceName :=
      map_eq_of_forall₂ hrows fun r row hr hlift => (hspec r row hlift hr).2
    rw [hnames]
    exact selectMatches_sources_nodup candidates mode

end Rows

/-! ## The handlers -/

section Handlers

variable {D : Deps} {specialized : List SpecializedTii} {mode : MatchMode} {anyTx : AnyChainTx}

/-- `anyTx` carries transaction `tx` of block `block`. -/
structure Carries (P : Pallas) (anyTx : AnyChainTx) (block : MultiEraBlock) (tx : MultiEraTx) :
    Prop where
  chain : ∃ cardanoTx, anyTx.chain = some cardanoTx ∧ cardanoTx.hash = tx.hash.bytes
  decodes : anyTx.decodedBlock P = some block
  mem : tx ∈ block.txs

theorem decodedBlock_eq_some {P : Pallas} {block : MultiEraBlock} :
    anyTx.decodedBlock P = some block ↔ ∃ b, anyTx.block = some b ∧ b.nativeBytes ≠ [] ∧
      P.decodeBlock b.nativeBytes = .ok block := by
  unfold AnyChainTx.decodedBlock
  cases anyTx.block with
  | none => simp
  | some b =>
    by_cases hb : b.nativeBytes = []
    · simp [Option.filter, hb]
    · cases hd : P.decodeBlock b.nativeBytes <;> simp [Option.filter, hb, hd, Except.toOption]

/-- Where a cursor and its rows come from. -/
structure WrittenFor (D : Deps) (anyTx : AnyChainTx) (block : MultiEraBlock) (tx : MultiEraTx)
    (cursor : ChainPoint) (rows : List OwnedMatchRow) : Prop where
  carries : Carries D.toPallas anyTx block tx
  cursor : cursor = block.point
  txHash : D.toPallas.Lawful → ∀ row ∈ rows, row.txHash = tx.hash.bytes
  block : ∀ row ∈ rows, row.blockSlot = block.slot ∧ row.blockHash = block.hash.bytes
  sources : (rows.map OwnedMatchRow.sourceName).Nodup

/-- The steps that a written Apply went through. -/
theorem applyRows_eq_some {cursor : ChainPoint} {rows : List OwnedMatchRow}
    (h : applyRows D specialized mode anyTx = .ok (some (cursor, rows))) :
    ∃ cardanoTx block targetHash target raw, anyTx.chain = some cardanoTx ∧
      anyTx.decodedBlock D.toPallas = some block ∧
      Hash.ofBytes? 32 cardanoTx.hash = some targetHash ∧
      block.txs.find? (fun t => t.hash = targetHash) = some target ∧
      pallasResult (D.decodeTx target.cbor) = .ok raw ∧ cursor = block.point ∧
      runSpecializations D specialized (CardanoPayload.withResolvedInputs { raw := target.cbor }
        (collectResolvedInputs cardanoTx block.era)) block.slot block.hash.bytes mode =
          .ok rows := by
  unfold applyRows at h
  split at h
  · rename_i cardanoTx b hchain hblock
    split_ifs at h with hempty
    · cases h
    · obtain ⟨block, hdecode, h⟩ := Except.bind_eq_ok h
      obtain ⟨targetHash, hhash, h⟩ := Except.bind_eq_ok h
      obtain ⟨target, hfind, h⟩ := Except.bind_eq_ok h
      obtain ⟨payload, hpayload, h⟩ := Except.bind_eq_ok h
      obtain ⟨rows', hrows, h⟩ := Except.bind_eq_ok h
      cases h
      obtain ⟨raw, hraw, hpl⟩ := Except.bind_eq_ok (liftCardano_eq_ok.mp hpayload)
      cases hpl
      have hdecoded : anyTx.decodedBlock D.toPallas = some block := decodedBlock_eq_some.mpr
        ⟨b, hblock, by simpa using hempty, Except.mapError_eq_ok.mp hdecode⟩
      exact ⟨cardanoTx, block, targetHash, target, raw, hchain, hdecoded, okOr_eq_ok.mp hhash,
        okOr_eq_ok.mp hfind, hraw, rfl, hrows⟩
  · cases h

theorem applyRows_spec {cursor : ChainPoint} {rows : List OwnedMatchRow}
    (h : applyRows D specialized mode anyTx = .ok (some (cursor, rows))) :
    ∃ block tx, WrittenFor D anyTx block tx cursor rows := by
  obtain ⟨cardanoTx, block, targetHash, tx, raw, hchain, hdecoded, hhash, hfind, hraw, rfl,
    hrows⟩ := applyRows_eq_some h
  have htarget : tx.hash = targetHash := by simpa using List.find?_some hfind
  have hmem : tx ∈ block.txs := List.mem_of_find?_eq_some hfind
  obtain ⟨b, -, -, hdec⟩ := decodedBlock_eq_some.mp hdecoded
  have hparse : (CardanoPayload.withResolvedInputs { raw := tx.cbor }
      (collectResolvedInputs cardanoTx block.era)).parsed D.toPallas = .ok raw := hraw
  obtain ⟨hspec, hsources⟩ := runSpecializations_spec hparse hrows
  have hsame : D.toPallas.Lawful → raw.hash = tx.hash := fun hP =>
    hP.hash_of_encode hdec tx hmem (pallasResult_eq_ok.mp hraw)
  refine ⟨block, tx, ⟨⟨⟨cardanoTx, hchain, ?_⟩, hdecoded, hmem⟩, rfl, ?_, ?_, hsources⟩⟩
  · rw [htarget]
    exact Hash.ofBytes?_eq_some.mp hhash
  · intro hP row hrow
    rw [(hspec row hrow).txHash, hsame hP]
  · intro row hrow
    exact ⟨(hspec row hrow).blockSlot, (hspec row hrow).blockHash⟩

/-- An event with a transaction and a block writes a cursor, if it is handled at all. -/
theorem applyRows_of_decoded {cardanoTx : U5cTx} {block : MultiEraBlock}
    (hchain : anyTx.chain = some cardanoTx) (hdecoded : anyTx.decodedBlock D.toPallas = some block)
    {r : Option (ChainPoint × List OwnedMatchRow)}
    (h : applyRows D specialized mode anyTx = .ok r) : ∃ rows, r = some (block.point, rows) := by
  obtain ⟨b, hblock, hne, hdec⟩ := decodedBlock_eq_some.mp hdecoded
  have hempty : b.nativeBytes.isEmpty = false := by simpa using hne
  simp only [applyRows, hchain, hblock, hempty, Bool.false_eq_true, if_false] at h
  obtain ⟨block', hdecode, h⟩ := Except.bind_eq_ok h
  cases hdec.symm.trans (Except.mapError_eq_ok.mp hdecode)
  obtain ⟨_, -, h⟩ := Except.bind_eq_ok h
  obtain ⟨_, -, h⟩ := Except.bind_eq_ok h
  obtain ⟨_, -, h⟩ := Except.bind_eq_ok h
  obtain ⟨rows, -, h⟩ := Except.bind_eq_ok h
  cases h
  exact ⟨rows, rfl⟩

theorem applyRows_of_carries {block : MultiEraBlock} {tx : MultiEraTx}
    (hc : Carries D.toPallas anyTx block tx) {r : Option (ChainPoint × List OwnedMatchRow)}
    (h : applyRows D specialized mode anyTx = .ok r) : ∃ rows, r = some (block.point, rows) := by
  obtain ⟨cardanoTx, hchain, -⟩ := hc.chain
  exact applyRows_of_decoded hchain hc.decodes h

/-- `apply_tx` as a store transaction. -/
theorem applyTx_eq {store store' : Store} :
    applyTx D specialized mode store anyTx = .ok store' ↔
      (applyRows D specialized mode anyTx = .ok none ∧ store' = store) ∨
      ∃ cursor rows, applyRows D specialized mode anyTx = .ok (some (cursor, rows)) ∧
        store' = (store.applyBlock cursor rows).1 := by
  unfold applyTx
  cases h : applyRows D specialized mode anyTx with
  | error e => simp [bind, Except.bind]
  | ok r =>
    cases r with
    | none => simp [bind, Except.bind, pure, Except.pure, eq_comm]
    | some cr =>
      obtain ⟨cursor, rows⟩ := cr
      simp [bind, Except.bind, pure, Except.pure, eq_comm]

/-- `undo_tx` as a store transaction. -/
theorem undoTx_eq (P : Pallas) (store : Store) (anyTx : AnyChainTx) :
    (anyTx.chain = none ∧ undoTx P store anyTx = store) ∨
      ∃ cardanoTx, anyTx.chain = some cardanoTx ∧
        undoTx P store anyTx = (store.undoTx cardanoTx.hash (undoParent P anyTx)).1 := by
  unfold undoTx
  cases anyTx.chain with
  | none => exact Or.inl ⟨rfl, rfl⟩
  | some cardanoTx => exact Or.inr ⟨cardanoTx, rfl, rfl⟩

end Handlers

end Tx3Lift
