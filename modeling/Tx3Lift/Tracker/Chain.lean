import Tx3Lift.Tracker.Specialization

/-!
# Chains and their deliveries

A `Delivery` is a block with one envelope for each of its transactions, in order; a
`ChainStream` is what the upstream sends for a chain. Blocks of a chain have distinct
hashes, and a transaction occurs on it once.

* `events_txHash`: the envelopes of a chain name distinct transactions.
* `eq_of_hash`: deliveries of a chain with the same block hash are one.
-/

namespace Tx3Lift

open Lib

/-- The transaction hash that an envelope names. -/
def AnyChainTx.txHash (anyTx : AnyChainTx) : Option ByteBuf := anyTx.chain.map U5cTx.hash

theorem txHash_of_carries {P : Pallas} {anyTx : AnyChainTx} {block : MultiEraBlock}
    {tx : MultiEraTx} (h : Carries P anyTx block tx) : anyTx.txHash = some tx.hash.bytes := by
  obtain ⟨cardanoTx, hchain, hhash⟩ := h.chain
  rw [AnyChainTx.txHash, hchain, Option.map_some, hhash]

/-- A block and the envelopes that deliver its transactions, one each. -/
structure Delivery (P : Pallas) where
  block : MultiEraBlock
  events : List AnyChainTx
  delivers : List.Forall₂ (fun e tx => Carries P e block tx) events block.txs

/-- A chain, delivered block by block. -/
structure ChainStream (P : Pallas) where
  deliveries : List (Delivery P)
  hashes : (deliveries.map fun d => d.block.hash).Nodup
  txs : ((deliveries.flatMap fun d => d.block.txs).map MultiEraTx.hash).Nodup

/-- The envelopes of some deliveries, in order. -/
def eventsOf {P : Pallas} (deliveries : List (Delivery P)) : List AnyChainTx :=
  deliveries.flatMap Delivery.events

/-- All envelopes of a chain, in order. -/
def ChainStream.events {P : Pallas} (stream : ChainStream P) : List AnyChainTx :=
  eventsOf stream.deliveries

section Streams

variable {P : Pallas}

theorem Delivery.carries (d : Delivery P) {e : AnyChainTx} (h : e ∈ d.events) :
    ∃ tx, Carries P e d.block tx := by
  obtain ⟨tx, -, hc⟩ := exists_right_of_forall₂ d.delivers h
  exact ⟨tx, hc⟩

theorem Delivery.txHashes (d : Delivery P) :
    d.events.map AnyChainTx.txHash = d.block.txs.map fun tx => some tx.hash.bytes :=
  (map_eq_of_forall₂ d.delivers fun _ _ _ hc => (txHash_of_carries hc).symm).symm

theorem eventsOf_append (before after : List (Delivery P)) :
    eventsOf (before ++ after) = eventsOf before ++ eventsOf after := List.flatMap_append

theorem eventsOf_cons (d : Delivery P) (after : List (Delivery P)) :
    eventsOf (d :: after) = d.events ++ eventsOf after := List.flatMap_cons

theorem eventsOf_txHashes (deliveries : List (Delivery P)) :
    (eventsOf deliveries).map AnyChainTx.txHash =
      (deliveries.flatMap fun d => d.block.txs).map fun tx => some tx.hash.bytes := by
  induction deliveries with
  | nil => rfl
  | cons d deliveries ih =>
    rw [eventsOf_cons, List.map_append, d.txHashes, ih, List.flatMap_cons, List.map_append]

/-- The envelopes of a chain name distinct transactions. -/
theorem ChainStream.events_txHash (stream : ChainStream P) :
    (stream.events.map AnyChainTx.txHash).Nodup := by
  rw [ChainStream.events, eventsOf_txHashes]
  have hinj : Function.Injective fun h : Hash 32 => some h.bytes := fun a b hab =>
    Hash.ext_bytes (Option.some.inj hab)
  have hnodup := stream.txs.map hinj
  rwa [List.map_map] at hnodup

/-- Deliveries of a chain with the same block hash are one delivery. -/
theorem ChainStream.eq_of_hash (stream : ChainStream P) {d d' : Delivery P}
    (h : d ∈ stream.deliveries) (h' : d' ∈ stream.deliveries)
    (heq : d.block.hash = d'.block.hash) : d = d' :=
  List.inj_on_of_nodup_map stream.hashes h h' heq

end Streams

/-! ## A sample chain

Block `parent` is empty. Its two children are competing blocks: `child` holds both sample
transactions, `rival`, four slots later, only the first. -/

namespace Sample

def headerCbor (number slot : ByteBuf) (previous : Option (Hash 32)) (bodySize : ByteBuf)
    (bodyHash : Hash 32) : ByteBuf :=
  [0x82, 0x8a] ++ number ++ slot ++
    (match previous with
    | some hash => [0x58, 0x20] ++ hash.bytes
    | none => [0xf6]) ++
    [0x40, 0x40, 0x82, 0x40, 0x40] ++ bodySize ++ [0x58, 0x20] ++ bodyHash.bytes ++
    [0x84, 0x40, 0x00, 0x00, 0x40, 0x82, 0x09, 0x00, 0x40]

def blockCbor (header : ByteBuf) (bodies : List ByteBuf) : ByteBuf :=
  [0x82, 0x07, 0x85] ++ header ++ [0x80 + UInt8.ofNat bodies.length] ++ bodies.flatten ++
    [0x80 + UInt8.ofNat bodies.length] ++ List.replicate bodies.length 0xa0 ++ [0xa0, 0x80]

def parentHash : Hash 32 :=
  ⟨[0x51, 0x0e, 0x11, 0x9d, 0x08, 0xd5, 0xf3, 0xd4, 0x1f, 0xd7, 0x2d, 0x78, 0x9e, 0xea, 0x73, 0xc0,
    0x00, 0x3e, 0xc3, 0x55, 0xed, 0xb9, 0x4c, 0xfd, 0x05, 0x4b, 0x16, 0x7a, 0xa9, 0x7c, 0xea, 0x8b],
    rfl⟩

def childHash : Hash 32 :=
  ⟨[0x16, 0xf7, 0xaf, 0x3b, 0x47, 0x41, 0xb6, 0xf7, 0xa9, 0x56, 0x0f, 0xa3, 0x0c, 0x1b, 0x59, 0x36,
    0xce, 0x61, 0x64, 0xc7, 0x75, 0xed, 0xb9, 0xf5, 0xe6, 0xda, 0xe2, 0x69, 0xc5, 0x5e, 0xd8, 0xb9],
    rfl⟩

def rivalHash : Hash 32 :=
  ⟨[0x91, 0x89, 0x3c, 0x3b, 0x64, 0xa8, 0xda, 0xf5, 0x69, 0x10, 0x04, 0x5b, 0x03, 0xe7, 0x8c, 0x7c,
    0xf9, 0x0b, 0xfe, 0x58, 0x9f, 0x5d, 0x5b, 0x9d, 0x14, 0x59, 0xd9, 0xe9, 0xdf, 0x2c, 0x9a, 0x5e],
    rfl⟩

def parentBytes : ByteBuf :=
  blockCbor (headerCbor [0x01] [0x18, 0x64] none [0x04]
    ⟨[0x29, 0x57, 0x1d, 0x16, 0xf0, 0x81, 0x70, 0x9b, 0x3c, 0x48, 0x65, 0x18, 0x60, 0x07, 0x7b, 0xeb,
      0xf9, 0x34, 0x0a, 0xbb, 0x3f, 0xc7, 0x13, 0x34, 0x43, 0xc5, 0x4f, 0x1f, 0x5a, 0x5e, 0xdc, 0xf1],
      rfl⟩) []

def childBytes : ByteBuf :=
  blockCbor (headerCbor [0x02] [0x18, 0x65] (some parentHash) [0x18, 0xfc]
    ⟨[0x5b, 0x73, 0xcd, 0x89, 0x02, 0x4b, 0x77, 0xf2, 0x65, 0x3b, 0x57, 0xdc, 0x3d, 0x40, 0xca, 0x00,
      0x8b, 0xd0, 0x81, 0x92, 0x3f, 0xc5, 0x2b, 0xd3, 0x67, 0x44, 0xc1, 0x7c, 0xf8, 0x89, 0x24, 0x29],
      rfl⟩) [bodyCbor scriptAddress 0, bodyCbor scriptAddress 1]

def rivalBytes : ByteBuf :=
  blockCbor (headerCbor [0x02] [0x18, 0x69] (some parentHash) [0x18, 0x80]
    ⟨[0x85, 0xbd, 0x44, 0xc7, 0x3d, 0x9a, 0xcb, 0x67, 0xc0, 0x32, 0x02, 0x1e, 0x01, 0x3c, 0xb6, 0x98,
      0x91, 0xf3, 0x68, 0xc3, 0x20, 0x53, 0xa0, 0x83, 0x26, 0xa7, 0x52, 0x0f, 0xa1, 0x1a, 0x86, 0x49],
      rfl⟩) [bodyCbor scriptAddress 0]

def parent : MultiEraBlock :=
  { era := .conway, hash := parentHash, header := { slot := 100, previousHash := none }, txs := [] }

def child : MultiEraBlock :=
  { era := .conway
    hash := childHash
    header := { slot := 101, previousHash := some parentHash }
    txs := [scriptTx, scriptTx'] }

def rival : MultiEraBlock :=
  { era := .conway
    hash := rivalHash
    header := { slot := 105, previousHash := some parentHash }
    txs := [scriptTx] }

/-- The crates on the sample chain. -/
def chainDeps : Deps := deps [(parentBytes, parent), (childBytes, child), (rivalBytes, rival)]

theorem chainDeps_lawful : chainDeps.toPallas.Lawful := by
  constructor
  intro bytes block hblock tx htx tx' htx'
  have hfound : ∀ b ∈ [parent, child, rival], ∀ tx ∈ b.txs,
      ∀ tx' ∈ (txs.find? fun t => t.cbor = tx.cbor).toList, tx'.hash = tx.hash := by decide
  have hmem : block ∈ [parent, child, rival] := by
    simp only [chainDeps, deps, pallas] at hblock
    split at hblock
    · rename_i b hb
      cases hblock
      have := List.mem_of_find?_eq_some hb
      simp only [List.mem_cons, List.not_mem_nil, or_false] at this
      rcases this with rfl | rfl | rfl <;> simp
    · cases hblock
  have htx'' : tx' ∈ (txs.find? fun t => t.cbor = tx.cbor).toList := by
    simp only [chainDeps, deps, pallas] at htx'
    split at htx'
    · rename_i t ht
      cases htx'
      rw [ht]
      simp
    · cases htx'
  exact hfound block hmem tx htx tx' htx''

/-- The envelope of a sample transaction, with its output references unresolved. -/
def envelope (blockBytes : ByteBuf) (tx : MultiEraTx) : AnyChainTx :=
  { chain := some
      { hash := tx.hash.bytes
        inputs := tx.inputs.map fun i =>
          { txHash := i.hash.bytes, outputIndex := i.index.toUInt32, asOutput := none }
        referenceInputs := [] }
    block := some { nativeBytes := blockBytes } }

set_option maxRecDepth 4000 in
theorem child_carries : Carries chainDeps.toPallas (envelope childBytes scriptTx) child scriptTx :=
  ⟨⟨_, rfl, rfl⟩, rfl, by simp [child]⟩

set_option maxRecDepth 4000 in
theorem child_carries' :
    Carries chainDeps.toPallas (envelope childBytes scriptTx') child scriptTx' :=
  ⟨⟨_, rfl, rfl⟩, rfl, by simp [child]⟩

set_option maxRecDepth 4000 in
theorem rival_carries : Carries chainDeps.toPallas (envelope rivalBytes scriptTx) rival scriptTx :=
  ⟨⟨_, rfl, rfl⟩, rfl, by simp [rival]⟩

def parentDelivery : Delivery chainDeps.toPallas :=
  { block := parent, events := [], delivers := List.Forall₂.nil }

def childDelivery : Delivery chainDeps.toPallas :=
  { block := child
    events := [envelope childBytes scriptTx, envelope childBytes scriptTx']
    delivers := .cons child_carries (.cons child_carries' .nil) }

def rivalDelivery : Delivery chainDeps.toPallas :=
  { block := rival
    events := [envelope rivalBytes scriptTx]
    delivers := .cons rival_carries .nil }

end Sample

/-- The sample chain: an empty block, then one with two transactions that match. -/
def sampleStream : ChainStream Sample.chainDeps.toPallas :=
  { deliveries := [Sample.parentDelivery, Sample.childDelivery]
    hashes := by decide
    txs := by decide }

end Tx3Lift
