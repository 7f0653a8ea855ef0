import Tx3Lift.Core.Basic

/-!
# Cardano payloads over pallas

The decoded views of pallas values that the Cardano backend reads, the decoders
that produce them, and `CardanoPayload`
(`crates/tx3-lift-cardano/src/payload.rs`).

pallas is not part of the repository. `Pallas` collects its decoders, and every
model takes one as an argument; a view holds what the accessors of the decoded
value return. `Pallas.Lawful` is the one fact about decoding that the code
relies on.
-/

namespace Tx3Lift

open Lib

/-! ## Decoded views -/

/-- `pallas::ledger::traverse::Era`. -/
inductive Era where
  | byron
  | shelley
  | allegra
  | mary
  | alonzo
  | babbage
  | conway
deriving DecidableEq

/-- Definite or indefinite CBOR array (`MaybeIndefArray`). -/
inductive ArrayEncoding where
  | definite
  | indefinite
deriving DecidableEq

/-- `pallas::ledger::primitives::BigInt`. -/
inductive BigInt where
  | int (n : ℤ)
  | bigUInt (bytes : ByteBuf)
  | bigNInt (bytes : ByteBuf)
deriving DecidableEq

/-- `pallas::ledger::primitives::PlutusData`. -/
inductive PlutusData where
  | constr (tag : UInt64) (anyConstructor : Option UInt64) (encoding : ArrayEncoding)
      (fields : List PlutusData)
  | map (pairs : List (PlutusData × PlutusData))
  | bigInt (n : BigInt)
  | boundedBytes (b : ByteBuf)
  | array (encoding : ArrayEncoding) (items : List PlutusData)

/-- `DatumOption`. -/
inductive DatumOption where
  | hash (h : Hash 32)
  | data (d : PlutusData)

/-- `MultiEraInput` through `output_ref()`. -/
structure TransactionInput where
  hash : Hash 32
  index : UInt64
deriving DecidableEq

/-- `MultiEraAsset`: `name()` and `any_coin()`. -/
structure MultiEraAsset where
  name : ByteBuf
  anyCoin : ℤ
deriving DecidableEq

/-- `MultiEraPolicyAssets`: `policy()` and `assets()`. -/
structure MultiEraPolicyAssets where
  policy : Hash 28
  assets : List MultiEraAsset
deriving DecidableEq

/-- `MultiEraOutput`: `address().ok()` as bytes, `value().coin()`,
    `value().assets()` and `datum()`. -/
structure MultiEraOutput where
  address : Option ByteBuf
  coin : UInt64
  assets : List MultiEraPolicyAssets
  datum : Option DatumOption

/-- `MultiEraTx`. `cbor` is what `encode()` returns; `requiredSigners` and
    `metadata` are the `AlonzoCompatible` cases, of metadata the labels only.
    No function of the repository calls `is_valid()`. -/
structure MultiEraTx where
  hash : Hash 32
  cbor : ByteBuf
  inputs : List TransactionInput
  outputs : List MultiEraOutput
  mints : List MultiEraPolicyAssets
  referenceInputs : List TransactionInput
  collateral : List TransactionInput
  requiredSigners : Option (List (Hash 28))
  metadata : Option (List UInt64)
  validityStart : Option UInt64
  ttl : Option UInt64
  isValid : Bool

/-- `MultiEraHeader`. -/
structure MultiEraHeader where
  slot : UInt64
  previousHash : Option (Hash 32)

/-- `MultiEraBlock`; `slot()` is the header's. -/
structure MultiEraBlock where
  era : Era
  hash : Hash 32
  header : MultiEraHeader
  txs : List MultiEraTx

/-- `MultiEraBlock::slot`. -/
def MultiEraBlock.slot (block : MultiEraBlock) : UInt64 := block.header.slot

/-! ## Decoders -/

/-- The decoders of pallas, with the error as its text, and the CBOR encoder of Plutus
    data. -/
structure Pallas where
  decodeBlock : ByteBuf → Except String MultiEraBlock
  decodeTx : ByteBuf → Except String MultiEraTx
  decodeOutput : Era → ByteBuf → Except String MultiEraOutput
  encodePlutusData : PlutusData → ByteBuf

/-- A transaction keeps its hash when it is taken out of its block: `encode()` keeps the
    bytes of the body, and the hash is the hash of these bytes. -/
structure Pallas.Lawful (P : Pallas) : Prop where
  hash_of_encode : ∀ {bytes : ByteBuf} {block : MultiEraBlock}, P.decodeBlock bytes = .ok block →
    ∀ tx ∈ block.txs, ∀ {tx' : MultiEraTx}, P.decodeTx tx.cbor = .ok tx' → tx'.hash = tx.hash

/-! ## `CardanoPayload` -/

/-- `CardanoLiftError` (`crates/tx3-lift-cardano/src/error.rs`). -/
inductive CardanoLiftError where
  | core (e : LiftError)
  | pallasDecode (text : String)
  | unresolvedInput (r : UtxoRef)
  | datumDecode (text : String)
  | address (text : String)

/-- `ResolvedOutput`. -/
structure ResolvedOutput where
  era : Era
  cbor : ByteBuf
deriving DecidableEq

/-- `CardanoPayload`. -/
structure CardanoPayload where
  raw : ByteBuf
  resolvedInputs : BTreeMap UtxoRef ResolvedOutput := ∅

/-- A pallas error as the code maps it. -/
def pallasResult {α : Type} : Except String α → Except CardanoLiftError α
  | .ok a => .ok a
  | .error text => .error (.pallasDecode text)

theorem pallasResult_eq_ok {α : Type} {x : Except String α} {a : α} :
    pallasResult x = .ok a ↔ x = .ok a := by
  cases x <;> simp [pallasResult]

/-- `CardanoPayload::from_cbor`. -/
def CardanoPayload.fromCbor (P : Pallas) (bytes : ByteBuf) :
    Except CardanoLiftError CardanoPayload := do
  let _ ← pallasResult (P.decodeTx bytes)
  return { raw := bytes }

/-- `CardanoPayload::with_resolved_inputs`. -/
def CardanoPayload.withResolvedInputs (payload : CardanoPayload)
    (inputs : BTreeMap UtxoRef ResolvedOutput) : CardanoPayload :=
  { payload with resolvedInputs := inputs }

/-- `CardanoPayload::parsed`. -/
def CardanoPayload.parsed (P : Pallas) (payload : CardanoPayload) :
    Except CardanoLiftError MultiEraTx :=
  pallasResult (P.decodeTx payload.raw)

/-- `(ByteBuf::from(oref.hash().to_vec()), oref.index() as u32)`. -/
def TransactionInput.key (input : TransactionInput) : UtxoRef :=
  (input.hash.bytes, input.index.toUInt32)

/-- The output that `resolved_inputs` holds for an input, if there is one and it decodes. -/
def CardanoPayload.resolvedOutput (P : Pallas) (payload : CardanoPayload)
    (input : TransactionInput) : Option MultiEraOutput :=
  payload.resolvedInputs[input.key]?.bind fun resolved =>
    (P.decodeOutput resolved.era resolved.cbor).toOption

/-- The UTxO reference `r` is the output that `input` points to. -/
def TransactionInput.IsRef (input : TransactionInput) (r : UtxoRef) : Prop :=
  input.hash.bytes = r.1 ∧ input.index.toNat = r.2.toNat

/-- Every input and reference input has an output index below `2^32`. -/
def MultiEraTx.IndicesFit (tx : MultiEraTx) : Prop :=
  ∀ input ∈ tx.inputs ++ tx.referenceInputs, input.index.toNat < 2 ^ 32

instance (tx : MultiEraTx) : Decidable tx.IndicesFit :=
  inferInstanceAs (Decidable (∀ input ∈ tx.inputs ++ tx.referenceInputs, _))

/-- Below `2^32` the key of an input is its reference. -/
theorem key_eq_iff {input : TransactionInput} (h : input.index.toNat < 2 ^ 32) (r : UtxoRef) :
    input.key = r ↔ input.IsRef r := by
  rw [TransactionInput.key, TransactionInput.IsRef, Prod.ext_iff]
  exact and_congr_right fun _ => toUInt32_eq_iff h r.2

/-- A reference has an index below `2^32`. -/
theorem key_of_isRef {input : TransactionInput} {r : UtxoRef} (h : input.IsRef r) :
    input.key = r := by
  have hlt : input.index.toNat < 2 ^ 32 := by
    rw [h.2]
    exact r.2.toNat_lt
  exact (key_eq_iff hlt r).mpr h

/-- The resolved outputs hold a decodable output `output` for the input. -/
def CardanoPayload.Resolves (P : Pallas) (payload : CardanoPayload) (input : TransactionInput)
    (output : MultiEraOutput) : Prop :=
  ∃ r resolved, input.IsRef r ∧ payload.resolvedInputs[r]? = some resolved ∧
    P.decodeOutput resolved.era resolved.cbor = .ok output

/-- Whatever its index, an input that is resolved is found under its key. -/
theorem resolvedOutput_of_resolves {P : Pallas} {payload : CardanoPayload}
    {input : TransactionInput} {output : MultiEraOutput}
    (h : payload.Resolves P input output) : payload.resolvedOutput P input = some output := by
  obtain ⟨r, resolved, hr, hl, hd⟩ := h
  rw [← key_of_isRef hr] at hl
  exact Option.bind_eq_some_iff.mpr ⟨resolved, hl, by rw [hd]; rfl⟩

theorem resolvedOutput_eq_some {P : Pallas} {payload : CardanoPayload} {input : TransactionInput}
    (h : input.index.toNat < 2 ^ 32) (output : MultiEraOutput) :
    payload.resolvedOutput P input = some output ↔ payload.Resolves P input output := by
  refine ⟨fun hsome => ?_, resolvedOutput_of_resolves⟩
  obtain ⟨resolved, hr, hd⟩ := Option.bind_eq_some_iff.mp hsome
  refine ⟨input.key, resolved, (key_eq_iff h _).mp rfl, hr, ?_⟩
  cases he : P.decodeOutput resolved.era resolved.cbor with
  | error e => simp [he, Except.toOption] at hd
  | ok o =>
    rw [he] at hd
    cases hd
    rfl

/-! ## Sample transactions

Two Conway transactions that differ in the address of their only output: a script address
and a key address. Each spends output `index` of one earlier transaction, and its output
holds 2 ada and a datum hash. -/

namespace Sample

/-- Header `0x71`: a script payment credential. -/
def scriptAddress : ByteBuf := 0x71 :: List.replicate 28 0x22

/-- Header `0x61`: a key payment credential. -/
def keyAddress : ByteBuf := 0x61 :: List.replicate 28 0x44

/-- `scriptAddress` in bech32. -/
def scriptParty : String := "addr1wy3zyg3zyg3zyg3zyg3zyg3zyg3zyg3zyg3zyg3zyg3zygsual5c3"

/-- `keyAddress` in bech32. -/
def keyParty : String := "addr1v9zyg3zyg3zyg3zyg3zyg3zyg3zyg3zyg3zyg3zyg3zyg3q09h6pt"

def bech32 (s : String) : Except String ByteBuf :=
  if s = scriptParty then .ok scriptAddress
  else if s = keyParty then .ok keyAddress
  else .error "parsing failed"

/-- A profile with one party, at the script address. -/
def vaultProfile : Profile :=
  { parties := HashMap.singleton "vault" scriptParty, environment := .object [] }

def spentTx : Hash 32 := ⟨List.replicate 32 0x11, rfl⟩

def datumHash : Hash 32 := ⟨List.replicate 32 0x33, rfl⟩

def outputCbor (address : ByteBuf) : ByteBuf :=
  [0xa3, 0x00, 0x58, 0x1d] ++ address ++
    [0x01, 0x1a, 0x00, 0x1e, 0x84, 0x80, 0x02, 0x82, 0x00, 0x58, 0x20] ++ datumHash.bytes

def bodyCbor (address : ByteBuf) (index : UInt8) : ByteBuf :=
  [0xa3, 0x00, 0x81, 0x82, 0x58, 0x20] ++ spentTx.bytes ++ [index, 0x01, 0x81] ++
    outputCbor address ++ [0x02, 0x1a, 0x00, 0x03, 0x0d, 0x40]

def txCbor (address : ByteBuf) (index : UInt8) (isValid : Bool) : ByteBuf :=
  0x84 :: bodyCbor address index ++ [0xa0, if isValid then 0xf5 else 0xf4, 0xf6]

def output (address : ByteBuf) : MultiEraOutput :=
  { address := some address, coin := 2000000, assets := [], datum := some (.hash datumHash) }

/-- `hash` is the Blake2b-256 hash of the body. -/
def tx (hash : Hash 32) (address : ByteBuf) (index : UInt8) (isValid : Bool) : MultiEraTx :=
  { hash := hash
    cbor := txCbor address index isValid
    inputs := [{ hash := spentTx, index := index.toUInt64 }]
    outputs := [output address]
    mints := []
    referenceInputs := []
    collateral := []
    requiredSigners := none
    metadata := none
    validityStart := none
    ttl := none
    isValid := isValid }

def scriptTxHash : Hash 32 :=
  ⟨[0x36, 0x39, 0x0c, 0x9c, 0x58, 0x36, 0x04, 0xdf, 0x46, 0x68, 0x69, 0x5e, 0x3d, 0x6c, 0xb0, 0x47,
    0x6f, 0xf2, 0x6d, 0x74, 0x7d, 0xca, 0xf0, 0x77, 0xbf, 0x84, 0xc7, 0x83, 0x66, 0x5d, 0x08, 0x9c],
    rfl⟩

def scriptTxHash' : Hash 32 :=
  ⟨[0x5c, 0x07, 0x0c, 0xf6, 0x5f, 0x1e, 0x25, 0xc1, 0x26, 0x89, 0xd4, 0x90, 0x78, 0x3e, 0xc8, 0x91,
    0x49, 0xc9, 0xb6, 0x3d, 0x59, 0x15, 0x7c, 0x0e, 0x5a, 0x14, 0x08, 0xf5, 0x51, 0x66, 0xd4, 0x91],
    rfl⟩

def keyTxHash : Hash 32 :=
  ⟨[0xac, 0x06, 0xb7, 0x25, 0xa0, 0xe1, 0x78, 0xe8, 0xb1, 0x76, 0x80, 0x9b, 0x96, 0x4a, 0x32, 0x7a,
    0xc7, 0xb5, 0xb1, 0xa7, 0x86, 0x07, 0x92, 0x2c, 0x84, 0x42, 0x2a, 0x4e, 0xa6, 0x85, 0x8a, 0xd0],
    rfl⟩

def scriptTx : MultiEraTx := tx scriptTxHash scriptAddress 0 true

def scriptTx' : MultiEraTx := tx scriptTxHash' scriptAddress 1 true

def keyTx : MultiEraTx := tx keyTxHash keyAddress 0 true

/-- `scriptTx` with the flag of a transaction that failed script validation. -/
def failedTx : MultiEraTx := tx scriptTxHash scriptAddress 0 false

def txs : List MultiEraTx := [scriptTx, scriptTx', keyTx, failedTx]

/-- pallas on the sample transactions and their outputs. -/
def pallas (blocks : List (ByteBuf × MultiEraBlock)) : Pallas :=
  { decodeBlock := fun bytes =>
      match blocks.find? fun b => b.1 = bytes with
      | some b => .ok b.2
      | none => .error "end of input bytes"
    decodeTx := fun bytes =>
      match txs.find? fun tx => tx.cbor = bytes with
      | some tx => .ok tx
      | none => .error "end of input bytes"
    decodeOutput := fun _ bytes =>
      if bytes = outputCbor scriptAddress then .ok (output scriptAddress)
      else if bytes = outputCbor keyAddress then .ok (output keyAddress)
      else .error "end of input bytes"
    encodePlutusData := fun _ => [] }

/-- pallas on one transaction and the sample outputs. -/
def pallasOf (tx : MultiEraTx) : Pallas :=
  { pallas [] with
    decodeTx := fun bytes => if bytes = tx.cbor then .ok tx else .error "end of input bytes" }

/-- The payload of a transaction, with no input resolved. -/
def payloadOf (tx : MultiEraTx) : CardanoPayload := { raw := tx.cbor }

theorem parsed_payloadOf (tx : MultiEraTx) : (payloadOf tx).parsed (pallasOf tx) = .ok tx := by
  simp [CardanoPayload.parsed, pallasOf, payloadOf, pallasResult]

end Sample

end Tx3Lift
