import Tx3Lift.Cardano.Roles

/-!
# The credential behind a signer

`lift_signers` attributes a required signer to a party when the key hash is some window of the
party's address (`crates/tx3-lift-cardano/src/lifting.rs`, lines 303–344). In a Shelley address
the payment key stands after the header byte, so a window may also be a script hash, the stake
credential or straddle two fields.

* `paymentKey_bytes_iff`: the payment key of an address, read off its bytes.
* `strayHit_bytes_iff`: where else a key hash can occur.
* `liftSigners_payment_iff`: signers are attributed by payment key exactly when every other
  occurrence is behind a party of an earlier name.
-/

namespace Tx3Lift

open Lib

/-! ## Shelley addresses -/

/-- The hash that a part of an address is locked by. -/
inductive Credential where
  | key (hash : Hash 28)
  | script (hash : Hash 28)

def Credential.hash : Credential → Hash 28
  | .key hash => hash
  | .script hash => hash

/-- What follows the payment part: a credential, a pointer to a certificate, or nothing. -/
inductive StakePart where
  | credential (stake : Credential)
  | pointer (bytes : ByteBuf)
  | none

def StakePart.bytes : StakePart → ByteBuf
  | .credential stake => stake.hash.bytes
  | .pointer bytes => bytes
  | .none => []

/-- A Shelley address that holds funds: base, pointer or enterprise. -/
structure ShelleyAddress where
  network : Fin 16
  payment : Credential
  stake : StakePart

/-- The upper half of the header: bit 4 marks a script payment part, the bits above it the
    stake part. -/
def ShelleyAddress.addressType (address : ShelleyAddress) : ℕ :=
  (match address.stake with
    | .credential (.key _) => 0
    | .credential (.script _) => 2
    | .pointer _ => 4
    | .none => 6) +
  match address.payment with
    | .key _ => 0
    | .script _ => 1

def ShelleyAddress.header (address : ShelleyAddress) : UInt8 :=
  UInt8.ofNat (16 * address.addressType + address.network)

def ShelleyAddress.bytes (address : ShelleyAddress) : ByteBuf :=
  address.header :: (address.payment.hash.bytes ++ address.stake.bytes)

/-- A header of a base, pointer or enterprise address with a key in its payment part. -/
def KeyHeader (header : UInt8) : Prop :=
  header.toNat / 16 < 8 ∧ header.toNat / 16 % 2 = 0

/-- Bytes 1 to 28 of the address are this key hash, and the header marks a key. -/
def PaymentKey (address keyhash : ByteBuf) : Prop :=
  ∃ header rest, address = header :: (keyhash ++ rest) ∧ KeyHeader header

theorem ShelleyAddress.addressType_lt (address : ShelleyAddress) : address.addressType < 8 := by
  obtain ⟨network, payment, stake⟩ := address
  rcases payment with _ | _ <;> rcases stake with (_ | _) | _ | _ <;> simp [addressType]

theorem ShelleyAddress.header_div (address : ShelleyAddress) :
    address.header.toNat / 16 = address.addressType := by
  have htype := address.addressType_lt
  have hnetwork := address.network.isLt
  rw [ShelleyAddress.header, UInt8.toNat_ofNat']
  omega

theorem ShelleyAddress.keyHeader_iff (address : ShelleyAddress) :
    KeyHeader address.header ↔ ∃ hash, address.payment = .key hash := by
  rw [KeyHeader, address.header_div]
  obtain ⟨network, payment, stake⟩ := address
  rcases payment with _ | _ <;> rcases stake with (_ | _) | _ | _ <;> simp [addressType]

/-- **The payment key**, read off the bytes. -/
theorem paymentKey_bytes_iff (address : ShelleyAddress) (k : Hash 28) :
    PaymentKey address.bytes k.bytes ↔ address.payment = .key k := by
  have hheader := address.keyHeader_iff
  unfold PaymentKey ShelleyAddress.bytes
  constructor
  · rintro ⟨header, rest, hbytes, hkey⟩
    obtain ⟨rfl, hfields⟩ := List.cons.inj hbytes
    obtain ⟨hash, hpayment⟩ := hheader.mp hkey
    have hlen : address.payment.hash.bytes.length = k.bytes.length :=
      address.payment.hash.length_eq.trans k.length_eq.symm
    have hhash := Hash.ext_bytes (List.append_inj hfields hlen).1
    rw [hpayment] at hhash ⊢
    exact congrArg Credential.key hhash
  · intro hpayment
    exact ⟨address.header, address.stake.bytes, by rw [hpayment]; rfl, hheader.mpr ⟨k, hpayment⟩⟩

/-! ## Stray hits -/

/-- The key hash is found in the address, but is not its payment key. -/
def StrayHit (address keyhash : ByteBuf) : Prop :=
  addressContainsKeyhash address keyhash = true ∧ ¬ PaymentKey address keyhash

/-- Where the hashes of an address stand. -/
def ShelleyAddress.fieldOffsets (address : ShelleyAddress) : List ℕ :=
  match address.stake with
  | .credential _ => [1, 29]
  | .pointer _ => [1]
  | .none => [1]

theorem mem_fieldOffsets_iff {address : ShelleyAddress} {offset : ℕ} :
    offset ∈ address.fieldOffsets ↔
      offset = 1 ∨ (offset = 29 ∧ ∃ stake, address.stake = .credential stake) := by
  unfold ShelleyAddress.fieldOffsets
  cases address.stake <;> simp

theorem addressContainsKeyhash_bytes_iff (address : ShelleyAddress) (k : Hash 28) :
    addressContainsKeyhash address.bytes k.bytes = true ↔
      ∃ offset, OccursAt k.bytes address.bytes offset := by
  have hlen : ¬ address.bytes.length < 1 + k.bytes.length := by
    rw [ShelleyAddress.bytes, List.length_cons, List.length_append, Hash.length_eq, Hash.length_eq]
    omega
  rw [addressContainsKeyhash, if_neg hlen, decide_eq_true_iff, infix_iff_exists_occursAt]

/-- The window behind the header is the hash of the payment part. -/
theorem occursAt_payment_iff (address : ShelleyAddress) (k : Hash 28) :
    OccursAt k.bytes address.bytes 1 ↔ address.payment.hash = k := by
  have hlen : k.bytes.length = address.payment.hash.bytes.length :=
    k.length_eq.trans address.payment.hash.length_eq.symm
  have h := occursAt_append_iff hlen [address.header] address.stake.bytes
  rw [eq_comm, ← Hash.bytes_inj, ← h]
  rfl

/-- The window behind the payment part is the hash of the stake credential. -/
theorem occursAt_stake_iff (address : ShelleyAddress) {stake : Credential}
    (hstake : address.stake = .credential stake) (k : Hash 28) :
    OccursAt k.bytes address.bytes 29 ↔ stake.hash = k := by
  have hlen : k.bytes.length = stake.hash.bytes.length :=
    k.length_eq.trans stake.hash.length_eq.symm
  have h := occursAt_append_iff hlen (address.header :: address.payment.hash.bytes) []
  rw [List.length_cons, Hash.length_eq, List.append_nil] at h
  rw [eq_comm, ← Hash.bytes_inj, ← h, ShelleyAddress.bytes, hstake]
  rfl

/-- **Where stray hits come from**: the hash of a script payment part, the stake credential, or
    a window that is no field. -/
theorem strayHit_bytes_iff (address : ShelleyAddress) (k : Hash 28) :
    StrayHit address.bytes k.bytes ↔ address.payment ≠ .key k ∧
      (address.payment = .script k ∨ (∃ stake, address.stake = .credential stake ∧ stake.hash = k) ∨
        ∃ offset ∉ address.fieldOffsets, OccursAt k.bytes address.bytes offset) := by
  rw [StrayHit, paymentKey_bytes_iff, addressContainsKeyhash_bytes_iff, and_comm]
  refine and_congr_right fun hkey => ?_
  constructor
  · rintro ⟨offset, hoffset⟩
    by_cases hfield : offset ∈ address.fieldOffsets
    · rcases mem_fieldOffsets_iff.mp hfield with rfl | ⟨rfl, stake, hstake⟩
      · have hhash := (occursAt_payment_iff address k).mp hoffset
        cases hpayment : address.payment with
        | key hash =>
          rw [hpayment] at hhash hkey
          exact absurd (congrArg Credential.key hhash) hkey
        | script hash =>
          rw [hpayment] at hhash
          exact Or.inl (congrArg Credential.script hhash)
      · exact Or.inr (Or.inl ⟨stake, hstake, (occursAt_stake_iff address hstake k).mp hoffset⟩)
    · exact Or.inr (Or.inr ⟨offset, hfield, hoffset⟩)
  · rintro (hscript | ⟨stake, hstake, hhash⟩ | ⟨offset, -, hoffset⟩)
    · exact ⟨1, (occursAt_payment_iff address k).mpr (by rw [hscript]; rfl)⟩
    · exact ⟨29, (occursAt_stake_iff address hstake k).mpr hhash⟩
    · exact ⟨offset, hoffset⟩

/-! ## Signers -/

/-- A party of an earlier name holds the key hash. -/
def HeldBefore (parties : Parties) (name : String) (keyhash : ByteBuf) : Prop :=
  ∃ name' party, parties[name']? = some party ∧ compare name' name = .lt ∧
    addressContainsKeyhash party.address keyhash = true

/-- **Signers.** Required signers are attributed by payment key exactly when every stray hit of
    one of them is behind a party of an earlier name that holds its hash. -/
theorem liftSigners_payment_iff (tx : MultiEraTx) (parties : Parties) :
    (∀ s ∈ liftSigners tx parties, ∀ (name : String) (party : PartyAnnotation),
        s.party = some name → parties[name]? = some party →
        PaymentKey party.address s.keyHash) ↔
      ∀ hash ∈ tx.requiredSigners.getD [], ∀ (name : String) (party : PartyAnnotation),
        parties[name]? = some party → StrayHit party.address hash.bytes →
        HeldBefore parties name hash.bytes := by
  rw [liftSigners_eq, List.forall_mem_map]
  refine forall₂_congr fun hash _ => ?_
  constructor
  · rintro h name party hparty ⟨hcontains, hkey⟩
    by_contra hheld
    have hfirst : FirstIn parties
        (onAddress fun address => addressContainsKeyhash address hash.bytes) name := by
      refine ⟨⟨party, hparty, hcontains⟩, ?_⟩
      intro name' party' hparty' hlt
      exact Bool.eq_false_iff.mpr fun hcontains' => hheld ⟨name', party', hparty', hlt, hcontains'⟩
    exact hkey (h name party (signerParty_eq_some_iff.mpr hfirst) hparty)
  · intro h name party hsigner hparty
    obtain ⟨⟨party', hparty', hcontains⟩, hbefore⟩ := signerParty_eq_some_iff.mp hsigner
    cases hparty.symm.trans hparty'
    by_contra hkey
    obtain ⟨name', party', hparty', hlt, hcontains'⟩ := h name party hparty ⟨hcontains, hkey⟩
    have hmiss := hbefore name' party' hparty' hlt
    rw [onAddress, hcontains'] at hmiss
    cases hmiss

namespace Sample

def staker : Hash 28 := ⟨List.replicate 28 0x55, rfl⟩

/-- A base address: another key pays, this one stakes. -/
def stakingAddress : ShelleyAddress :=
  { network := 1
    payment := .key ⟨List.replicate 28 0x44, rfl⟩
    stake := .credential (.key staker) }

def stakingParties : Parties :=
  Std.ExtTreeMap.empty.insert "alice"
    { name := "alice", address := stakingAddress.bytes, role := .absent }

def signedTxHash : Hash 32 :=
  ⟨[0x63, 0x92, 0xf7, 0x5c, 0x2c, 0x36, 0x7c, 0x7c, 0x90, 0x18, 0xd5, 0x2f, 0x7f, 0x54, 0xa4, 0x14,
    0xf7, 0x10, 0x03, 0x33, 0x91, 0x9d, 0x4a, 0xe7, 0x3b, 0xa3, 0x59, 0xc4, 0x9e, 0x26, 0x49, 0xcc],
    rfl⟩

/-- `scriptTx` with a required signer. -/
def signedTx : MultiEraTx :=
  { scriptTx with
    hash := signedTxHash
    cbor := [0x84, 0xa4, 0x00, 0x81, 0x82, 0x58, 0x20] ++ spentTx.bytes ++ [0x00, 0x01, 0x81] ++
      outputCbor scriptAddress ++ [0x02, 0x1a, 0x00, 0x03, 0x0d, 0x40, 0x0e, 0x81, 0x58, 0x1c] ++
      staker.bytes ++ [0xa0, 0xf5, 0xf6]
    requiredSigners := some [staker] }

end Sample

/-- A required signer that only stakes for a party is attributed to it. -/
theorem liftSigners_stake_key :
    ∃ s ∈ liftSigners Sample.signedTx Sample.stakingParties, ∃ name party,
      s.party = some name ∧ Sample.stakingParties[name]? = some party ∧
      ¬ PaymentKey party.address s.keyHash := by
  refine ⟨⟨Sample.staker.bytes, some "alice"⟩, ?_, "alice",
    ⟨"alice", Sample.stakingAddress.bytes, .absent⟩, rfl, rfl, ?_⟩
  · have hsigners : liftSigners Sample.signedTx Sample.stakingParties =
        [⟨Sample.staker.bytes, some "alice"⟩] := rfl
    rw [hsigners]
    exact List.mem_singleton_self _
  · rw [paymentKey_bytes_iff]
    intro hkey
    have hbytes := congrArg (fun c => c.hash.bytes) hkey
    exact absurd hbytes (by decide)

end Tx3Lift
