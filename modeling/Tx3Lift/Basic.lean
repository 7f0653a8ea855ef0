import Mathlib

/-!
# Shared vocabulary

Types and helpers that the models of all three crates use.

* `ByteBuf`, `Vec<u8>`, `&[u8]` and prost's `Bytes` are `ByteBuf := List UInt8`;
  `[u8; n]` and pallas' `Hash<n>` are `Hash n`, a byte string that carries its
  length.
* `BTreeSet` and `BTreeMap` are the extensional ordered containers of `Std`:
  iteration is in key order, and two of them are equal when they have the same
  entries.
* `HashMap` is a list of entries with distinct keys; the list order is the
  (arbitrary) iteration order.
* Counters are in `ℕ` with the clamp the code applies; machine words that are
  compared or cast (slots, output indices) keep their width.
-/

namespace Tx3Lift

/-! ## Byte strings -/

/-- `serde_bytes::ByteBuf`. -/
abbrev ByteBuf := List UInt8

/-- pallas' `Hash<n>` and the array `[u8; n]`. -/
structure Hash (n : ℕ) where
  bytes : ByteBuf
  length_eq : bytes.length = n
deriving DecidableEq

theorem Hash.ext_bytes {n : ℕ} {a b : Hash n} (h : a.bytes = b.bytes) : a = b := by
  cases a; cases b; simpa using h

theorem Hash.bytes_inj {n : ℕ} {a b : Hash n} : a.bytes = b.bytes ↔ a = b :=
  ⟨Hash.ext_bytes, fun h => by rw [h]⟩

/-- `bytes.try_into().ok()` into `[u8; n]`. -/
def Hash.ofBytes? (n : ℕ) (bytes : ByteBuf) : Option (Hash n) :=
  if h : bytes.length = n then some ⟨bytes, h⟩ else none

@[simp] theorem Hash.ofBytes?_bytes {n : ℕ} (h : Hash n) : Hash.ofBytes? n h.bytes = some h := by
  simp [Hash.ofBytes?, h.length_eq]

theorem Hash.ofBytes?_eq_some {n : ℕ} {bytes : ByteBuf} {h : Hash n} :
    Hash.ofBytes? n bytes = some h ↔ bytes = h.bytes := by
  constructor
  · intro e
    simp only [Hash.ofBytes?, Option.dite_none_right_eq_some, Option.some.injEq] at e
    obtain ⟨_, rfl⟩ := e
    rfl
  · rintro rfl
    exact Hash.ofBytes?_bytes h

/-! ## Results -/

/-- `Option::ok_or`. -/
def okOr {ε α : Type} (o : Option α) (e : ε) : Except ε α :=
  match o with
  | some a => .ok a
  | none => .error e

theorem okOr_eq_ok {ε α : Type} {o : Option α} {e : ε} {a : α} : okOr o e = .ok a ↔ o = some a := by
  cases o <;> simp [okOr]

theorem Except.ok_bind {ε α β : Type} (a : α) (f : α → Except ε β) : .ok a >>= f = f a := rfl

/-- What a successful `?` chain went through. -/
theorem Except.bind_eq_ok {ε α β : Type} {x : Except ε α} {f : α → Except ε β} {b : β}
    (h : x >>= f = .ok b) : ∃ a, x = .ok a ∧ f a = .ok b := by
  cases x with
  | error e => cases h
  | ok a => exact ⟨a, rfl, h⟩

/-- A `?` chain whose second part cannot fail. -/
theorem Except.exists_bind_eq_ok {ε α β : Type} {x : Except ε α} {f : α → Except ε β}
    (hf : ∀ a, ∃ b, f a = .ok b) : (∃ b, x >>= f = .ok b) ↔ ∃ a, x = .ok a := by
  cases x with
  | error e => simp [bind, Except.bind]
  | ok a => exact ⟨fun _ => ⟨a, rfl⟩, fun _ => hf a⟩

theorem Except.mapError_eq_ok {ε ε' α : Type} {x : Except ε α} {f : ε → ε'} {a : α} :
    x.mapError f = .ok a ↔ x = .ok a := by
  cases x <;> simp [Except.mapError]

/-- A loop that collects one result for each element, until the first error. -/
theorem mapM_eq_ok {ε α β : Type} {f : α → Except ε β} {xs : List α} {ys : List β} :
    xs.mapM f = .ok ys ↔ List.Forall₂ (fun x y => f x = .ok y) xs ys := by
  induction xs generalizing ys with
  | nil =>
    rw [List.mapM_nil, List.forall₂_nil_left_iff]
    exact ⟨fun h => (Except.ok.inj h).symm, fun h => by rw [h]; rfl⟩
  | cons x xs ih =>
    rw [List.mapM_cons, List.forall₂_cons_left_iff]
    constructor
    · intro h
      obtain ⟨y, hy, h⟩ := Except.bind_eq_ok h
      obtain ⟨rest, hrest, h⟩ := Except.bind_eq_ok h
      cases h
      exact ⟨y, rest, hy, ih.mp hrest, rfl⟩
    · rintro ⟨y, rest, hy, hrest, rfl⟩
      rw [hy, ih.mpr hrest]
      rfl

/-! ## Containers -/

/-- `std::collections::BTreeSet`. -/
abbrev BTreeSet (α : Type) [Ord α] := Std.ExtTreeSet α compare

/-- `std::collections::BTreeMap`. -/
abbrev BTreeMap (κ ν : Type) [Ord κ] := Std.ExtTreeMap κ ν compare

/-- `std::collections::HashMap`: the entries in iteration order. -/
structure HashMap (κ ν : Type) where
  entries : List (κ × ν)
  nodup : (entries.map Prod.fst).Nodup

/-- A map of one entry. -/
def HashMap.singleton {κ ν : Type} (k : κ) (v : ν) : HashMap κ ν :=
  { entries := [(k, v)], nodup := List.nodup_singleton k }

/-- `HashMap::get`. -/
def HashMap.get? {κ ν : Type} [BEq κ] (m : HashMap κ ν) (k : κ) : Option ν := m.entries.lookup k

/-- `HashMap::keys`. -/
def HashMap.keys {κ ν : Type} (m : HashMap κ ν) : List κ := m.entries.map Prod.fst

/-- `HashMap::values`. -/
def HashMap.values {κ ν : Type} (m : HashMap κ ν) : List ν := m.entries.map Prod.snd

section HashMap

variable {κ ν : Type} {m m' : HashMap κ ν}

theorem HashMap.get?_eq_some_iff [BEq κ] [LawfulBEq κ] {k : κ} {v : ν} :
    m.get? k = some v ↔ (k, v) ∈ m.entries := by
  obtain ⟨entries, hnodup⟩ := m
  unfold HashMap.get?
  induction entries with
  | nil => simp
  | cons e entries ih =>
    obtain ⟨hnotin, hrest⟩ : e.1 ∉ entries.map Prod.fst ∧ _ := List.nodup_cons.mp hnodup
    obtain ⟨key, value⟩ := e
    by_cases hk : k = key
    · subst hk
      have hold : (k, v) ∉ entries := fun h => hnotin (List.mem_map.mpr ⟨_, h, rfl⟩)
      simp [hold, eq_comm]
    · have hne : (k == key) = false := beq_eq_false_iff_ne.mpr hk
      rw [List.lookup_cons, hne]
      simpa [hk] using ih hrest

/-- What a map returns does not depend on its iteration order. -/
theorem HashMap.get?_of_perm [BEq κ] [LawfulBEq κ] (h : m'.entries.Perm m.entries) (k : κ) :
    m'.get? k = m.get? k := by
  refine Option.ext fun v => ?_
  rw [HashMap.get?_eq_some_iff, HashMap.get?_eq_some_iff, h.mem_iff]

theorem HashMap.mem_keys_of_perm (h : m'.entries.Perm m.entries) (k : κ) :
    k ∈ m'.keys ↔ k ∈ m.keys := (h.map Prod.fst).mem_iff

/-- Some iteration order starts with a given key. -/
theorem HashMap.exists_reordered {k : κ} (h : k ∈ m.keys) :
    ∃ (m' : HashMap κ ν) (rest : List κ), m'.entries.Perm m.entries ∧ m'.keys = k :: rest := by
  obtain ⟨e, he, rfl⟩ := List.mem_map.mp h
  obtain ⟨before, after, hsplit⟩ := List.append_of_mem he
  have hperm : (e :: (before ++ after)).Perm m.entries := by
    rw [hsplit]
    exact List.perm_middle.symm
  exact ⟨⟨e :: (before ++ after), (hperm.map Prod.fst).nodup_iff.mpr m.nodup⟩, _, hperm, rfl⟩

end HashMap

/-- `UtxoRef` (`payload.rs`, line 6): transaction id and output index, ordered
    as the tuple it is. -/
abbrev UtxoRef := ByteBuf × UInt32

instance : Ord UtxoRef := lexOrd

instance : Std.TransOrd UtxoRef := inferInstance

instance : Std.LawfulEqOrd UtxoRef := inferInstance

/-! ## Integer conversions -/

/-- `u16::MAX`. -/
def u16Max : ℕ := 65535

/-- `u32::MAX`. -/
def u32Max : ℕ := 4294967295

/-- `u16::try_from(n).unwrap_or(u16::MAX)`. -/
def u16TryFrom (n : ℕ) : ℕ := min n u16Max

/-- `u32::try_from(n).unwrap_or(u32::MAX)`. -/
def u32TryFrom (n : ℕ) : ℕ := min n u32Max

/-- `a.saturating_add(b)` on `u16`. -/
def u16SaturatingAdd (a b : ℕ) : ℕ := min (a + b) u16Max

@[simp] theorem u16SaturatingAdd_zero {a : ℕ} (h : a ≤ u16Max) : u16SaturatingAdd a 0 = a := by
  simpa [u16SaturatingAdd] using h

theorem u16SaturatingAdd_le (a b : ℕ) : u16SaturatingAdd a b ≤ u16Max := Nat.min_le_right _ _

theorem u16SaturatingAdd_assoc (a b c : ℕ) :
    u16SaturatingAdd (u16SaturatingAdd a b) c = u16SaturatingAdd a (b + c) := by
  unfold u16SaturatingAdd
  omega

theorem zero_u16SaturatingAdd (n : ℕ) : u16SaturatingAdd 0 n = u16TryFrom n := by
  rw [u16SaturatingAdd, Nat.zero_add, u16TryFrom]

theorem u16TryFrom_mono {m n : ℕ} (h : m ≤ n) : u16TryFrom m ≤ u16TryFrom n :=
  min_le_min_right _ h

/-- `slot.saturating_sub(1)` on `u64`. -/
def satPred (slot : UInt64) : UInt64 := if slot = 0 then 0 else slot - 1

/-- A `u64` output index below `2^32` keeps its value under `as u32`. -/
theorem toUInt32_eq_iff {i : UInt64} (h : i.toNat < 2 ^ 32) (j : UInt32) :
    i.toUInt32 = j ↔ i.toNat = j.toNat := by
  rw [← UInt32.toNat_inj, UInt64.toNat_toUInt32, Nat.mod_eq_of_lt h]

/-! ## Hexadecimal -/

/-- The value of one hexadecimal digit of either case. -/
def hexDigit? (c : Char) : Option ℕ :=
  if '0' ≤ c ∧ c ≤ '9' then some (c.toNat - '0'.toNat)
  else if 'a' ≤ c ∧ c ≤ 'f' then some (c.toNat - 'a'.toNat + 10)
  else if 'A' ≤ c ∧ c ≤ 'F' then some (c.toNat - 'A'.toNat + 10)
  else none

/-- `hex::decode`: pairs of digits of either case; an odd length or any other
    character is an error. -/
def hexDecode : List Char → Option ByteBuf
  | [] => some []
  | [_] => none
  | a :: b :: rest => do
    let hi ← hexDigit? a
    let lo ← hexDigit? b
    let tail ← hexDecode rest
    return UInt8.ofNat (16 * hi + lo) :: tail

/-- One lower-case hexadecimal digit. -/
def hexDigitChar (n : ℕ) : Char :=
  if n < 10 then Char.ofNat ('0'.toNat + n) else Char.ofNat ('a'.toNat + (n - 10))

/-- `hex::encode`. -/
def hexEncode (bytes : ByteBuf) : String :=
  String.ofList (bytes.flatMap fun b => [hexDigitChar (b.toNat / 16), hexDigitChar (b.toNat % 16)])

theorem hexDigit?_hexDigitChar : ∀ n < 16, hexDigit? (hexDigitChar n) = some n := by decide

/-- Decoding undoes encoding. -/
theorem hexDecode_hexEncode (bytes : ByteBuf) :
    hexDecode (hexEncode bytes).toList = some bytes := by
  rw [hexEncode, String.toList_ofList]
  induction bytes with
  | nil => rfl
  | cons b bytes ih =>
    have hb : b.toNat < 256 := UInt8.toNat_lt b
    have hdigits : 16 * (b.toNat / 16) + b.toNat % 16 = b.toNat := by omega
    rw [List.flatMap_cons, List.cons_append, List.cons_append, List.nil_append, hexDecode,
      hexDigit?_hexDigitChar _ (by omega), hexDigit?_hexDigitChar _ (by omega), ih]
    change some (UInt8.ofNat (16 * (b.toNat / 16) + b.toNat % 16) :: bytes) = some (b :: bytes)
    rw [hdigits, UInt8.ofNat_toNat]

/-- `str::len`: the length in UTF-8 bytes. -/
def utf8Len (s : List Char) : ℕ := (s.map Char.utf8Size).sum

end Tx3Lift
