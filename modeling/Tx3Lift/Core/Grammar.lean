import Tx3Lift.Core.Anchors

/-!
# The grammar of environment anchors

What the two parsers of `crates/tx3-lift/src/anchors.rs` accept, over arbitrary strings.
`HexForm` and `DecimalForm` say what a text denotes without saying how it is read: a hex
form is the printed form up to letter case, a decimal form a nonempty string of digits
with its value.

* `hexDecode_eq_some_iff`, `parseU32_eq_some_iff`: the decoders read exactly these forms.
* `parseUtxoRef_eq_some_iff`, `parsePolicy_eq_some_iff`: the parsers' languages.
* `mem_utxoRefs_foldl`, `mem_policies_foldl`: the environment loop collects what they read.
* `fromProfile_grammar`: the anchors of a profile.
-/

namespace Tx3Lift

open Lib

/-! ## Hexadecimal texts -/

/-- `text` is the hexadecimal form of `bytes`, in letters of either case. -/
def HexForm (bytes : ByteBuf) (text : List Char) : Prop :=
  text.map Char.toLower = (hexEncode bytes).toList

theorem hexEncode_cons_toList (b : UInt8) (bytes : ByteBuf) :
    (hexEncode (b :: bytes)).toList =
      hexDigitChar (b.toNat / 16) :: hexDigitChar (b.toNat % 16) :: (hexEncode bytes).toList := by
  simp [hexEncode]

theorem hexDigit?_ascii : ∀ n < 128, ∀ d < 16,
    (hexDigit? (Char.ofNat n) = some d ↔ (Char.ofNat n).toLower = hexDigitChar d) := by
  decide +kernel

theorem hexDigitChar_lt : ∀ d < 16, (hexDigitChar d).toNat < 128 := by decide

theorem hexDigit?_lt : ∀ n < 128, ∀ d ∈ hexDigit? (Char.ofNat n), d < 16 := by decide +kernel

/-- Characters outside ASCII are no digits. -/
theorem hexDigit?_eq_none {c : Char} (h : 128 ≤ c.toNat) : hexDigit? c = none := by
  have h9 : ¬ c ≤ '9' := by
    intro hc
    have hle : c.toNat ≤ 57 := hc
    omega
  have hf : ¬ c ≤ 'f' := by
    intro hc
    have hle : c.toNat ≤ 102 := hc
    omega
  have hF : ¬ c ≤ 'F' := by
    intro hc
    have hle : c.toNat ≤ 70 := hc
    omega
  simp [hexDigit?, h9, hf, hF]

theorem toLower_eq_self {c : Char} (h : 128 ≤ c.toNat) : c.toLower = c := by
  have hZ : ¬ ('A'.val ≤ c.val ∧ c.val ≤ 'Z'.val) := by
    rintro ⟨-, hc⟩
    have hle : c.toNat ≤ 90 := hc
    omega
  unfold Char.toLower
  exact dif_neg hZ

/-- A digit's value is that of the lower-case digit it stands for. -/
theorem hexDigit?_eq_some_iff {c : Char} {d : ℕ} :
    hexDigit? c = some d ↔ d < 16 ∧ c.toLower = hexDigitChar d := by
  by_cases hc : c.toNat < 128
  · have hascii := hexDigit?_ascii c.toNat hc
    have hlt := hexDigit?_lt c.toNat hc
    rw [Char.ofNat_toNat] at hascii hlt
    constructor
    · intro h
      have hd : d < 16 := hlt d h
      exact ⟨hd, (hascii d hd).mp h⟩
    · rintro ⟨hd, h⟩
      exact (hascii d hd).mpr h
  · have hc : 128 ≤ c.toNat := by omega
    rw [hexDigit?_eq_none hc, toLower_eq_self hc]
    constructor
    · intro h
      cases h
    · rintro ⟨hd, rfl⟩
      have := hexDigitChar_lt d hd
      omega

/-- What `hex::decode` reads. -/
theorem hexDecode_eq_some_iff {text : List Char} {bytes : ByteBuf} :
    hexDecode text = some bytes ↔ HexForm bytes text := by
  unfold HexForm
  induction text using hexDecode.induct generalizing bytes with
  | case1 => cases bytes <;> simp [hexDecode, hexEncode]
  | case2 c => cases bytes <;> simp [hexDecode, hexEncode]
  | case3 a b rest ih =>
    constructor
    · intro h
      obtain ⟨hi, hhi, h⟩ := Option.bind_eq_some_iff.mp h
      obtain ⟨lo, hlo, h⟩ := Option.bind_eq_some_iff.mp h
      obtain ⟨tail, htail, h⟩ := Option.bind_eq_some_iff.mp h
      cases h
      obtain ⟨hhi, ha⟩ := hexDigit?_eq_some_iff.mp hhi
      obtain ⟨hlo, hb⟩ := hexDigit?_eq_some_iff.mp hlo
      have hbyte : (UInt8.ofNat (16 * hi + lo)).toNat = 16 * hi + lo := by
        rw [UInt8.toNat_ofNat']
        omega
      have hdiv : (16 * hi + lo) / 16 = hi := by omega
      have hmod : (16 * hi + lo) % 16 = lo := by omega
      rw [hexEncode_cons_toList, hbyte, hdiv, hmod, List.map_cons, List.map_cons, ha, hb,
        ih.mp htail]
    · intro h
      cases bytes with
      | nil => simp [hexEncode] at h
      | cons byte bytes =>
        have hbyte : byte.toNat < 256 := byte.toNat_lt
        rw [hexEncode_cons_toList, List.map_cons, List.map_cons] at h
        injection h with ha h
        injection h with hb h
        have hhi : hexDigit? a = some (byte.toNat / 16) :=
          hexDigit?_eq_some_iff.mpr ⟨by omega, ha⟩
        have hlo : hexDigit? b = some (byte.toNat % 16) :=
          hexDigit?_eq_some_iff.mpr ⟨by omega, hb⟩
        have hsum : 16 * (byte.toNat / 16) + byte.toNat % 16 = byte.toNat := by omega
        rw [hexDecode, hhi, hlo, ih.mpr h]
        show some (UInt8.ofNat (16 * (byte.toNat / 16) + byte.toNat % 16) :: bytes) = _
        rw [hsum, UInt8.ofNat_toNat]

theorem HexForm.length_eq {bytes : ByteBuf} {text : List Char} (h : HexForm bytes text) :
    text.length = 2 * bytes.length := by
  have hlen := congrArg List.length h
  rw [List.length_map] at hlen
  rw [hlen]
  clear h hlen
  induction bytes with
  | nil => rfl
  | cons b bytes ih =>
    rw [hexEncode_cons_toList, List.length_cons, List.length_cons, ih, List.length_cons]
    omega

/-- A hex form is an ASCII text of hex digits. -/
theorem HexForm.digit {bytes : ByteBuf} {text : List Char} (h : HexForm bytes text) {c : Char}
    (hc : c ∈ text) : ∃ d, hexDigit? c = some d := by
  have hlower : c.toLower ∈ (hexEncode bytes).toList := by
    rw [← h]
    exact List.mem_map_of_mem hc
  rw [hexEncode, String.toList_ofList, List.mem_flatMap] at hlower
  obtain ⟨b, -, hlower⟩ := hlower
  have hb : b.toNat < 256 := b.toNat_lt
  simp only [List.mem_cons, List.not_mem_nil, or_false] at hlower
  rcases hlower with hlower | hlower
  · exact ⟨b.toNat / 16, hexDigit?_eq_some_iff.mpr ⟨by omega, hlower⟩⟩
  · exact ⟨b.toNat % 16, hexDigit?_eq_some_iff.mpr ⟨by omega, hlower⟩⟩

/-- So its length in bytes is its length in characters. -/
theorem HexForm.utf8Len_eq {bytes : ByteBuf} {text : List Char} (h : HexForm bytes text) :
    utf8Len text = text.length := by
  have hsize : ∀ c ∈ text, c.utf8Size = 1 := by
    intro c hc
    obtain ⟨d, hd⟩ := h.digit hc
    have hascii : c.toNat < 128 := by
      by_contra hge
      rw [hexDigit?_eq_none (by omega)] at hd
      cases hd
    rw [Char.utf8Size_eq_one_iff, UInt32.le_iff_toNat_le]
    exact Nat.le_of_lt_succ hascii
  rw [utf8Len, List.map_congr_left hsize, List.map_const', List.sum_replicate]
  simp

/-- No hex form contains a `#`. -/
theorem HexForm.hash_notMem {bytes : ByteBuf} {text : List Char} (h : HexForm bytes text) :
    '#' ∉ text := by
  intro hc
  obtain ⟨d, hd⟩ := h.digit hc
  cases hd

/-- The printed form is a hex form. -/
theorem hexForm_hexEncode (bytes : ByteBuf) : HexForm bytes (hexEncode bytes).toList :=
  hexDecode_eq_some_iff.mp (hexDecode_hexEncode bytes)

/-! ## Decimal texts -/

/-- `text` is a decimal form of `n`: one digit or more, leading zeros allowed. -/
def DecimalForm (n : ℕ) (text : List Char) : Prop :=
  text ≠ [] ∧ (∀ c ∈ text, c.isDigit) ∧ Nat.ofDigitChars 10 text 0 = n

/-- What `str::parse::<u32>` reads of a string of digits. -/
theorem parseU32_eq_some_iff {text : List Char} {n : UInt32} :
    parseU32 text = some n ↔ Nat.ofDigitChars 10 text 0 = n.toNat := by
  have hfold : text.foldl (fun n c => 10 * n + (c.toNat - '0'.toNat)) 0 =
      Nat.ofDigitChars 10 text 0 := Nat.ofDigitChars_eq_foldl.symm
  have hn : n.toNat ≤ u32Max := by
    have := n.toNat_lt
    unfold u32Max
    omega
  unfold parseU32
  rw [hfold]
  by_cases hle : Nat.ofDigitChars 10 text 0 ≤ u32Max
  · have hround : (UInt32.ofNat (Nat.ofDigitChars 10 text 0)).toNat =
        Nat.ofDigitChars 10 text 0 := by
      rw [UInt32.toNat_ofNat']
      unfold u32Max at hle
      omega
    rw [if_pos hle, Option.some.injEq, ← UInt32.toNat_inj, hround]
  · rw [if_neg hle]
    constructor
    · intro h
      cases h
    · intro h
      omega

/-- The printed form is a decimal form. -/
theorem decimalForm_repr (n : ℕ) : DecimalForm n n.repr.toList := by
  rw [Nat.toList_repr]
  exact ⟨Nat.toDigits_ne_nil, fun c hc => Nat.isDigit_of_mem_toDigits (by omega) (by omega) hc,
    Nat.ofDigitChars_ten_toDigits⟩

/-! ## The two parsers -/

theorem splitOnce_cons_self (c : Char) (s : List Char) : splitOnce c (c :: s) = some ([], s) := by
  simp [splitOnce, List.span_eq_takeWhile_dropWhile]

theorem splitOnce_cons_of_ne {c x : Char} (hx : x ≠ c) (s : List Char) :
    splitOnce c (x :: s) = (splitOnce c s).map fun parts => (x :: parts.1, parts.2) := by
  unfold splitOnce
  rw [List.span_eq_takeWhile_dropWhile, List.span_eq_takeWhile_dropWhile,
    List.takeWhile_cons_of_pos (by simpa using hx), List.dropWhile_cons_of_pos (by simpa using hx)]
  cases s.dropWhile (· != c) <;> rfl

/-- `split_once` splits at the first occurrence. -/
theorem splitOnce_eq_some_iff {c : Char} {s before after : List Char} :
    splitOnce c s = some (before, after) ↔ s = before ++ c :: after ∧ c ∉ before := by
  induction s generalizing before with
  | nil => simp [splitOnce, List.span_eq_takeWhile_dropWhile]
  | cons x s ih =>
    by_cases hx : x = c
    · subst hx
      rw [splitOnce_cons_self]
      cases before with
      | nil => simp
      | cons y before =>
        simp only [Option.some.injEq, Prod.mk.injEq, List.nil_eq, reduceCtorEq, false_and,
          List.cons_append, List.cons.injEq, List.mem_cons, not_or, false_iff, not_and]
        rintro ⟨rfl, -⟩ hne
        exact absurd rfl hne
    · rw [splitOnce_cons_of_ne hx, Option.map_eq_some_iff]
      cases before with
      | nil => simp [hx]
      | cons y before =>
        constructor
        · rintro ⟨⟨before', after'⟩, hsplit, h⟩
          cases h
          obtain ⟨rfl, hnotin⟩ := ih.mp hsplit
          exact ⟨rfl, List.not_mem_cons_of_ne_of_not_mem (Ne.symm hx) hnotin⟩
        · rintro ⟨h, hnotin⟩
          injection h with hxy hs
          have hrest : c ∉ before := fun hc => hnotin (List.mem_cons_of_mem _ hc)
          exact ⟨(before, after), ih.mpr ⟨hs, hrest⟩, by rw [hxy]⟩

/-- The language of `parse_utxo_ref`: 64 hex digits, a `#`, and a decimal `u32`. -/
def UtxoRefForm (utxoRef : UtxoRef) (s : String) : Prop :=
  ∃ txidHex indexStr, s.toList = txidHex ++ '#' :: indexStr ∧ txidHex.length = 64 ∧
    HexForm utxoRef.1 txidHex ∧ DecimalForm utxoRef.2.toNat indexStr

/-- The language of `parse_policy`: 56 hex digits. -/
def PolicyForm (policy : ByteBuf) (s : String) : Prop :=
  s.toList.length = 56 ∧ HexForm policy s.toList

theorem parseUtxoRef_eq_some_iff {s : String} {utxoRef : UtxoRef} :
    parseUtxoRef s = some utxoRef ↔ UtxoRefForm utxoRef s := by
  obtain ⟨txid, index⟩ := utxoRef
  unfold parseUtxoRef UtxoRefForm DecimalForm
  constructor
  · intro h
    obtain ⟨⟨txidHex, indexStr⟩, hsplit, h⟩ := Option.bind_eq_some_iff.mp h
    obtain ⟨hs, -⟩ := splitOnce_eq_some_iff.mp hsplit
    simp only at h
    split at h
    · cases h
    · rename_i hlen
      split at h
      · cases h
      · rename_i hdigits
        obtain ⟨txidBytes, htxid, h⟩ := Option.bind_eq_some_iff.mp h
        obtain ⟨n, hn, h⟩ := Option.bind_eq_some_iff.mp h
        cases h
        have hform := hexDecode_eq_some_iff.mp htxid
        rw [hform.utf8Len_eq] at hlen
        simp only [Bool.or_eq_true, List.isEmpty_iff, Bool.not_eq_true', not_or,
          Bool.not_eq_false, List.all_eq_true] at hdigits
        exact ⟨txidHex, indexStr, hs, by omega, hform, hdigits.1, hdigits.2,
          parseU32_eq_some_iff.mp hn⟩
  · rintro ⟨txidHex, indexStr, hs, hlen, hform, hne, hdigits, hvalue⟩
    have hsplit : splitOnce '#' s.toList = some (txidHex, indexStr) :=
      splitOnce_eq_some_iff.mpr ⟨hs, hform.hash_notMem⟩
    have hguard : ¬ (indexStr.isEmpty || !indexStr.all Char.isDigit) = true := by
      simp only [Bool.or_eq_true, List.isEmpty_iff, Bool.not_eq_true', not_or,
        Bool.not_eq_false, List.all_eq_true]
      exact ⟨hne, hdigits⟩
    have hlen8 : ¬ utf8Len txidHex ≠ 64 := by
      rw [hform.utf8Len_eq, hlen]
      simp
    rw [hsplit, Option.bind_eq_bind, Option.bind_some]
    simp only
    rw [if_neg hlen8, if_neg hguard, hexDecode_eq_some_iff.mpr hform,
      parseU32_eq_some_iff.mpr hvalue]
    rfl

theorem parsePolicy_eq_some_iff {s : String} {policy : ByteBuf} :
    parsePolicy s = some policy ↔ PolicyForm policy s := by
  unfold parsePolicy PolicyForm
  rw [← hexDecode_eq_some_iff]
  constructor
  · intro h
    split at h
    · cases h
    · rename_i hlen
      have hform := hexDecode_eq_some_iff.mp h
      rw [hform.utf8Len_eq] at hlen
      exact ⟨by omega, h⟩
  · rintro ⟨hlen, h⟩
    have hform := hexDecode_eq_some_iff.mp h
    rw [hform.utf8Len_eq, hlen, if_neg (by simp), h]

/-- No string is in both languages: only one of them has a `#`. -/
theorem not_both_forms {s : String} {utxoRef : UtxoRef} {policy : ByteBuf}
    (href : UtxoRefForm utxoRef s) : ¬ PolicyForm policy s := by
  rintro ⟨-, hpolicy⟩
  obtain ⟨txidHex, indexStr, hs, -, -, -⟩ := href
  apply hpolicy.hash_notMem
  rw [hs]
  exact List.mem_append_right _ List.mem_cons_self

/-- The printed form `hex(txid)#index`. -/
def printUtxoRef (txid : Hash 32) (index : UInt32) : String :=
  hexEncode txid.bytes ++ "#" ++ index.toNat.repr

theorem utxoRefForm_printUtxoRef (txid : Hash 32) (index : UInt32) :
    UtxoRefForm (txid.bytes, index) (printUtxoRef txid index) := by
  have hform := hexForm_hexEncode txid.bytes
  refine ⟨(hexEncode txid.bytes).toList, index.toNat.repr.toList, ?_, ?_, hform,
    decimalForm_repr _⟩
  · simp [printUtxoRef]
  · rw [hform.length_eq, txid.length_eq]

/-! ## The environment loop -/

theorem addEnvironmentValue_utxoRefs (anchors : ProtocolAnchors) (value : Json) (r : UtxoRef) :
    r ∈ (anchors.addEnvironmentValue value).utxoRefs ↔
      r ∈ anchors.utxoRefs ∨ ∃ s, value = .string s ∧ UtxoRefForm r s := by
  cases value with
  | string s =>
    simp only [ProtocolAnchors.addEnvironmentValue, Json.string.injEq, exists_eq_left',
      ← parseUtxoRef_eq_some_iff]
    cases hparse : parseUtxoRef s with
    | some r' =>
      show r ∈ anchors.utxoRefs.insert r' ↔ _
      rw [mem_insert_iff, Option.some.injEq, eq_comm (a := r)]
      exact or_comm
    | none =>
      cases hpolicy : parsePolicy s <;> simp
  | _ => simp [ProtocolAnchors.addEnvironmentValue]

/-- A value is read as a policy only where it is no UTxO reference, which excludes
    nothing. -/
theorem addEnvironmentValue_policies (anchors : ProtocolAnchors) (value : Json) (p : ByteBuf) :
    p ∈ (anchors.addEnvironmentValue value).policies ↔
      p ∈ anchors.policies ∨ ∃ s, value = .string s ∧ PolicyForm p s := by
  cases value with
  | string s =>
    simp only [ProtocolAnchors.addEnvironmentValue, Json.string.injEq, exists_eq_left']
    cases hparse : parseUtxoRef s with
    | some r =>
      have hnot : ¬ PolicyForm p s := not_both_forms (parseUtxoRef_eq_some_iff.mp hparse)
      simp [hnot]
    | none =>
      rw [← parsePolicy_eq_some_iff]
      cases hpolicy : parsePolicy s with
      | some p' =>
        show p ∈ anchors.policies.insert p' ↔ _
        rw [mem_insert_iff, Option.some.injEq, eq_comm (a := p)]
        exact or_comm
      | none => simp
  | _ => simp [ProtocolAnchors.addEnvironmentValue]

theorem mem_utxoRefs_foldl (env : List Json) (anchors : ProtocolAnchors) (r : UtxoRef) :
    r ∈ (env.foldl ProtocolAnchors.addEnvironmentValue anchors).utxoRefs ↔
      r ∈ anchors.utxoRefs ∨ ∃ s, .string s ∈ env ∧ UtxoRefForm r s := by
  induction env generalizing anchors with
  | nil => simp
  | cons value env ih =>
    rw [List.foldl_cons, ih, addEnvironmentValue_utxoRefs]
    simp only [List.mem_cons, eq_comm (a := value), or_and_right, exists_or, or_assoc]

theorem mem_policies_foldl (env : List Json) (anchors : ProtocolAnchors) (p : ByteBuf) :
    p ∈ (env.foldl ProtocolAnchors.addEnvironmentValue anchors).policies ↔
      p ∈ anchors.policies ∨ ∃ s, .string s ∈ env ∧ PolicyForm p s := by
  induction env generalizing anchors with
  | nil => simp
  | cons value env ih =>
    rw [List.foldl_cons, ih, addEnvironmentValue_policies]
    simp only [List.mem_cons, eq_comm (a := value), or_and_right, exists_or, or_assoc]

/-! ## The anchors of a profile -/

/-- `s` is a string value of the profile's environment object. -/
def Profile.HasValue (profile : Profile) (s : String) : Prop :=
  ∃ env key, profile.environment = .object env ∧ (key, Json.string s) ∈ env

section FromProfile

variable {bech32 : String → Except String ByteBuf} {profile : Profile}

/-- The party loop succeeds on addresses that decode, and collects addresses only. -/
theorem foldlM_parties {parties : List String} (anchors : ProtocolAnchors)
    (h : ∀ address ∈ parties, ∃ bytes, bech32 address = .ok bytes) :
    ∃ result : ProtocolAnchors,
      parties.foldlM (fun (anchors : ProtocolAnchors) address => do
        let bytes ← decodeBech32Address bech32 address
        return { anchors with addresses := anchors.addresses.insert bytes }) anchors =
          .ok result ∧
      result.utxoRefs = anchors.utxoRefs ∧ result.policies = anchors.policies := by
  induction parties generalizing anchors with
  | nil => exact ⟨anchors, rfl, rfl, rfl⟩
  | cons address parties ih =>
    obtain ⟨bytes, hbytes⟩ := h address List.mem_cons_self
    obtain ⟨result, hresult, hrefs, hpolicies⟩ :=
      ih { anchors with addresses := anchors.addresses.insert bytes }
        fun a ha => h a (List.mem_cons_of_mem _ ha)
    refine ⟨result, ?_, hrefs, hpolicies⟩
    rw [List.foldlM_cons, decodeBech32Address, hbytes]
    exact hresult

/-- What `from_profile` returns. -/
theorem fromProfile_spec
    (h : ∀ address ∈ profile.parties.values, ∃ bytes, bech32 address = .ok bytes) :
    ∃ anchors, ProtocolAnchors.fromProfile bech32 profile = .ok anchors ∧
      (∀ r, r ∈ anchors.utxoRefs ↔ ∃ s, profile.HasValue s ∧ UtxoRefForm r s) ∧
      (∀ p, p ∈ anchors.policies ↔ ∃ s, profile.HasValue s ∧ PolicyForm p s) := by
  obtain ⟨parties, hparties, hrefs, hpolicies⟩ := foldlM_parties {} h
  unfold ProtocolAnchors.fromProfile Profile.HasValue
  rw [hparties, Except.ok_bind]
  cases profile.environment with
  | object env =>
    refine ⟨_, rfl, fun r => ?_, fun p => ?_⟩
    · rw [mem_utxoRefs_foldl, hrefs]
      simp
    · rw [mem_policies_foldl, hpolicies]
      simp
  | _ =>
    refine ⟨_, rfl, fun r => ?_, fun p => ?_⟩
    · rw [hrefs]
      simp
    · rw [hpolicies]
      simp

/-- The anchors are those of the addresses and of the environment's string values, under
    whatever keys and in whatever order. -/
theorem fromProfile_congr {profile' : Profile}
    (h : ∀ address ∈ profile.parties.values, ∃ bytes, bech32 address = .ok bytes)
    (hparties : ∀ address, address ∈ profile'.parties.values ↔ address ∈ profile.parties.values)
    (henv : ∀ s, profile'.HasValue s ↔ profile.HasValue s) :
    ProtocolAnchors.fromProfile bech32 profile' = ProtocolAnchors.fromProfile bech32 profile := by
  have h' : ∀ address ∈ profile'.parties.values, ∃ bytes, bech32 address = .ok bytes :=
    fun address ha => h address ((hparties address).mp ha)
  obtain ⟨anchors, hok, hrefs, hpolicies⟩ := fromProfile_spec h
  obtain ⟨anchors', hok', hrefs', hpolicies'⟩ := fromProfile_spec h'
  have haddresses : anchors'.addresses = anchors.addresses := by
    apply Std.ExtTreeSet.ext_mem
    intro a
    rw [mem_addresses_fromProfile hok', mem_addresses_fromProfile hok]
    simp only [hparties]
  have hutxoRefs : anchors'.utxoRefs = anchors.utxoRefs := by
    apply Std.ExtTreeSet.ext_mem
    intro r
    rw [hrefs', hrefs]
    simp only [henv]
  have hpolicySet : anchors'.policies = anchors.policies := by
    apply Std.ExtTreeSet.ext_mem
    intro p
    rw [hpolicies', hpolicies]
    simp only [henv]
  rw [hok, hok']
  cases anchors
  cases anchors'
  simp only at haddresses hutxoRefs hpolicySet
  rw [haddresses, hutxoRefs, hpolicySet]

/-- **The grammar of anchors.** -/
theorem fromProfile_grammar
    (h : ∀ address ∈ profile.parties.values, ∃ bytes, bech32 address = .ok bytes) :
    ∃ anchors, ProtocolAnchors.fromProfile bech32 profile = .ok anchors ∧
      (∀ r, r ∈ anchors.utxoRefs ↔ ∃ s, profile.HasValue s ∧ UtxoRefForm r s) ∧
      (∀ p, p ∈ anchors.policies ↔ ∃ s, profile.HasValue s ∧ PolicyForm p s) ∧
      (∀ s, parseUtxoRef s = none ∨ parsePolicy s = none) ∧
      (∀ profile' : Profile,
        (∀ address, address ∈ profile'.parties.values ↔ address ∈ profile.parties.values) →
        (∀ s, profile'.HasValue s ↔ profile.HasValue s) →
        ProtocolAnchors.fromProfile bech32 profile' = .ok anchors) ∧
      (∀ (txid : Hash 32) (n : UInt32),
        parseUtxoRef (printUtxoRef txid n) = some (txid.bytes, n)) := by
  obtain ⟨anchors, hok, hrefs, hpolicies⟩ := fromProfile_spec h
  refine ⟨anchors, hok, hrefs, hpolicies, ?_, ?_, ?_⟩
  · intro s
    by_contra hboth
    rw [not_or, ← ne_eq, ← ne_eq, Option.ne_none_iff_exists', Option.ne_none_iff_exists'] at hboth
    obtain ⟨⟨r, hr⟩, p, hp⟩ := hboth
    exact not_both_forms (parseUtxoRef_eq_some_iff.mp hr) (parsePolicy_eq_some_iff.mp hp)
  · intro profile' hparties henv
    rw [fromProfile_congr h hparties henv, hok]
  · intro txid n
    exact parseUtxoRef_eq_some_iff.mpr (utxoRefForm_printUtxoRef txid n)

end FromProfile

/-- A profile with one party, at a key address, and a deployed script in its environment. -/
def Sample.deployedProfile : Profile :=
  { parties := HashMap.singleton "owner"
      "addr1v9zyg3zyg3zyg3zyg3zyg3zyg3zyg3zyg3zyg3zyg3zyg3q09h6pt"
    environment := .object [("fee", .number (some 170000)),
      ("script", .string (printUtxoRef ⟨List.replicate 32 0x99, rfl⟩ 7))] }

/-- The deployed script is an anchor of the profile. -/
theorem fromProfile_grammar_deployed :
    ∃ anchors, ProtocolAnchors.fromProfile (fun _ => .ok (0x61 :: List.replicate 28 0x44))
        Sample.deployedProfile = .ok anchors ∧
      (List.replicate 32 0x99, 7) ∈ anchors.utxoRefs := by
  obtain ⟨anchors, hok, hrefs, -⟩ :=
    @fromProfile_grammar (fun _ => .ok (0x61 :: List.replicate 28 0x44))
      Sample.deployedProfile fun _ _ => ⟨_, rfl⟩
  exact ⟨anchors, hok, (hrefs _).mpr ⟨_, ⟨_, "script", rfl, by simp⟩,
    utxoRefForm_printUtxoRef ⟨List.replicate 32 0x99, rfl⟩ 7⟩⟩

end Tx3Lift
