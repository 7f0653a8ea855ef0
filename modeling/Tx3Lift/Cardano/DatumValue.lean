import Tx3Lift.Cardano.Datum

/-!
# What a datum means, and what its expression keeps

A constructor of a Plutus data value has an index, which is carried either by a compact tag or
next to tag 102; an integer is small or big. `plutus_data_to_expression`
(`crates/tx3-lift-cardano/src/datum.rs`) keeps the number that carries the index, and of a big
integer the bytes.

* `plutusDataToExpression_eq`: the expression is an injective image of the value read that way.
* `rename_eq_or_meet`: where two namings of the constructors can part.
* `plutusDataToExpression_ne`: data that differ as values have different expressions, unless
  they differ only where a compact tag stands against an explicit index of the same number.
-/

namespace Tx3Lift

open Tir

/-! ## Values -/

/-- A Plutus data value, with constructors named in `κ`. -/
inductive PlutusValue (κ : Type) where
  | constr (c : κ) (fields : List (PlutusValue κ))
  | int (n : ℤ)
  | bytes (b : ByteBuf)
  | list (items : List (PlutusValue κ))
  | map (pairs : List (PlutusValue κ × PlutusValue κ))

section Values

variable {κ μ ν : Type}

mutual

/-- The value with its constructors renamed. -/
def PlutusValue.rename (f : κ → μ) : PlutusValue κ → PlutusValue μ
  | .constr c fields => .constr (f c) (renameList f fields)
  | .int n => .int n
  | .bytes b => .bytes b
  | .list items => .list (renameList f items)
  | .map pairs => .map (renamePairs f pairs)

def renameList (f : κ → μ) : List (PlutusValue κ) → List (PlutusValue μ)
  | [] => []
  | v :: rest => v.rename f :: renameList f rest

def renamePairs (f : κ → μ) :
    List (PlutusValue κ × PlutusValue κ) → List (PlutusValue μ × PlutusValue μ)
  | [] => []
  | (k, v) :: rest => (k.rename f, v.rename f) :: renamePairs f rest

end

mutual

/-- At some position of both values stand constructors that are related. -/
def PlutusValue.Meet (R : κ → κ → Prop) : PlutusValue κ → PlutusValue κ → Prop
  | .constr c fields, .constr c' fields' => R c c' ∨ MeetList R fields fields'
  | .list items, .list items' => MeetList R items items'
  | .map pairs, .map pairs' => MeetPairs R pairs pairs'
  | _, _ => False

def MeetList (R : κ → κ → Prop) : List (PlutusValue κ) → List (PlutusValue κ) → Prop
  | v :: rest, v' :: rest' => v.Meet R v' ∨ MeetList R rest rest'
  | _, _ => False

def MeetPairs (R : κ → κ → Prop) :
    List (PlutusValue κ × PlutusValue κ) → List (PlutusValue κ × PlutusValue κ) → Prop
  | (k, v) :: rest, (k', v') :: rest' => k.Meet R k' ∨ v.Meet R v' ∨ MeetPairs R rest rest'
  | _, _ => False

end

variable {f : κ → μ} {g : κ → ν} {R : κ → κ → Prop}

mutual

/-- Values that agree under one naming agree under another, unless they meet where the second
    tells constructors apart that the first does not. -/
theorem rename_eq_or_meet (hR : ∀ c c', f c = f c' → g c = g c' ∨ R c c')
    (v v' : PlutusValue κ) (h : v.rename f = v'.rename f) :
    v.rename g = v'.rename g ∨ v.Meet R v' := by
  cases v with
  | constr c fields =>
    cases v' with
    | constr c' fields' =>
      simp only [PlutusValue.rename, PlutusValue.constr.injEq] at h ⊢
      rcases hR c c' h.1 with hc | hc
      · rcases renameList_eq_or_meet hR fields fields' h.2 with hfields | hfields
        · exact Or.inl ⟨hc, hfields⟩
        · exact Or.inr (Or.inr hfields)
      · exact Or.inr (Or.inl hc)
    | _ => simp [PlutusValue.rename] at h
  | int n =>
    cases v' with
    | int n' =>
      simp only [PlutusValue.rename, PlutusValue.int.injEq] at h
      rw [h]
      exact Or.inl rfl
    | _ => simp [PlutusValue.rename] at h
  | bytes b =>
    cases v' with
    | bytes b' =>
      simp only [PlutusValue.rename, PlutusValue.bytes.injEq] at h
      rw [h]
      exact Or.inl rfl
    | _ => simp [PlutusValue.rename] at h
  | list items =>
    cases v' with
    | list items' =>
      simp only [PlutusValue.rename, PlutusValue.list.injEq] at h ⊢
      exact renameList_eq_or_meet hR items items' h
    | _ => simp [PlutusValue.rename] at h
  | map pairs =>
    cases v' with
    | map pairs' =>
      simp only [PlutusValue.rename, PlutusValue.map.injEq] at h ⊢
      exact renamePairs_eq_or_meet hR pairs pairs' h
    | _ => simp [PlutusValue.rename] at h

theorem renameList_eq_or_meet (hR : ∀ c c', f c = f c' → g c = g c' ∨ R c c')
    (vs vs' : List (PlutusValue κ)) (h : renameList f vs = renameList f vs') :
    renameList g vs = renameList g vs' ∨ MeetList R vs vs' := by
  cases vs with
  | nil =>
    cases vs' with
    | nil => exact Or.inl rfl
    | cons v' rest' => simp [renameList] at h
  | cons v rest =>
    cases vs' with
    | nil => simp [renameList] at h
    | cons v' rest' =>
      simp only [renameList, List.cons.injEq] at h ⊢
      rcases rename_eq_or_meet hR v v' h.1 with hv | hv
      · rcases renameList_eq_or_meet hR rest rest' h.2 with hrest | hrest
        · exact Or.inl ⟨hv, hrest⟩
        · exact Or.inr (Or.inr hrest)
      · exact Or.inr (Or.inl hv)

theorem renamePairs_eq_or_meet (hR : ∀ c c', f c = f c' → g c = g c' ∨ R c c')
    (ps ps' : List (PlutusValue κ × PlutusValue κ)) (h : renamePairs f ps = renamePairs f ps') :
    renamePairs g ps = renamePairs g ps' ∨ MeetPairs R ps ps' := by
  cases ps with
  | nil =>
    cases ps' with
    | nil => exact Or.inl rfl
    | cons p' rest' => simp [renamePairs] at h
  | cons p rest =>
    obtain ⟨k, v⟩ := p
    cases ps' with
    | nil => simp [renamePairs] at h
    | cons p' rest' =>
      obtain ⟨k', v'⟩ := p'
      simp only [renamePairs, List.cons.injEq, Prod.mk.injEq] at h ⊢
      rcases rename_eq_or_meet hR k k' h.1.1 with hk | hk
      · rcases rename_eq_or_meet hR v v' h.1.2 with hv | hv
        · rcases renamePairs_eq_or_meet hR rest rest' h.2 with hrest | hrest
          · exact Or.inl ⟨⟨hk, hv⟩, hrest⟩
          · exact Or.inr (Or.inr (Or.inr hrest))
        · exact Or.inr (Or.inr (Or.inl hv))
      · exact Or.inr (Or.inl hk)

end

end Values

/-! ## The value of a datum -/

/-- What a constructor carries: its tag, and the explicit index next to tag 102. -/
abbrev ConstrHead := UInt64 × Option UInt64

/-- The index of a compact tag: 121 to 127 for 0 to 6, 1280 to 1400 for 7 to 127. No other tag
    comes without an explicit index. -/
def compactIndex (tag : ℕ) : ℕ :=
  if 121 ≤ tag ∧ tag ≤ 127 then tag - 121
  else if 1280 ≤ tag ∧ tag ≤ 1400 then tag - 1280 + 7
  else tag

/-- The index of the constructor. -/
def ConstrHead.index : ConstrHead → ℕ
  | (_, some index) => index.toNat
  | (tag, none) => compactIndex tag.toNat

/-- The number that carries it. -/
def ConstrHead.number : ConstrHead → ℕ
  | (_, some index) => index.toNat
  | (tag, none) => tag.toNat

/-- A compact tag against an explicit index of the same number. -/
def TagClash : ConstrHead → ConstrHead → Prop
  | (tag, none), (_, some index) => tag = index
  | (_, some index), (tag, none) => tag = index
  | _, _ => False

/-- The number of a constructor determines its index, up to such a clash. -/
theorem index_eq_or_tagClash (c c' : ConstrHead) (h : c.number = c'.number) :
    c.index = c'.index ∨ TagClash c c' := by
  rcases c with ⟨tag, _ | index⟩ <;> rcases c' with ⟨tag', _ | index'⟩
  · exact Or.inl (congrArg compactIndex h)
  · exact Or.inr (UInt64.toNat_inj.mp h)
  · exact Or.inr (UInt64.toNat_inj.mp h).symm
  · exact Or.inl h

/-- The natural number with these digits, most significant first. -/
def bigEndian (bytes : ByteBuf) : ℕ := Nat.ofDigits 256 (bytes.reverse.map UInt8.toNat)

/-- The integer, small or big. -/
def BigInt.value {κ : Type} : BigInt → PlutusValue κ
  | .int n => .int n
  | .bigUInt bytes => .int (bigEndian bytes)
  | .bigNInt bytes => .int (-1 - bigEndian bytes)

/-- The integer with big ones left as their bytes. -/
def BigInt.raw {κ : Type} : BigInt → PlutusValue κ
  | .int n => .int n
  | .bigUInt bytes => .bytes bytes
  | .bigNInt bytes => .bytes bytes

/-- The range of `minicbor::data::Int`. -/
def BigInt.Fits : BigInt → Prop
  | .int n => -2 ^ 64 ≤ n ∧ n < 2 ^ 64
  | .bigUInt _ => True
  | .bigNInt _ => True

mutual

/-- The value of a datum under a reading of its integers. -/
def PlutusData.read (big : BigInt → PlutusValue ConstrHead) : PlutusData → PlutusValue ConstrHead
  | .boundedBytes b => .bytes b
  | .bigInt n => big n
  | .constr tag anyConstructor _ fields => .constr (tag, anyConstructor) (readList big fields)
  | .array _ items => .list (readList big items)
  | .map pairs => .map (readPairs big pairs)

def readList (big : BigInt → PlutusValue ConstrHead) :
    List PlutusData → List (PlutusValue ConstrHead)
  | [] => []
  | d :: rest => d.read big :: readList big rest

def readPairs (big : BigInt → PlutusValue ConstrHead) :
    List (PlutusData × PlutusData) → List (PlutusValue ConstrHead × PlutusValue ConstrHead)
  | [] => []
  | (k, v) :: rest => (k.read big, v.read big) :: readPairs big rest

end

mutual

/-- The small integers of a datum are in the range of their type. -/
def PlutusData.IntsFit : PlutusData → Prop
  | .boundedBytes _ => True
  | .bigInt n => n.Fits
  | .constr _ _ _ fields => intsFitList fields
  | .array _ items => intsFitList items
  | .map pairs => intsFitPairs pairs

def intsFitList : List PlutusData → Prop
  | [] => True
  | d :: rest => d.IntsFit ∧ intsFitList rest

def intsFitPairs : List (PlutusData × PlutusData) → Prop
  | [] => True
  | (k, v) :: rest => (k.IntsFit ∧ v.IntsFit) ∧ intsFitPairs rest

end

/-- The value of a datum: constructors by index, integers of any size. -/
def PlutusData.value (d : PlutusData) : PlutusValue ℕ :=
  (d.read BigInt.value).rename ConstrHead.index

/-- Its value with big integers left as their bytes. -/
def PlutusData.rawValue (d : PlutusData) : PlutusValue ℕ :=
  (d.read BigInt.raw).rename ConstrHead.index

/-- The same with constructors by the number that carries their index. -/
def PlutusData.numberedValue (d : PlutusData) : PlutusValue ℕ :=
  (d.read BigInt.raw).rename ConstrHead.number

/-- At some position a compact tag of one datum stands against an explicit index of the same
    number in the other. -/
def PlutusData.TagsClash (d d' : PlutusData) : Prop :=
  (d.read BigInt.raw).Meet TagClash (d'.read BigInt.raw)

/-! ## The expression of a value -/

mutual

def PlutusValue.toExpression : PlutusValue ℕ → Expression
  | .constr c fields => .struct c (toExpressions fields)
  | .int n => .number n
  | .bytes b => .bytes b
  | .list items => .list (toExpressions items)
  | .map pairs => .map (toExpressionPairs pairs)

def toExpressions : List (PlutusValue ℕ) → List Expression
  | [] => []
  | v :: rest => v.toExpression :: toExpressions rest

def toExpressionPairs : List (PlutusValue ℕ × PlutusValue ℕ) → List (Expression × Expression)
  | [] => []
  | (k, v) :: rest => (k.toExpression, v.toExpression) :: toExpressionPairs rest

end

theorem bigIntToExpr_eq (n : BigInt) (h : n.Fits) :
    bigIntToExpr n = (n.raw.rename ConstrHead.number).toExpression := by
  cases n with
  | int n =>
    obtain ⟨hlow, hhigh⟩ := h
    have hrange : -2 ^ 127 ≤ n ∧ n < 2 ^ 127 := by omega
    rw [bigIntToExpr, if_pos hrange]
    rfl
  | bigUInt bytes => rfl
  | bigNInt bytes => rfl

mutual

/-- **The code keeps the numbered value.** -/
theorem plutusDataToExpression_eq (d : PlutusData) (h : d.IntsFit) :
    plutusDataToExpression d =
      ((d.read BigInt.raw).rename ConstrHead.number).toExpression := by
  cases d with
  | boundedBytes b => rfl
  | bigInt n => exact bigIntToExpr_eq n h
  | constr tag anyConstructor encoding fields =>
    simp only [plutusDataToExpression, PlutusData.read, PlutusValue.rename,
      PlutusValue.toExpression, plutusListToExpressions_eq fields h]
    cases anyConstructor <;> rfl
  | array encoding items =>
    simp only [plutusDataToExpression, PlutusData.read, PlutusValue.rename,
      PlutusValue.toExpression, plutusListToExpressions_eq items h]
  | map pairs =>
    simp only [plutusDataToExpression, PlutusData.read, PlutusValue.rename,
      PlutusValue.toExpression, plutusPairsToExpressions_eq pairs h]

theorem plutusListToExpressions_eq (items : List PlutusData) (h : intsFitList items) :
    plutusListToExpressions items =
      toExpressions (renameList ConstrHead.number (readList BigInt.raw items)) := by
  cases items with
  | nil => rfl
  | cons d rest =>
    simp only [plutusListToExpressions, readList, renameList, toExpressions,
      plutusDataToExpression_eq d h.1, plutusListToExpressions_eq rest h.2]

theorem plutusPairsToExpressions_eq (pairs : List (PlutusData × PlutusData))
    (h : intsFitPairs pairs) :
    plutusPairsToExpressions pairs =
      toExpressionPairs (renamePairs ConstrHead.number (readPairs BigInt.raw pairs)) := by
  cases pairs with
  | nil => rfl
  | cons pair rest =>
    obtain ⟨k, v⟩ := pair
    simp only [plutusPairsToExpressions, readPairs, renamePairs, toExpressionPairs,
      plutusDataToExpression_eq k h.1.1, plutusDataToExpression_eq v h.1.2,
      plutusPairsToExpressions_eq rest h.2]

end

mutual

/-- The expression of a value gives the value back. -/
theorem toExpression_injective (v v' : PlutusValue ℕ) (h : v.toExpression = v'.toExpression) :
    v = v' := by
  cases v with
  | constr c fields =>
    cases v' with
    | constr c' fields' =>
      simp only [PlutusValue.toExpression, Expression.struct.injEq] at h
      rw [h.1, toExpressions_injective fields fields' h.2]
    | _ => simp [PlutusValue.toExpression] at h
  | int n =>
    cases v' with
    | int n' =>
      simp only [PlutusValue.toExpression, Expression.number.injEq] at h
      rw [h]
    | _ => simp [PlutusValue.toExpression] at h
  | bytes b =>
    cases v' with
    | bytes b' =>
      simp only [PlutusValue.toExpression, Expression.bytes.injEq] at h
      rw [h]
    | _ => simp [PlutusValue.toExpression] at h
  | list items =>
    cases v' with
    | list items' =>
      simp only [PlutusValue.toExpression, Expression.list.injEq] at h
      rw [toExpressions_injective items items' h]
    | _ => simp [PlutusValue.toExpression] at h
  | map pairs =>
    cases v' with
    | map pairs' =>
      simp only [PlutusValue.toExpression, Expression.map.injEq] at h
      rw [toExpressionPairs_injective pairs pairs' h]
    | _ => simp [PlutusValue.toExpression] at h

theorem toExpressions_injective (vs vs' : List (PlutusValue ℕ))
    (h : toExpressions vs = toExpressions vs') : vs = vs' := by
  cases vs with
  | nil =>
    cases vs' with
    | nil => rfl
    | cons v' rest' => simp [toExpressions] at h
  | cons v rest =>
    cases vs' with
    | nil => simp [toExpressions] at h
    | cons v' rest' =>
      simp only [toExpressions, List.cons.injEq] at h
      rw [toExpression_injective v v' h.1, toExpressions_injective rest rest' h.2]

theorem toExpressionPairs_injective (ps ps' : List (PlutusValue ℕ × PlutusValue ℕ))
    (h : toExpressionPairs ps = toExpressionPairs ps') : ps = ps' := by
  cases ps with
  | nil =>
    cases ps' with
    | nil => rfl
    | cons p' rest' => simp [toExpressionPairs] at h
  | cons p rest =>
    obtain ⟨k, v⟩ := p
    cases ps' with
    | nil => simp [toExpressionPairs] at h
    | cons p' rest' =>
      obtain ⟨k', v'⟩ := p'
      simp only [toExpressionPairs, List.cons.injEq, Prod.mk.injEq] at h
      rw [toExpression_injective k k' h.1.1, toExpression_injective v v' h.1.2,
        toExpressionPairs_injective rest rest' h.2]

end

/-- **Data and expressions.** Data that differ as values, big integers left as their bytes, have
    different expressions; where a compact tag stands against an explicit index of the same
    number they have to differ by more than that. -/
theorem plutusDataToExpression_ne (d d' : PlutusData) (hd : d.IntsFit) (hd' : d'.IntsFit)
    (hvalue : d.rawValue ≠ d'.rawValue)
    (hclash : d.TagsClash d' → d.numberedValue ≠ d'.numberedValue) :
    plutusDataToExpression d ≠ plutusDataToExpression d' := by
  intro h
  rw [plutusDataToExpression_eq d hd, plutusDataToExpression_eq d' hd'] at h
  have hnumbered := toExpression_injective _ _ h
  rcases rename_eq_or_meet index_eq_or_tagClash _ _ hnumbered with hindex | hmeet
  · exact hvalue hindex
  · exact hclash hmeet hnumbered

/-- Tag 1300 against the explicit index 1300, over different fields. -/
theorem plutusDataToExpression_ne_fields :
    plutusDataToExpression (.constr 1300 none .definite [.boundedBytes [1]]) ≠
      plutusDataToExpression (.constr 102 (some 1300) .definite [.boundedBytes [2]]) :=
  plutusDataToExpression_ne _ _ ⟨trivial, trivial⟩ ⟨trivial, trivial⟩
    (by simp [PlutusData.rawValue, PlutusData.read, readList, PlutusValue.rename, renameList])
    (fun _ => by
      simp [PlutusData.numberedValue, PlutusData.read, readList, PlutusValue.rename, renameList])

/-- Two collisions: a big integer and the byte string it holds; the constructor of index 27 under
    its compact tag 1300 and the one of index 1300. -/
theorem plutusDataToExpression_collisions :
    ((PlutusData.bigInt (.bigUInt [1, 0, 0, 0, 0, 0, 0, 0, 0])).value ≠
        (PlutusData.boundedBytes [1, 0, 0, 0, 0, 0, 0, 0, 0]).value ∧
      plutusDataToExpression (.bigInt (.bigUInt [1, 0, 0, 0, 0, 0, 0, 0, 0])) =
        plutusDataToExpression (.boundedBytes [1, 0, 0, 0, 0, 0, 0, 0, 0])) ∧
    ((PlutusData.constr 1300 none .definite []).value ≠
        (PlutusData.constr 102 (some 1300) .definite []).value ∧
      plutusDataToExpression (.constr 1300 none .definite []) =
        plutusDataToExpression (.constr 102 (some 1300) .definite [])) := by
  refine ⟨⟨?_, rfl⟩, ?_, rfl⟩
  · intro h
    cases h
  · intro h
    simp only [PlutusData.value, PlutusData.read, PlutusValue.rename,
      PlutusValue.constr.injEq] at h
    exact absurd h.1 (by decide)

end Tx3Lift
