import Tx3Lift.Cardano.Payload

/-!
# Plutus data as TIR expressions

Model of `crates/tx3-lift-cardano/src/datum.rs`.

* `plutusDataToExpression_definite`: the expression does not depend on whether arrays
  are encoded with a definite length.
-/

namespace Tx3Lift

open Tir

/-- `big_int_to_expr` (lines 42–50): an integer outside of `i128` has no number. -/
def bigIntToExpr : BigInt → Expression
  | .int n => if -2 ^ 127 ≤ n ∧ n < 2 ^ 127 then .number n else .bytes []
  | .bigUInt bytes => .bytes bytes
  | .bigNInt bytes => .bytes bytes

mutual

/-- `plutus_data_to_expression` (lines 4–40). -/
def plutusDataToExpression : PlutusData → Expression
  | .boundedBytes b => .bytes b
  | .bigInt n => bigIntToExpr n
  | .constr tag anyConstructor _ fields =>
    .struct (anyConstructor.getD tag).toNat (plutusListToExpressions fields)
  | .array _ items => .list (plutusListToExpressions items)
  | .map pairs => .map (plutusPairsToExpressions pairs)

/-- `items.iter().map(plutus_data_to_expression)`. -/
def plutusListToExpressions : List PlutusData → List Expression
  | [] => []
  | d :: rest => plutusDataToExpression d :: plutusListToExpressions rest

/-- The map of the `PlutusData::Map` arm over the pairs. -/
def plutusPairsToExpressions : List (PlutusData × PlutusData) → List (Expression × Expression)
  | [] => []
  | (k, v) :: rest =>
    (plutusDataToExpression k, plutusDataToExpression v) :: plutusPairsToExpressions rest

end

mutual

/-- The same data with every array encoded with a definite length. -/
def PlutusData.definite : PlutusData → PlutusData
  | .boundedBytes b => .boundedBytes b
  | .bigInt n => .bigInt n
  | .constr tag anyConstructor _ fields =>
    .constr tag anyConstructor .definite (definiteList fields)
  | .array _ items => .array .definite (definiteList items)
  | .map pairs => .map (definitePairs pairs)

def definiteList : List PlutusData → List PlutusData
  | [] => []
  | d :: rest => d.definite :: definiteList rest

def definitePairs : List (PlutusData × PlutusData) → List (PlutusData × PlutusData)
  | [] => []
  | (k, v) :: rest => (k.definite, v.definite) :: definitePairs rest

end

mutual

/-- **Array encodings do not show.** -/
theorem plutusDataToExpression_definite (d : PlutusData) :
    plutusDataToExpression d.definite = plutusDataToExpression d := by
  cases d with
  | boundedBytes b => rfl
  | bigInt n => rfl
  | constr tag anyConstructor encoding fields =>
    simp only [PlutusData.definite, plutusDataToExpression, plutusListToExpressions_definite fields]
  | array encoding items =>
    simp only [PlutusData.definite, plutusDataToExpression, plutusListToExpressions_definite items]
  | map pairs =>
    simp only [PlutusData.definite, plutusDataToExpression, plutusPairsToExpressions_definite pairs]

theorem plutusListToExpressions_definite (items : List PlutusData) :
    plutusListToExpressions (definiteList items) = plutusListToExpressions items := by
  cases items with
  | nil => rfl
  | cons d rest =>
    simp only [definiteList, plutusListToExpressions, plutusDataToExpression_definite d,
      plutusListToExpressions_definite rest]

theorem plutusPairsToExpressions_definite (pairs : List (PlutusData × PlutusData)) :
    plutusPairsToExpressions (definitePairs pairs) = plutusPairsToExpressions pairs := by
  cases pairs with
  | nil => rfl
  | cons pair rest =>
    obtain ⟨k, v⟩ := pair
    simp only [definitePairs, plutusPairsToExpressions, plutusDataToExpression_definite k,
      plutusDataToExpression_definite v, plutusPairsToExpressions_definite rest]

end

end Tx3Lift
