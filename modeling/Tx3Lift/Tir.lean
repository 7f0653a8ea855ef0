import Tx3Lift.Basic

/-!
# TIR expressions and their constant parts

The data model of `tx3_tir::model::v1beta0` as far as the repository reads it,
and the `const_*` walkers of `crates/tx3-lift/src/expr.rs`.

The operands of a built-in, compiler or coercion node are kept, the operator is
not: no function of the repository looks at it. Redeemers, output datums, fees
and ad-hoc directives are not read either and are left out, and of the validity
block only its presence counts.
-/

namespace Tx3Lift.Tir

/-- `tx3_tir::model::core::UtxoRef`. -/
structure UtxoRef where
  txid : ByteBuf
  index : UInt32
deriving DecidableEq

mutual

/-- `Expression`. -/
inductive Expression where
  | none
  | list (xs : List Expression)
  | map (pairs : List (Expression × Expression))
  | tuple (elements : List Expression)
  | struct (constructor : ℕ) (fields : List Expression)
  | bytes (b : ByteBuf)
  | number (n : ℤ)
  | bool (b : Bool)
  | string (s : String)
  | address (b : ByteBuf)
  | hash (b : ByteBuf)
  | utxoRefs (refs : List UtxoRef)
  | utxoSet
  | assets (xs : List AssetExpr)
  | evalParam (p : Param)
  | evalBuiltIn (operands : List Expression)
  | evalCompiler (operands : List Expression)
  | evalCoerce (operand : Expression)
  | adHocDirective

/-- `AssetExpr`. -/
structure AssetExpr where
  policy : Expression
  assetName : Expression
  amount : Expression

/-- `InputQuery`. -/
structure InputQuery where
  address : Expression
  minAmount : Expression
  ref : Expression
  many : Bool
  collateral : Bool

/-- `Param`. -/
inductive Param where
  | set (inner : Expression)
  | expectValue (name : String)
  | expectInput (name : String) (query : InputQuery)
  | expectFees

end

/-- `Input`. -/
structure Input where
  name : String
  utxos : Expression

/-- `Output`. -/
structure Output where
  address : Expression
  amount : Expression
  optional : Bool

/-- `Mint`, for mints and burns alike. -/
structure Mint where
  amount : Expression

/-- `Collateral`. -/
structure Collateral where
  utxos : Expression

/-- `Signers`. -/
structure Signers where
  signers : List Expression

/-- `Metadata`. -/
structure Metadata where
  key : Expression
  value : Expression

/-- `Validity`. -/
structure Validity where
  since : Expression
  till : Expression

/-- `Tx`: a transaction template. `json` is what `serde_json::to_vec` returns for it, the
    parts left out included. -/
structure Tx where
  references : List Expression
  inputs : List Input
  outputs : List Output
  validity : Option Validity
  mints : List Mint
  burns : List Mint
  collateral : List Collateral
  signers : Option Signers
  metadata : List Metadata
  json : ByteBuf := []

/-! ## Constant parts (`expr.rs`, lines 63–139) -/

/-- `const_address`. -/
def constAddress : Expression → Option ByteBuf
  | .address bytes => some bytes
  | .evalParam (.set inner) => constAddress inner
  | _ => .none

/-- `const_utxo_refs`. -/
def constUtxoRefs : Expression → Option (List UtxoRef)
  | .utxoRefs refs => some refs
  | .evalParam (.set inner) => constUtxoRefs inner
  | _ => .none

/-- `const_number`. -/
def constNumber : Expression → Option ℤ
  | .number n => some n
  | .evalParam (.set inner) => constNumber inner
  | _ => .none

/-- `const_bytes`. -/
def constBytes : Expression → Option ByteBuf
  | .bytes b => some b
  | .hash b => some b
  | .evalParam (.set inner) => constBytes inner
  | _ => .none

/-- The policy an asset expression contributes to `collect_const_policies`. -/
def AssetExpr.constPolicy (a : AssetExpr) : Option ByteBuf :=
  (constBytes a.policy).filter fun p => !p.isEmpty

mutual

/-- `const_policies_in` (`collect_const_policies`, lines 118–139): the policies in
    the order in which the walk pushes them. -/
def constPoliciesIn : Expression → List ByteBuf
  | .assets xs => xs.filterMap AssetExpr.constPolicy
  | .list xs => constPoliciesInList xs
  | .evalParam (.set inner) => constPoliciesIn inner
  | _ => []

/-- The `Expression::List` arm: every element in turn. -/
def constPoliciesInList : List Expression → List ByteBuf
  | [] => []
  | x :: xs => constPoliciesIn x ++ constPoliciesInList xs

end

/-- `expect_input_query` (`matching.rs`, lines 250–259; `fingerprint.rs` has the same
    function). -/
def expectInputQuery : Expression → Option InputQuery
  | .evalParam (.expectInput _ query) => some query
  | .evalParam (.set inner) => expectInputQuery inner
  | _ => .none

/-- An expression is never both a constant list of references and an input query. -/
theorem expectInputQuery_of_constUtxoRefs :
    ∀ {e : Expression} {refs : List UtxoRef}, constUtxoRefs e = some refs →
      expectInputQuery e = none := by
  intro e
  induction e using constUtxoRefs.induct with
  | case1 refs => intro _ _; rfl
  | case2 inner ih =>
    intro refs h
    simpa [expectInputQuery] using ih (by simpa [constUtxoRefs] using h)
  | case3 e h1 h2 =>
    intro refs h
    rw [constUtxoRefs] at h
    · cases h
    · exact h1
    · exact h2

theorem constUtxoRefs_of_expectInputQuery {e : Expression} {query : InputQuery}
    (h : expectInputQuery e = some query) : constUtxoRefs e = none := by
  by_contra hne
  obtain ⟨refs, hrefs⟩ := Option.ne_none_iff_exists'.mp hne
  rw [expectInputQuery_of_constUtxoRefs hrefs] at h
  cases h

end Tx3Lift.Tir
