import Tx3Lift.Core.Fingerprint
import Tx3Lift.Lib.Lists

/-!
# The content hash

`fnv1a_64` (`crates/tx3-lift/src/fingerprint.rs`, lines 146–158) runs a state through the bytes.
Each step can be undone, so the state after equal bytes tells the states before them apart.

* `fnv1a64Step_injective`, `fnv1a64Step_byte_injective`: one step, in the state and in the byte.
* `contentHash_changes`: what a change of the serialized form does to the hash.
-/

namespace Tx3Lift

open Lib

/-! ## One step -/

/-- The body of the loop. -/
def fnv1a64Step (h : UInt64) (b : UInt8) : UInt64 := (h ^^^ b.toUInt64) * 0x100000001b3

/-- The inverse of the multiplier modulo `2^64`. -/
def fnvPrimeInverse : UInt64 := 0xce965057aff6957b

theorem fnvPrime_mul_inverse : (0x100000001b3 : UInt64) * fnvPrimeInverse = 1 := by decide

theorem fnv1a64_eq (bytes : ByteBuf) :
    fnv1a64 bytes = bytes.foldl fnv1a64Step 0xcbf29ce484222325 := rfl

theorem fnv1a64Step_eq_iff {h h' : UInt64} {b b' : UInt8} :
    fnv1a64Step h b = fnv1a64Step h' b' ↔ h ^^^ b.toUInt64 = h' ^^^ b'.toUInt64 := by
  constructor
  · intro heq
    have hmul := congrArg (· * fnvPrimeInverse) heq
    simpa only [fnv1a64Step, UInt64.mul_assoc, fnvPrime_mul_inverse, UInt64.mul_one] using hmul
  · intro heq
    rw [fnv1a64Step, fnv1a64Step, heq]

theorem fnv1a64Step_injective (b : UInt8) : Function.Injective fun h => fnv1a64Step h b := by
  intro h h' heq
  exact (UInt64.xor_left_inj b.toUInt64).mp (fnv1a64Step_eq_iff.mp heq)

theorem fnv1a64Step_byte_injective (h : UInt64) : Function.Injective fun b => fnv1a64Step h b := by
  intro b b' heq
  have hxor := (UInt64.xor_right_inj h).mp (fnv1a64Step_eq_iff.mp heq)
  exact UInt8.toUInt64_inj.mp hxor

/-! ## The whole content -/

/-- **Changes that the hash cannot miss.** Two contents that end alike have the same hash exactly if
    what comes before has; in particular a change of a single byte always changes the hash. -/
theorem contentHash_changes (xs ys zs : ByteBuf) (a b : UInt8) :
    (contentHash (xs ++ zs) = contentHash (ys ++ zs) ↔ contentHash xs = contentHash ys) ∧
    (contentHash (xs ++ a :: zs) = contentHash (xs ++ b :: zs) ↔ a = b) := by
  have hsuffix : ∀ xs ys zs : ByteBuf,
      contentHash (xs ++ zs) = contentHash (ys ++ zs) ↔ contentHash xs = contentHash ys := by
    intro xs ys zs
    simp only [contentHash, fnv1a64_eq, List.foldl_append]
    exact (foldl_injective fnv1a64Step_injective zs).eq_iff
  refine ⟨hsuffix xs ys zs, ?_⟩
  have hbyte : ∀ c : UInt8, xs ++ c :: zs = (xs ++ [c]) ++ zs := by simp
  rw [hbyte a, hbyte b, hsuffix]
  simp only [contentHash, fnv1a64_eq, List.foldl_append, List.foldl_cons, List.foldl_nil]
  exact (fnv1a64Step_byte_injective _).eq_iff

end Tx3Lift
