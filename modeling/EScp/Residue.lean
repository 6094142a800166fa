import Mathlib.Data.Nat.ModEq
import Mathlib.Data.Int.ModEq
import Mathlib.Tactic

/-!
# Residues

Two numbers of one window of `size` consecutive numbers have the same residue only when they are
equal.  A ring buffer indexed by an unbounded counter keeps its live indexes in such a window.  A
word that is taken for a signed number is a balanced residue.
-/

namespace EScp

/-- Residues separate the numbers of a window of at most `size` consecutive numbers. -/
theorem eq_of_window {size base i j : Nat} (low_i : base ≤ i) (high_i : i < base + size)
    (low_j : base ≤ j) (high_j : j < base + size) (same : i % size = j % size) : i = j := by
  have congruent : i ≡ j [MOD size] := same
  apply congruent.eq_of_abs_lt
  rw [abs_lt]
  omega

theorem mod_ne_of_window {size base i j : Nat} (low_i : base ≤ i) (high_i : i < base + size)
    (low_j : base ≤ j) (high_j : j < base + size) (ne : i ≠ j) : i % size ≠ j % size :=
  fun same => ne (eq_of_window low_i high_i low_j high_j same)

/-- A word taken for a signed one. -/
theorem toInt_toInt64_eq_bmod (word : UInt64) :
    word.toInt64.toInt = (word.toNat : Int).bmod (2 ^ 64) :=
  BitVec.toInt_eq_toNat_bmod _

theorem toInt_toInt64_of_lt {word : UInt64} (small : word.toNat < 2 ^ 63) :
    word.toInt64.toInt = word.toNat := by
  rw [toInt_toInt64_eq_bmod, Int.bmod_eq_of_le] <;> omega

/-- A word cut to an `int`. -/
theorem toInt_toInt32_eq_bmod (word : UInt64) :
    word.toUInt32.toInt32.toInt = (word.toNat : Int).bmod (2 ^ 32) := by
  have signed : word.toUInt32.toInt32.toInt = (word.toUInt32.toNat : Int).bmod (2 ^ 32) :=
    BitVec.toInt_eq_toNat_bmod _
  rw [signed, UInt64.toNat_toUInt32, Int.natCast_emod, Int.emod_bmod]

end EScp
