import Mathlib.Algebra.Ring.Nat
import Mathlib.Data.List.Basic

/-!
# Numerals with a fixed number of digits

The digits of a number from the highest place down. Nothing here names the kernel.
-/

namespace CortexAOS.Lib

/-- The lowest `k` digits of `n` in base `b`. -/
def fixedDigits (b k n : Nat) : List Char :=
  (List.range k).map fun i => Nat.digitChar (n / b ^ (k - 1 - i) % b)

theorem fixedDigits_cons (b k n : Nat) :
    fixedDigits b (k + 1) n = Nat.digitChar (n / b ^ k % b) :: fixedDigits b k n := by
  unfold fixedDigits
  rw [List.range_succ_eq_map, List.map_cons, List.map_map]
  congr 1
  apply List.map_congr_left
  intro i hi
  rw [List.mem_range] at hi
  rw [Function.comp_apply, show k + 1 - 1 - (i + 1) = k - 1 - i by omega]

theorem fixedDigits_snoc (b k n : Nat) :
    fixedDigits b (k + 1) n = fixedDigits b k (n / b) ++ [Nat.digitChar (n % b)] := by
  unfold fixedDigits
  rw [List.range_succ, List.map_append, List.map_singleton]
  congr 1
  · apply List.map_congr_left
    intro i hi
    rw [List.mem_range] at hi
    rw [Nat.div_div_eq_div_mul, ← pow_succ', show k - 1 - i + 1 = k + 1 - 1 - i by omega]
  · simp

theorem toDigits_eq_fixed {b : Nat} (hb : 1 < b) (k n : Nat) (hlow : k = 0 ∨ b ^ k ≤ n)
    (hhigh : n < b ^ (k + 1)) : Nat.toDigits b n = fixedDigits b (k + 1) n := by
  induction k generalizing n with
  | zero =>
    rw [zero_add, pow_one] at hhigh
    rw [Nat.toDigits_of_lt_base hhigh, fixedDigits_snoc, Nat.mod_eq_of_lt hhigh]
    rfl
  | succ k ih =>
    have hle : b ^ (k + 1) ≤ n := hlow.resolve_left (Nat.succ_ne_zero k)
    have hbase : b ≤ n := Nat.le_trans (Nat.le_self_pow (Nat.succ_ne_zero k) b) hle
    rw [Nat.toDigits_of_base_le hb hbase, fixedDigits_snoc]
    congr 1
    apply ih
    · right
      rw [Nat.le_div_iff_mul_le (by omega), ← pow_succ]
      exact hle
    · rw [Nat.div_lt_iff_lt_mul (by omega), ← pow_succ]
      exact hhigh

end CortexAOS.Lib
