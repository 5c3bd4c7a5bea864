import Mathlib.Data.Nat.Bitwise

/-!
# Words cut in two at a bit

`x &&& ~~~m` and `x &&& m` are the upper and the lower part of `x`. Nothing here names the kernel.
-/

namespace CortexAOS.Lib.Bits

variable {w : Nat}

theorem parts_disjoint (x y m : BitVec w) : (x &&& ~~~m) &&& (y &&& m) = 0#w := by
  rw [BitVec.and_comm y, BitVec.and_assoc, ← BitVec.and_assoc (~~~m), BitVec.not_and_self]
  simp

theorem toNat_or {x y : BitVec w} (h : x &&& y = 0#w) : (x ||| y).toNat = x.toNat + y.toNat := by
  rw [← BitVec.add_eq_or_of_and_eq_zero _ _ h, BitVec.toNat_add_of_and_eq_zero h]

theorem parts_or (x m : BitVec w) : (x &&& ~~~m) ||| (x &&& m) = x := by
  rw [← BitVec.and_or_distrib_left, BitVec.or_comm]
  simp

theorem toNat_low {n : Nat} (h : n ≤ w) (x : BitVec w) :
    (x &&& BitVec.ofNat w (2 ^ n - 1)).toNat = x.toNat % 2 ^ n := by
  have hlt : 2 ^ n - 1 < 2 ^ w := by
    have := Nat.pow_le_pow_right (show 0 < 2 by omega) h
    have := Nat.two_pow_pos n
    omega
  rw [BitVec.toNat_and, BitVec.toNat_ofNat, Nat.mod_eq_of_lt hlt, Nat.and_two_pow_sub_one_eq_mod]

theorem toNat_high {n : Nat} (h : n ≤ w) (x : BitVec w) :
    (x &&& ~~~BitVec.ofNat w (2 ^ n - 1)).toNat = x.toNat / 2 ^ n * 2 ^ n := by
  have hsum := congrArg BitVec.toNat (parts_or x (BitVec.ofNat w (2 ^ n - 1)))
  rw [toNat_or (parts_disjoint ..), toNat_low h] at hsum
  have := Nat.div_add_mod' x.toNat (2 ^ n)
  omega

theorem toNat_join {n : Nat} (h : n ≤ w) (x y : BitVec w) :
    ((x &&& ~~~BitVec.ofNat w (2 ^ n - 1)) ||| (y &&& BitVec.ofNat w (2 ^ n - 1))).toNat =
      x.toNat / 2 ^ n * 2 ^ n + y.toNat % 2 ^ n := by
  rw [toNat_or (parts_disjoint ..), toNat_high h, toNat_low h]

theorem join_high {m y : BitVec w} (x : BitVec w) (hy : y &&& ~~~m = 0#w) :
    ((x &&& ~~~m) ||| y) &&& ~~~m = x &&& ~~~m := by
  rw [BitVec.and_or_distrib_right, hy, BitVec.and_assoc]
  simp

theorem join_low {m k : BitVec w} (x y : BitVec w) (hk : ~~~m &&& k = 0#w) :
    ((x &&& ~~~m) ||| y) &&& k = y &&& k := by
  rw [BitVec.and_or_distrib_right, BitVec.and_assoc, hk]
  simp

theorem toNat_ofNat_mul {q : Nat} {s : BitVec w} (h : q * s.toNat < 2 ^ w) :
    (BitVec.ofNat w q * s).toNat = q * s.toNat := by
  rw [BitVec.toNat_mul, BitVec.toNat_ofNat, Nat.mod_mul_mod, Nat.mod_eq_of_lt h]

end CortexAOS.Lib.Bits
