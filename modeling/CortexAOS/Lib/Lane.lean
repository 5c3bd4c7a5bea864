import Mathlib.Data.Nat.Bitwise

/-!
# The bytes of a word

Byte `l` of a 32-bit word is its bits from `8 * l` on. Nothing here names the kernel.
-/

namespace CortexAOS.Lib.Lane

def get (w : BitVec 32) (l : Nat) : BitVec 8 := (w >>> (8 * l)).setWidth 8

def set (w : BitVec 32) (l : Nat) (c : BitVec 8) : BitVec 32 :=
  (w &&& ~~~(0xFF#32 <<< (8 * l))) ||| (c.setWidth 32 <<< (8 * l))

theorem getLsbD_get (w : BitVec 32) (l k : Nat) (hk : k < 8) :
    (get w l).getLsbD k = w.getLsbD (8 * l + k) := by
  simp [get, hk]

theorem getLsbD_set (w : BitVec 32) {l : Nat} (hl : l < 4) (c : BitVec 8) (k : Nat) :
    (set w l c).getLsbD k = if 8 * l ≤ k ∧ k < 8 * l + 8 then c.getLsbD (k - 8 * l)
      else w.getLsbD k := by
  have hmask : (0xFF#32 : BitVec 32) = (BitVec.allOnes 8).setWidth 32 := by decide
  unfold set
  rw [hmask, BitVec.getLsbD_or, BitVec.getLsbD_and, BitVec.getLsbD_not, BitVec.getLsbD_shiftLeft,
    BitVec.getLsbD_shiftLeft, BitVec.getLsbD_setWidth, BitVec.getLsbD_setWidth, BitVec.getLsbD_allOnes]
  by_cases hk : k < 32
  · by_cases hlo : 8 * l ≤ k
    · by_cases hhi : k < 8 * l + 8
      · have h8 : k - 8 * l < 8 := by omega
        have h32 : k - 8 * l < 32 := by omega
        have hge : ¬ k < 8 * l := by omega
        simp [hk, hlo, hhi, h8, h32, hge]
      · have h8 : ¬ k - 8 * l < 8 := by omega
        have hc : c.getLsbD (k - 8 * l) = false := BitVec.getLsbD_of_ge _ _ (by omega)
        simp [hk, hhi, h8, hc]
    · have hlt : k < 8 * l := by omega
      simp [hk, hlo, hlt]
  · have hw : w.getLsbD k = false := BitVec.getLsbD_of_ge _ _ (by omega)
    have hout : ¬ (8 * l ≤ k ∧ k < 8 * l + 8) := by omega
    simp [hk, hw, hout]

theorem get_set_self (w : BitVec 32) {l : Nat} (hl : l < 4) (c : BitVec 8) : get (set w l c) l = c := by
  apply BitVec.eq_of_getLsbD_eq
  intro k hk
  rw [getLsbD_get _ _ _ hk, getLsbD_set w hl, if_pos (by omega), Nat.add_sub_cancel_left]

theorem get_set_of_ne (w : BitVec 32) {l l' : Nat} (hl : l < 4) (hne : l' ≠ l) (c : BitVec 8) :
    get (set w l c) l' = get w l' := by
  apply BitVec.eq_of_getLsbD_eq
  intro k hk
  rw [getLsbD_get _ _ _ hk, getLsbD_get _ _ _ hk, getLsbD_set w hl, if_neg (by omega)]

theorem ext {w w' : BitVec 32} (h : ∀ l < 4, get w l = get w' l) : w = w' := by
  apply BitVec.eq_of_getLsbD_eq
  intro k hk
  have hbyte := congrArg (fun b => b.getLsbD (k % 8)) (h (k / 8) (by omega))
  simp only [getLsbD_get _ _ _ (Nat.mod_lt k (show 0 < 8 by omega)), Nat.div_add_mod] at hbyte
  exact hbyte

end CortexAOS.Lib.Lane
