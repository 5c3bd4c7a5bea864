import CortexAOS.Platform
import Mathlib.Algebra.Ring.Nat

/-!
# ulib.c: strings and numbers

A string is read up to its terminator, which is the end of the list.
-/

namespace CortexAOS

/-! ## User programs -/

/-- What a user program does next: a system call, and how it goes on with the result. -/
inductive UProg where
  | done
  | write (bytes : List Byte) (next : UProg)
  /-- The bytes that `sys_ps` has filled in; none if it failed. -/
  | ps (size : Word) (next : List Byte → UProg)
  | kill (pid : Word) (next : Word → UProg)
  | store (va v : Word) (next : UProg)

def ulib_puts (s : CStr) (next : UProg) : UProg := .write s next

def ulib_putc (c : Byte) (next : UProg) : UProg := .write [c] next

def utf8 (s : String) : CStr := s.toUTF8.toList.map UInt8.toBitVec

/-! ## Strings -/

def CStr.char (s : CStr) : Byte := s.headD 0#8

@[simp] theorem CStr.char_nil : CStr.char [] = 0#8 := rfl

@[simp] theorem CStr.char_cons (c : Byte) (s : CStr) : CStr.char (c :: s) = c := rfl

def ulib_strlen (s : CStr) : Nat := s.length

def ulib_strncmp (a b : CStr) : Nat → Int
  | 0 => 0
  | n + 1 =>
    if a.char ≠ 0#8 ∧ a.char = b.char then ulib_strncmp a.tail b.tail n
    else a.char.toNat - b.char.toNat

theorem strncmp_take {s w : CStr} (hs : 0#8 ∉ s) (hw : 0#8 ∉ w) :
    ulib_strncmp s w w.length = 0 ↔ w <+: s := by
  induction w generalizing s with
  | nil => simp [ulib_strncmp]
  | cons c w ih =>
    have hc : c ≠ 0#8 := fun h => hw (by simp [h])
    rcases s with _ | ⟨d, s⟩
    · have hpos : c.toNat ≠ 0 := fun h => hc (BitVec.eq_of_toNat_eq h)
      simp [ulib_strncmp, hpos]
    · have hd : d ≠ 0#8 := fun h => hs (by simp [h])
      have ih' := @ih s (fun h => hs (by simp [h])) (fun h => hw (by simp [h]))
      rw [List.length_cons, ulib_strncmp, List.cons_prefix_cons]
      rcases eq_or_ne d c with rfl | hdc
      · rw [if_pos ⟨hd, rfl⟩]
        simpa using ih'
      · have hnat : d.toNat ≠ c.toNat := fun h => hdc (BitVec.eq_of_toNat_eq h)
        rw [if_neg (fun h => hdc h.2), CStr.char_cons, CStr.char_cons]
        constructor
        · intro h
          omega
        · rintro ⟨rfl, -⟩
          exact absurd rfl hdc

/-! ## ulib_atoi -/

def isDigit (c : Byte) : Bool := 0x30#8 ≤ c && c ≤ 0x39#8

/-- `int` arithmetic wraps. -/
def atoi_loop (v : Word) : CStr → Word
  | [] => v
  | c :: s => if isDigit c then atoi_loop (v * 10#32 + (c.setWidth 32 - 0x30#32)) s else v

def ulib_atoi (s : CStr) : Word := atoi_loop 0#32 s

def decimalValue (ds : CStr) : Nat := ds.foldl (fun v c => v * 10 + (c.toNat - 0x30)) 0

theorem isDigit_toNat {c : Byte} (h : isDigit c = true) : 0x30 ≤ c.toNat ∧ c.toNat ≤ 0x39 := by
  simpa [isDigit, BitVec.le_def] using h

theorem atoi_loop_toNat (s : CStr) (v : Word) (n : Nat) (hv : v.toNat = n % 2 ^ 32) :
    (atoi_loop v s).toNat =
    ((s.takeWhile isDigit).foldl (fun v c => v * 10 + (c.toNat - 0x30)) n) % 2 ^ 32 := by
  induction s generalizing v n with
  | nil => simpa [atoi_loop] using hv
  | cons c s ih =>
    unfold atoi_loop
    split
    · rename_i hd
      obtain ⟨h1, h2⟩ := isDigit_toNat hd
      rw [List.takeWhile_cons_of_pos hd, List.foldl_cons]
      apply ih
      rw [BitVec.toNat_add, BitVec.toNat_mul, BitVec.toNat_sub, BitVec.toNat_setWidth,
        BitVec.toNat_ofNat, BitVec.toNat_ofNat, hv]
      omega
    · rename_i hd
      rw [List.takeWhile_cons_of_neg hd]
      exact hv

/-- The leading digits, modulo 2^32; no digits give 0. -/
theorem ulib_atoi_toNat (s : CStr) : (ulib_atoi s).toNat = decimalValue (s.takeWhile isDigit) % 2 ^ 32 :=
  atoi_loop_toNat s 0#32 0 rfl

end CortexAOS
