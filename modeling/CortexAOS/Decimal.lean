import CortexAOS.Printf

/-!
# Decimal numbers, printed and parsed

Three loops reverse the digits through a scratch array, and `ulib_atoi` reads them back.
-/

namespace CortexAOS

/-! ## The other two printers -/

/-- The bytes that it hands to `uart_putc`. -/
def uart_print_dec (val : Word) : Option (List Byte) :=
  if val = 0#32 then some [chr '0']
  else do
    let buf ← dec_digits 10 val []
    some buf.reverse

def uart_print_int (val : Word) : Option (List Byte) :=
  if val.slt 0#32 then do
    let ds ← uart_print_dec (-(val + 1#32) + 1#32)
    some (chr '-' :: ds)
  else uart_print_dec val

/-- The second loop of `ulib_putu`, one system call for each digit. -/
def putc_all : List Byte → UProg → UProg
  | [], next => next
  | c :: cs, next => ulib_putc c (putc_all cs next)

def ulib_putu (v : Word) (next : UProg) : Option UProg :=
  if v = 0#32 then some (ulib_putc (chr '0') next)
  else do
    let buf ← dec_digits 11 v []
    some (putc_all buf.reverse next)

/-! ## Numerals -/

/-- `ds` is how `n` is written, without leading zeros. -/
structure IsNumeral (ds : List Byte) (n : Nat) : Prop where
  ne_nil : ds ≠ []
  digits : ∀ c ∈ ds, isDigit c = true
  value : decimalValue ds = n
  leading : ds.head? = some (chr '0') → ds = [chr '0']

theorem digit_isDigit {i : Nat} (h : i < 10) :
    isDigit (digit i) = true ∧ (digit i).toNat = 0x30 + i := by
  have hall :
    ∀ j : Fin 10, isDigit (digit j.val) = true ∧ (digit j.val).toNat = 0x30 + j.val := by decide
  exact hall ⟨i, h⟩

theorem decimalValue_snoc (ds : List Byte) (c : Byte) :
    decimalValue (ds ++ [c]) = decimalValue ds * 10 + (c.toNat - 0x30) := by
  simp [decimalValue]

theorem numeral_small {n : Nat} (h : n < 10) : bytesOf (Nat.toDigits 10 n) = [digit n] := by
  rw [Nat.toDigits_of_lt_base h]
  rfl

theorem numeral_step {n : Nat} (h : 10 ≤ n) :
    bytesOf (Nat.toDigits 10 n) = bytesOf (Nat.toDigits 10 (n / 10)) ++ [digit (n % 10)] := by
  unfold bytesOf
  rw [Nat.toDigits_of_base_le (by omega) h, List.map_append]
  rfl

theorem numeral_head {n : Nat} (h : 0 < n) : (bytesOf (Nat.toDigits 10 n)).head? ≠ some (chr '0') := by
  induction n using Nat.strong_induction_on with
  | _ n ih =>
    by_cases hn : n < 10
    · rw [numeral_small hn, List.head?_cons]
      intro heq
      have hval := congrArg BitVec.toNat (Option.some.inj heq)
      rw [(digit_isDigit hn).2] at hval
      have hzero : (chr '0').toNat = 0x30 := rfl
      omega
    · have hne : bytesOf (Nat.toDigits 10 (n / 10)) ≠ [] := by simp [bytesOf]
      rw [numeral_step (by omega), List.head?_append_of_ne_nil _ hne]
      exact ih (n / 10) (by omega) (by omega)

theorem isNumeral (n : Nat) : IsNumeral (bytesOf (Nat.toDigits 10 n)) n := by
  induction n using Nat.strong_induction_on with
  | _ n ih =>
    by_cases hn : n < 10
    · obtain ⟨hdig, hval⟩ := digit_isDigit hn
      rw [numeral_small hn]
      refine ⟨by simp, by simpa using hdig, ?_, fun hz => by simpa using hz⟩
      rw [← List.nil_append [digit n], decimalValue_snoc, hval]
      simp [decimalValue]
    · obtain ⟨hdig, hval⟩ := digit_isDigit (Nat.mod_lt n (show 0 < 10 by omega))
      have hih := ih (n / 10) (by omega)
      have hhead := numeral_head (show 0 < n by omega)
      rw [numeral_step (by omega)] at hhead ⊢
      refine ⟨by simp, ?_, ?_, fun hz => absurd hz hhead⟩
      · intro c hc
        rcases List.mem_append.mp hc with hc | hc
        · exact hih.digits c hc
        · rw [List.mem_singleton.mp hc]
          exact hdig
      · rw [decimalValue_snoc, hih.value, hval]
        omega

theorem decimal_length (v : Word) : (decimal v).length ≤ 10 := by
  have hv := v.isLt
  unfold decimal bytesOf
  rw [List.length_map, Nat.length_toDigits_le_iff (by omega) (by omega)]
  omega

/-! ## The printers -/

theorem uart_print_dec_eq (v : Word) : uart_print_dec v = some (decimal v) := by
  unfold uart_print_dec
  by_cases hz : v = 0#32
  · rw [if_pos hz, hz]
    rfl
  · have hv := v.isLt
    rw [if_neg hz, dec_digits_eq 10 v [] (by omega) hz]
    simp

/-- One `sys_write` for each byte. -/
theorem putc_all_eq (cs : List Byte) (next : UProg) :
    putc_all cs next = cs.foldr (fun c p => .write [c] p) next := by
  induction cs with
  | nil => rfl
  | cons c cs ih =>
    rw [putc_all, ih]
    rfl

theorem ulib_putu_eq (v : Word) (next : UProg) :
    ulib_putu v next = some ((decimal v).foldr (fun c p => .write [c] p) next) := by
  rw [← putc_all_eq]
  unfold ulib_putu
  by_cases hz : v = 0#32
  · rw [if_pos hz, hz]
    rfl
  · have hv := v.isLt
    rw [if_neg hz, dec_digits_eq 11 v [] (by omega) hz]
    simp

/-- Also for the lowest number, whose negation does not fit. -/
theorem neg_toNat {v : Word} (h : v.toInt < 0) : (-(v + 1#32) + 1#32).toNat = v.toInt.natAbs := by
  have hv := v.isLt
  rw [BitVec.toInt_eq_toNat_cond] at h ⊢
  rw [BitVec.toNat_add, BitVec.toNat_neg, BitVec.toNat_add, BitVec.toNat_ofNat]
  split at h
  · omega
  · rename_i hbig
    rw [if_neg hbig]
    omega

theorem uart_print_int_eq (v : Word) : uart_print_int v =
    some ((if v.toInt < 0 then [chr '-'] else []) ++ bytesOf (Nat.toDigits 10 v.toInt.natAbs)) := by
  have hslt : v.slt 0#32 = decide (v.toInt < 0) := by simp [BitVec.slt]
  unfold uart_print_int
  rw [hslt]
  by_cases hneg : v.toInt < 0
  · rw [if_pos (by simpa using hneg), uart_print_dec_eq, if_pos hneg, decimal, neg_toNat hneg]
    rfl
  · have habs : v.toInt.natAbs = v.toNat := by
      have hv := v.isLt
      rw [BitVec.toInt_eq_toNat_cond] at hneg ⊢
      split at hneg
      · rename_i hsmall
        rw [if_pos hsmall]
        omega
      · omega
    rw [if_neg (by simpa using hneg), uart_print_dec_eq, if_neg hneg, habs]
    rfl

/-! ## ulib_atoi -/

theorem atoi_decimal {v : Word} {suffix : CStr} (hs : ∀ c, suffix.head? = some c → isDigit c = false) :
    ulib_atoi (decimal v ++ suffix) = v := by
  have hnum : IsNumeral (decimal v) v.toNat := isNumeral v.toNat
  have htail : suffix.takeWhile isDigit = [] := by
    rcases suffix with _ | ⟨c, s⟩
    · rfl
    · exact List.takeWhile_cons_of_neg (by simp [hs c rfl])
  have htake : (decimal v ++ suffix).takeWhile isDigit = decimal v := by
    rw [List.takeWhile_append_of_pos hnum.digits, htail, List.append_nil]
  apply BitVec.eq_of_toNat_eq
  rw [ulib_atoi_toNat, htake, hnum.value, Nat.mod_eq_of_lt v.isLt]

/-- The three printers write the same numeral, `ulib_putu` with one `sys_write` for each digit, and
`ulib_atoi` is their inverse where it does not overflow. -/
theorem decimals_agree (v : Word) :
    (∀ size cap buf, cap ≤ size → buf.length + (decimal v).length ≤ cap →
      put_dec size cap v buf = some (buf ++ decimal v)) ∧
    (∀ next, ulib_putu v next = some ((decimal v).foldr (fun c p => .write [c] p) next)) ∧
    uart_print_dec v = some (decimal v) ∧
    IsNumeral (decimal v) v.toNat ∧
    (∀ room tmp, 10 ≤ room → dec_digits room v [] = some tmp → tmp.length ≤ 10) ∧
    (∃ ds, uart_print_int v = some ((if v.toInt < 0 then [chr '-'] else []) ++ ds) ∧
      IsNumeral ds v.toInt.natAbs) ∧
    (v.toNat < 2 ^ 31 → ∀ suffix : CStr, (∀ c, suffix.head? = some c → isDigit c = false) →
      (ulib_atoi (decimal v ++ suffix)).toInt = v.toNat) := by
  refine ⟨?_, ulib_putu_eq v, uart_print_dec_eq v, isNumeral v.toNat, ?_,
    ⟨_, uart_print_int_eq v, isNumeral _⟩, ?_⟩
  · intro size cap buf hs hroom
    rw [put_dec_eq hs (by omega), Lib.clip_room hroom]
  · intro room tmp hroom htmp
    by_cases hz : v = 0#32
    · subst hz
      obtain ⟨r, rfl⟩ : ∃ r, room = r + 1 := ⟨room - 1, by omega⟩
      rw [dec_digits, if_pos rfl] at htmp
      obtain rfl := Option.some.inj htmp
      simp
    · have hv := v.isLt
      have hpow : 10 ^ 10 ≤ 10 ^ room := Nat.pow_le_pow_right (by omega) hroom
      rw [dec_digits_eq room v [] (by omega) hz] at htmp
      obtain rfl := Option.some.inj htmp
      simpa using decimal_length v
  · intro hv suffix hs
    rw [atoi_decimal hs, BitVec.toInt_eq_toNat_cond, if_pos (by omega)]

end CortexAOS
