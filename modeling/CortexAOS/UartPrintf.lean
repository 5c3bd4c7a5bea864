import CortexAOS.Decimal

/-!
# uart_printf

As in `ulib_printf`, `none` is what C leaves undefined. So is a string at NULL here: nothing is mapped
at address 0. Bytes are those that are handed to `uart_putc`, in their order.
-/

namespace CortexAOS

/-! ## uart_core.c -/

def uart_puts : Option CStr → Option (List Byte)
  | some s => some s
  | none => none

/-- `uart_putc(hex[(uval >> i) & 0xFU])` for each `i`. -/
def hex_all (uval : Word) (is : List Nat) : List Byte :=
  is.map fun i => (ascii "0123456789abcdef").getD ((uval >>> i) &&& 0xF#32).toNat 0#8

/-- The first loop of `%x`, which stops at the first digit to show. -/
def hex_skip (uval : Word) : List Nat → List Nat
  | [] => []
  | i :: is => if (uval >>> i) &&& 0xF#32 ≠ 0#32 ∨ i = 0 then i :: is else hex_skip uval is

def NIBBLES : List Nat := [28, 24, 20, 16, 12, 8, 4, 0]

/-- The two loops of `%-Ns`. -/
def uart_field (s : Option CStr) (w : Nat) : List Byte :=
  let s := s.getD (ascii "(null)")
  s ++ List.replicate (w - s.length) (chr ' ')

/-- The test for `%-Ns`, and its width. -/
def field_width (fmt : CStr) (p : Nat) : Option (Option Nat) := do
  let c ← fmtAt fmt p
  if c ≠ chr '-' then some none
  else do
    let d ← fmtAt fmt (p + 1)
    if ¬ (chr '1' ≤ d ∧ d ≤ chr '9') then some none
    else do
      let e ← fmtAt fmt (p + 2)
      if e ≠ chr 's' then some none else some (some (d - chr '0').toNat)

def is_08x (fmt : CStr) (p : Nat) : Option Bool := do
  let c ← fmtAt fmt p
  if c ≠ chr '0' then some false
  else do
    let d ← fmtAt fmt (p + 1)
    if d ≠ chr '8' then some false
    else do
      let e ← fmtAt fmt (p + 2)
      some (e = chr 'x')

def uart_switch (c : Byte) (ap : List VaArg) : Option (List Byte × List VaArg) :=
  if c = chr 'c' then do
    let (v, ap) ← va_word ap
    some ([v.setWidth 8], ap)
  else if c = chr 's' then do
    let (s, ap) ← va_str ap
    let out ← uart_puts s
    some (out, ap)
  else if c = chr 'd' then do
    let (v, ap) ← va_word ap
    let out ← uart_print_int v
    some (out, ap)
  else if c = chr 'u' then do
    let (v, ap) ← va_word ap
    let out ← uart_print_dec v
    some (out, ap)
  else if c = chr 'x' then do
    let (uval, ap) ← va_word ap
    some (hex_all uval (hex_skip uval NIBBLES), ap)
  else if c = chr 'p' then do
    let (uval, ap) ← va_word ap
    let out ← uart_puts (some (ascii "0x"))
    some (out ++ hex_all uval NIBBLES, ap)
  else if c = chr '%' then some ([chr '%'], ap)
  else some ([chr '%', c], ap)

/-- What follows a `%`, with the new place in the format. -/
def uart_conversion (fmt : CStr) (p : Nat) (ap : List VaArg) :
    Option (List Byte × Nat × List VaArg) := do
  let width ← field_width fmt p
  match width with
  | some w =>
    let (s, ap) ← va_str ap
    some (uart_field s w, p + 3, ap)
  | none =>
    let wide ← is_08x fmt p
    if wide then do
      let (uval, ap) ← va_word ap
      some (hex_all uval NIBBLES, p + 3, ap)
    else do
      let c ← fmtAt fmt p
      let (out, ap) ← uart_switch c ap
      some (out, p + 1, ap)

/-- The `while` loop, for at most `n` rounds. -/
def uart_printf_loop (fmt : CStr) : Nat → Nat → List VaArg → List Byte → Option (List Byte × List VaArg)
  | 0, _, _, _ => none
  | n + 1, p, ap, out => do
    let c ← fmtAt fmt p
    if c = 0#8 then some (out, ap)
    else if c ≠ chr '%' then uart_printf_loop fmt n (p + 1) ap (out ++ [c])
    else do
      let (s, p, ap) ← uart_conversion fmt (p + 1) ap
      uart_printf_loop fmt n p ap (out ++ s)

/-- With the arguments that are left. Each round goes on by a character at least. -/
def uart_printf (fmt : CStr) (ap : List VaArg) : Option (List Byte × List VaArg) :=
  uart_printf_loop fmt (fmt.length + 1) 0 ap []

/-! ## The reference -/

inductive KPiece where
  | text (s : List Byte)
  | char | str | int | dec | hex | ptr | hex8
  | field (w : Nat)
  deriving DecidableEq

def kconversion (d : Byte) : KPiece :=
  if d = chr 'c' then .char
  else if d = chr 's' then .str
  else if d = chr 'd' then .int
  else if d = chr 'u' then .dec
  else if d = chr 'x' then .hex
  else if d = chr 'p' then .ptr
  else if d = chr '%' then .text [chr '%']
  else .text [chr '%', d]

/-- A `%` at the end stands for nothing. -/
def kpieces : CStr → List KPiece
  | [] => []
  | c :: s =>
    if c ≠ chr '%' then .text [c] :: kpieces s
    else match s with
      | [] => []
      | [d] => [kconversion d]
      | [d, e] => kconversion d :: kpieces [e]
      | d :: e :: f :: s =>
        if d = chr '-' ∧ (chr '1' ≤ e ∧ e ≤ chr '9') ∧
          f = chr 's' then .field (e - chr '0').toNat :: kpieces s
        else if d = chr '0' ∧ e = chr '8' ∧ f = chr 'x' then .hex8 :: kpieces s
        else kconversion d :: kpieces (e :: f :: s)

/-- The format ends in a `%` that begins a conversion. -/
def lonePercent : CStr → Bool
  | [] => false
  | [c] => c = chr '%'
  | c :: d :: s => if c = chr '%' then lonePercent s else lonePercent (d :: s)

inductive ArgKind where
  | word | str
  deriving DecidableEq

def VaArg.kind : VaArg → ArgKind
  | .word _ => .word
  | .str _ => .str

def KPiece.kind : KPiece → Option ArgKind
  | .text _ => none
  | .char | .int | .dec | .hex | .ptr | .hex8 => some .word
  | .str | .field _ => some .str

/-- One argument for each piece that takes one, of the type that it takes. -/
def Matching (ps : List KPiece) (args : List VaArg) : Prop :=
  ps.filterMap KPiece.kind = args.map VaArg.kind

instance (ps : List KPiece) (args : List VaArg) : Decidable (Matching ps args) :=
  inferInstanceAs (Decidable (_ = _))

/-- The pieces that take an argument, each with its argument. -/
def taken (ps : List KPiece) (args : List VaArg) : List (KPiece × VaArg) :=
  (ps.filter fun q => q.kind.isSome).zip args

def charArgs (ps : List KPiece) (args : List VaArg) : List Byte :=
  (taken ps args).filterMap fun
    | (.char, .word v) => some (v.setWidth 8)
    | _ => none

/-- `%s` is given NULL. -/
def NullString (ps : List KPiece) (args : List VaArg) : Prop :=
  (KPiece.str, VaArg.str none) ∈ taken ps args

def KPiece.expand : KPiece → List VaArg → Option (List Byte × List VaArg)
  | .text s, args => some (s, args)
  | .char, .word v :: args => some ([v.setWidth 8], args)
  | .str, .str (some s) :: args => some (s, args)
  | .int, .word v :: args =>
    some ((if v.toInt < 0 then [chr '-'] else []) ++ bytesOf (Nat.toDigits 10 v.toInt.natAbs), args)
  | .dec, .word v :: args => some (decimal v, args)
  | .hex, .word v :: args => some (hexadecimal v, args)
  | .ptr, .word v :: args => some (address v, args)
  | .hex8, .word v :: args => some (bytesOf (Lib.fixedDigits 16 8 v.toNat), args)
  | .field w, .str s :: args => some (uart_field s w, args)
  | _, _ => none

def krender : List KPiece → List VaArg → Option (List Byte)
  | [], _ => some []
  | q :: ps, args => do
    let (s, args) ← q.expand args
    let t ← krender ps args
    some (s ++ t)

/-! ## The conversions -/

theorem hex_all_fixed (v : Word) (k : Nat) :
    hex_all v (shifts k) = bytesOf (Lib.fixedDigits 16 k v.toNat) := by
  induction k with
  | zero => rfl
  | succ k ih =>
    have hdigit : (ascii "0123456789abcdef").getD ((v >>> (4 * k)) &&& 0xF#32).toNat 0#8 =
        digit (v.toNat / 16 ^ k % 16) := by
      rw [nib_toNat, hex_digit (Nat.mod_lt _ (by omega))]
    rw [fixed_cons, ← ih, ← hdigit]
    rfl

theorem hex_all_skip (v : Word) (k : Nat) (hv : v.toNat < 16 ^ (k + 1)) :
    hex_all v (hex_skip v (shifts (k + 1))) = hexadecimal v := by
  induction k with
  | zero =>
    rw [shifts, hex_skip, if_pos (Or.inr rfl), hexadecimal,
      Lib.toDigits_eq_fixed (by omega) 0 _ (Or.inl rfl) hv]
    exact hex_all_fixed v 1
  | succ k ih =>
    rw [shifts, hex_skip]
    by_cases hlow : 16 ^ (k + 1) ≤ v.toNat
    · have hnib : (v >>> (4 * (k + 1))) &&& 0xF#32 ≠ 0#32 := by
        intro hz
        apply top_digit hlow hv
        rw [← nib_toNat, hz]
        rfl
      rw [if_pos (Or.inl hnib), hexadecimal, Lib.toDigits_eq_fixed (by omega) (k + 1) _ (Or.inr hlow) hv]
      exact hex_all_fixed v (k + 2)
    · rw [if_neg (by simp [nib_zero (show v.toNat < 16 ^ (k + 1) by omega)])]
      exact ih (by omega)

theorem switch_eq (c : Byte) (ap : List VaArg) : uart_switch c ap = (kconversion c).expand ap := by
  have hfixed : ∀ v, hex_all v NIBBLES = bytesOf (Lib.fixedDigits 16 8 v.toNat) :=
    fun v => hex_all_fixed v 8
  have hskip : ∀ v, hex_all v (hex_skip v NIBBLES) = hexadecimal v := fun v => hex_all_skip v 7 v.isLt
  unfold uart_switch kconversion
  split_ifs
  all_goals
    rcases ap with _ | ⟨⟨v⟩ | ⟨_ | s⟩, ap⟩ <;>
      simp [va_word, va_str, uart_puts, KPiece.expand, uart_print_int_eq, uart_print_dec_eq, hfixed,
        hskip, address]

/-- The piece that a format continues with after a `%`, and its length. -/
def kstep (s : CStr) : KPiece × Nat :=
  if s.getD 0 0#8 = chr '-' ∧ (chr '1' ≤ s.getD 1 0#8 ∧ s.getD 1 0#8 ≤ chr '9') ∧
    s.getD 2 0#8 = chr 's' then
    (.field (s.getD 1 0#8 - chr '0').toNat, 3)
  else if s.getD 0 0#8 = chr '0' ∧ s.getD 1 0#8 = chr '8' ∧ s.getD 2 0#8 = chr 'x' then (.hex8, 3)
  else (kconversion (s.getD 0 0#8), 1)

theorem kpieces_cons {c : Byte} (hc : c ≠ chr '%') (s : CStr) :
    kpieces (c :: s) = .text [c] :: kpieces s := by
  rw [kpieces.eq_def]
  exact if_pos hc

theorem kpieces_percent {s : CStr} (hs : s ≠ []) :
    kpieces (chr '%' :: s) = (kstep s).1 :: kpieces (s.drop (kstep s).2) := by
  rcases s with _ | ⟨d, _ | ⟨e, _ | ⟨f, s⟩⟩⟩
  · exact absurd rfl hs
  · simp [kpieces, kstep, chr]
  · simp [kpieces, kstep, chr]
  · unfold kstep
    simp only [kpieces, List.getD_cons_zero, List.getD_cons_succ]
    split_ifs <;> simp_all

theorem fmtAt_add {fmt : CStr} {p i : Nat} (h : p + i ≤ fmt.length) :
    fmtAt fmt (p + i) = some ((fmt.drop p).getD i 0#8) := by
  unfold fmtAt
  rw [if_pos h]
  simp

theorem next_inside {fmt : CStr} {p i : Nat} (h : (fmt.drop p).getD i 0#8 ≠ 0#8) :
    p + (i + 1) ≤ fmt.length := by
  by_contra hge
  apply h
  rw [List.getD_eq_getElem?_getD, List.getElem?_eq_none]
  · rfl
  · rw [List.length_drop]
    omega

theorem fmtAt_three {fmt : CStr} {p : Nat} (hp : p ≤ fmt.length) :
    fmtAt fmt p = some ((fmt.drop p).getD 0 0#8) ∧
    ((fmt.drop p).getD 0 0#8 ≠ 0#8 → fmtAt fmt (p + 1) = some ((fmt.drop p).getD 1 0#8)) ∧
    ((fmt.drop p).getD 1 0#8 ≠ 0#8 → fmtAt fmt (p + 2) = some ((fmt.drop p).getD 2 0#8)) :=
  ⟨fmtAt_add (i := 0) hp, fun h => fmtAt_add (next_inside h), fun h => fmtAt_add (next_inside h)⟩

section

variable {fmt : CStr} {p : Nat} {c d e : Byte} (h0 : fmtAt fmt p = some c)
  (h1 : c ≠ 0#8 → fmtAt fmt (p + 1) = some d) (h2 : d ≠ 0#8 → fmtAt fmt (p + 2) = some e)

include h0 h1 h2

theorem field_width_eq : field_width fmt p =
    some (if c = chr '-' ∧ (chr '1' ≤ d ∧ d ≤ chr '9') ∧ e = chr 's' then some (d - chr '0').toNat
      else none) := by
  unfold field_width
  by_cases hc : c = chr '-'
  · have h1' := h1 (by rw [hc]; decide)
    by_cases hd : chr '1' ≤ d ∧ d ≤ chr '9'
    · have h2' := h2 fun hz => absurd (hz ▸ hd.1) (by decide)
      by_cases he : e = chr 's'
      · simp [h0, h1', h2', hc, hd, he]
      · simp [h0, h1', h2', hc, hd, he]
    · simp [h0, h1', hc, hd]
  · simp [h0, hc]

theorem is_08x_eq : is_08x fmt p = some (decide (c = chr '0' ∧ d = chr '8' ∧ e = chr 'x')) := by
  unfold is_08x
  by_cases hc : c = chr '0'
  · have h1' := h1 (by rw [hc]; decide)
    by_cases hd : d = chr '8'
    · have h2' := h2 (by rw [hd]; decide)
      simp [h0, h1', h2', hc, hd]
    · simp [h0, h1', hc, hd]
  · simp [h0, hc]

end

theorem conversion_eq {fmt : CStr} {p : Nat} (hp : p ≤ fmt.length) (ap : List VaArg) :
    uart_conversion fmt p ap =
    ((kstep (fmt.drop p)).1.expand ap).map fun r => (r.1, p + (kstep (fmt.drop p)).2, r.2) := by
  obtain ⟨h0, h1, h2⟩ := fmtAt_three hp
  unfold uart_conversion kstep
  rw [field_width_eq h0 h1 h2, is_08x_eq h0 h1 h2, h0]
  split_ifs with hfield hwide
  · rcases ap with _ | ⟨⟨v⟩ | ⟨s⟩, ap⟩ <;> simp [va_str, KPiece.expand]
  · have hfixed : ∀ v, hex_all v NIBBLES = bytesOf (Lib.fixedDigits 16 8 v.toNat) :=
      fun v => hex_all_fixed v 8
    rw [decide_eq_true hwide]
    rcases ap with _ | ⟨⟨v⟩ | ⟨s⟩, ap⟩ <;> simp [va_word, KPiece.expand, hfixed]
  · simp only [hwide, switch_eq, decide_false, Option.bind_eq_bind, Option.bind_some, Option.map_eq_bind]
    rfl

theorem lonePercent_cons {c : Byte} (hc : c ≠ chr '%') (s : CStr) :
    lonePercent (c :: s) = lonePercent s := by
  rcases s with _ | ⟨d, s⟩
  · simp [lonePercent, hc]
  · simp [lonePercent, hc]

theorem kstep_inside {s : CStr} (hs : s ≠ []) :
    (kstep s).2 ≤ s.length ∧ 0 < (kstep s).2 ∧
    lonePercent (chr '%' :: s) = lonePercent (s.drop (kstep s).2) := by
  have hthree : ∀ d e f s', s = d :: e :: f :: s' → e ≠ chr '%' → f ≠ chr '%' →
      3 ≤ s.length ∧ lonePercent (chr '%' :: s) = lonePercent (s.drop 3) := by
    rintro d e f s' rfl he hf
    refine ⟨by simp, ?_⟩
    rw [lonePercent, if_pos rfl, lonePercent_cons he, lonePercent_cons hf]
    rfl
  rcases s with _ | ⟨d, s⟩
  · exact absurd rfl hs
  unfold kstep
  split_ifs with hfield hwide
  · rcases s with _ | ⟨e, _ | ⟨f, s⟩⟩
    · simp [chr] at hfield
    · simp [chr] at hfield
    · have he : e ≠ chr '%' := fun he => absurd (show chr '1' ≤ e from hfield.2.1.1) (by rw [he]; decide)
      have hf : f ≠ chr '%' := fun hf => absurd (show f = chr 's' from hfield.2.2) (by rw [hf]; decide)
      obtain ⟨h1, h2⟩ := hthree d e f s rfl he hf
      exact ⟨h1, by simp, h2⟩
  · rcases s with _ | ⟨e, _ | ⟨f, s⟩⟩
    · simp [chr] at hwide
    · simp [chr] at hwide
    · have he : e ≠ chr '%' := fun he => absurd (show e = chr '8' from hwide.2.1) (by rw [he]; decide)
      have hf : f ≠ chr '%' := fun hf => absurd (show f = chr 'x' from hwide.2.2) (by rw [hf]; decide)
      obtain ⟨h1, h2⟩ := hthree d e f s rfl he hf
      exact ⟨h1, by simp, h2⟩
  · refine ⟨by simp, by simp, ?_⟩
    rw [lonePercent, if_pos rfl]
    rfl

/-! ## Matching arguments -/

section

variable {q : KPiece} {ps : List KPiece} {a : VaArg} {args rest : List VaArg} {t : List Byte}

theorem Matching.uncons (h : Matching (q :: ps) args) :
    (∃ s, q = .text s ∧ Matching ps args) ∨ ∃ a as, args = a :: as ∧ q.kind = some a.kind ∧
      Matching ps as := by
  unfold Matching at h
  cases hq : q.kind with
  | none =>
    left
    rw [List.filterMap_cons_none hq] at h
    cases q with
    | text s => exact ⟨s, rfl, h⟩
    | char | str | int | dec | hex | ptr | hex8 | field w => cases hq
  | some κ =>
    right
    rw [List.filterMap_cons_some hq] at h
    rcases args with _ | ⟨a, as⟩
    · cases h
    · rw [List.map_cons] at h
      obtain ⟨hκ, has⟩ := List.cons.inj h
      exact ⟨a, as, rfl, by rw [hκ], has⟩

theorem expand_take (h : q.kind = some a.kind) :
    (∃ s, ∀ as, q.expand (a :: as) = some (s, as)) ∨ (q = .str ∧ a = .str none) := by
  rcases a with ⟨v⟩ | ⟨_ | s⟩
  · left
    cases q with
    | text | str | field => cases h
    | char | int | dec | hex | ptr | hex8 => exact ⟨_, fun _ => rfl⟩
  · cases q with
    | text | char | int | dec | hex | ptr | hex8 => cases h
    | str => exact Or.inr ⟨rfl, rfl⟩
    | field w => exact Or.inl ⟨_, fun _ => rfl⟩
  · left
    cases q with
    | text | char | int | dec | hex | ptr | hex8 => cases h
    | str | field w => exact ⟨_, fun _ => rfl⟩

theorem expand_matching (h : Matching (q :: ps) args) :
    (∃ s as, Matching ps as ∧ ∀ rest, q.expand (args ++ rest) = some (s, as ++ rest)) ∨
      ∀ rest, q.expand (args ++ rest) = none := by
  rcases h.uncons with ⟨s, rfl, hm⟩ | ⟨a, as, rfl, hk, hm⟩
  · exact Or.inl ⟨s, args, hm, fun _ => rfl⟩
  · rcases expand_take hk with ⟨s, hs⟩ | ⟨rfl, rfl⟩
    · exact Or.inl ⟨s, as, hm, fun rest => hs _⟩
    · exact Or.inr fun _ => rfl

theorem krender_cons (q : KPiece) (ps : List KPiece) (args : List VaArg) : krender (q :: ps) args =
    (q.expand args).bind fun r => (krender ps r.2).map fun t => r.1 ++ t := by
  simp [krender, Option.map_eq_bind]

end

/-! ## The loop -/

theorem uart_loop_eq {fmt : CStr} (hfmt : 0#8 ∉ fmt) (rest : List VaArg) (n p : Nat)
    (hp : p ≤ fmt.length)
    (hn : fmt.length - p < n) {args : List VaArg} (hm : Matching (kpieces (fmt.drop p)) args)
    (out : List Byte) :
    uart_printf_loop fmt n p (args ++ rest) out = if lonePercent (fmt.drop p) then none
      else (krender (kpieces (fmt.drop p)) args).map fun t => (out ++ t, rest) := by
  induction n generalizing p args out with
  | zero => omega
  | succ n ih =>
    rw [uart_printf_loop, fmtAt_drop hp, Option.bind_eq_bind, Option.bind_some]
    rcases hdrop : fmt.drop p with _ | ⟨c, s⟩
    · rw [hdrop] at hm
      obtain rfl : args = [] := (List.map_eq_nil_iff.mp (Eq.symm hm))
      simp [CStr.char, lonePercent, kpieces, krender]
    · have hlt : p < fmt.length := by
        by_contra hge
        rw [List.drop_eq_nil_of_le (by omega)] at hdrop
        cases hdrop
      have hnext : fmt.drop (p + 1) = s := by
        rw [← List.tail_drop, hdrop]
        rfl
      have hc0 : c ≠ 0#8 := by
        rintro rfl
        exact hfmt (List.mem_of_mem_drop (hdrop ▸ List.mem_cons_self ..))
      rw [hdrop] at hm
      rw [CStr.char_cons, if_neg hc0]
      by_cases hc : c = chr '%'
      · subst hc
        rw [if_neg (not_not.mpr rfl), conversion_eq hlt, hnext]
        by_cases hs : s = []
        · -- the lone `%`: the default branch steps over the terminator
          subst hs
          have hlen : fmt.length = p + 1 := by
            have := congrArg List.length hnext
            simp at this
            omega
          obtain ⟨n', rfl⟩ : ∃ n', n = n' + 1 := ⟨n - 1, by omega⟩
          have hout : fmtAt fmt (p + 1 + 1) = none := if_neg (by omega)
          have hstep : kstep [] = (.text [chr '%', 0#8], 1) := by decide
          rw [hstep]
          simp [KPiece.expand, uart_printf_loop, hout, lonePercent]
        · obtain ⟨hle, hpos, hlone⟩ := kstep_inside hs
          have hlen : s.length = fmt.length - (p + 1) := by rw [← hnext, List.length_drop]
          have hdrop' : fmt.drop (p + 1 + (kstep s).2) = s.drop (kstep s).2 := by
            rw [← hnext, List.drop_drop]
          rw [kpieces_percent hs] at hm ⊢
          rw [hlone, krender_cons]
          rcases expand_matching hm with ⟨u, as, hm', hx⟩ | hx
          · have hx' := hx []
            rw [List.append_nil, List.append_nil] at hx'
            rw [hx rest, hx', Option.map_some, Option.bind_eq_bind, Option.bind_some, Option.bind_some]
            dsimp only
            rw [ih (p + 1 + (kstep s).2) (by omega) (by omega) (by rw [hdrop']; exact hm'), hdrop',
              Option.map_map]
            simp [Function.comp_def]
          · have hx' := hx []
            rw [List.append_nil] at hx'
            rw [hx rest, hx']
            simp
      · rw [if_pos hc]
        rw [kpieces_cons hc] at hm ⊢
        rw [ih (p + 1) hlt (by omega) (by rw [hnext]; exact hm), hnext, lonePercent_cons hc,
          krender_cons]
        simp [KPiece.expand, Option.map_map, Function.comp_def]

theorem uart_printf_eq {fmt : CStr} (hfmt : 0#8 ∉ fmt) {args : List VaArg}
    (hm : Matching (kpieces fmt) args) (rest : List VaArg) : uart_printf fmt (args ++ rest) =
      if lonePercent fmt then none else (krender (kpieces fmt) args).map fun t => (t, rest) := by
  unfold uart_printf
  simpa using uart_loop_eq hfmt rest (fmt.length + 1) 0 (Nat.zero_le _) (by omega)
    (show Matching (kpieces (fmt.drop 0)) args from hm) []

/-! ## NUL bytes -/

theorem hex_all_nul (v : Word) (is : List Nat) : 0#8 ∉ hex_all v is := by
  intro hmem
  obtain ⟨i, -, hi⟩ := List.mem_map.mp hmem
  have hlt : ((v >>> i) &&& 0xF#32).toNat < 16 := by
    rw [BitVec.toNat_and]
    exact Nat.lt_of_le_of_lt Nat.and_le_right (by decide)
  have hall : ∀ j : Fin 16, (ascii "0123456789abcdef").getD j.val 0#8 ≠ 0#8 := by decide
  exact hall ⟨_, hlt⟩ hi

theorem numeral_nul (n : Nat) : 0#8 ∉ bytesOf (Nat.toDigits 10 n) := by
  intro hmem
  exact absurd ((isNumeral n).digits _ hmem) (by decide)

theorem null_text_nul : 0#8 ∉ ascii "(null)" := by decide

section

variable {q : KPiece} {ps : List KPiece} {a : VaArg} {as args rest : List VaArg} {s t : List Byte}

theorem expand_nul (hq : q ≠ .char) (hk : q.kind = some a.kind) (ha : ∀ u, a = .str (some u) → 0#8 ∉ u)
    (hx : q.expand (a :: as) = some (s, as)) : 0#8 ∉ s := by
  cases q with
  | text => cases hk
  | char => exact absurd rfl hq
  | str =>
    rcases a with ⟨v⟩ | ⟨_ | u⟩
    · cases hk
    · cases hx
    · obtain rfl : u = s := (Prod.mk.inj (Option.some.inj hx)).1
      exact ha u rfl
  | field w =>
    rcases a with ⟨v⟩ | ⟨u⟩
    · cases hk
    · cases hx
      have hu : 0#8 ∉ u.getD (ascii "(null)") := by
        cases u with
        | none => exact null_text_nul
        | some s => exact ha s rfl
      simp only [uart_field, List.mem_append, List.mem_replicate, not_or]
      exact ⟨hu, fun h => absurd h.2 (by decide)⟩
  | int =>
    rcases a with ⟨v⟩ | ⟨u⟩
    · cases hx
      have hsign : 0#8 ∉ if v.toInt < 0 then [chr '-'] else [] := by split <;> decide
      rw [List.mem_append, not_or]
      exact ⟨hsign, numeral_nul _⟩
    · cases hk
  | dec =>
    rcases a with ⟨v⟩ | ⟨u⟩
    · cases hx
      exact numeral_nul _
    · cases hk
  | hex =>
    rcases a with ⟨v⟩ | ⟨u⟩
    · cases hx
      rw [← hex_all_skip v 7 v.isLt]
      exact hex_all_nul v _
    · cases hk
  | ptr =>
    rcases a with ⟨v⟩ | ⟨u⟩
    · cases hx
      rw [address, ← hex_all_fixed, List.mem_append, not_or]
      exact ⟨by decide, hex_all_nul v _⟩
    · cases hk
  | hex8 =>
    rcases a with ⟨v⟩ | ⟨u⟩
    · cases hx
      rw [← hex_all_fixed]
      exact hex_all_nul v _
    · cases hk

theorem taken_text (s : List Byte) (ps : List KPiece) (args : List VaArg) :
    taken (.text s :: ps) args = taken ps args := rfl

theorem taken_take (hk : q.kind = some a.kind) : taken (q :: ps) (a :: as) = (q, a) :: taken ps as := by
  simp [taken, hk]

theorem charArgs_char (v : Word) (ps : List KPiece) (as : List VaArg) :
    charArgs (.char :: ps) (.word v :: as) = v.setWidth 8 :: charArgs ps as := rfl

theorem charArgs_other (hq : q ≠ .char) (hk : q.kind = some a.kind) :
    charArgs (q :: ps) (a :: as) = charArgs ps as := by
  unfold charArgs
  rw [taken_take hk, List.filterMap_cons_none]
  cases q with
  | char => exact absurd rfl hq
  | text | str | int | dec | hex | ptr | hex8 | field => rfl

theorem krender_none_iff (hm : Matching ps args) : krender ps args = none ↔ NullString ps args := by
  induction ps generalizing args with
  | nil => simp [krender, NullString, taken]
  | cons q ps ih =>
    unfold NullString at ih ⊢
    rw [krender_cons]
    rcases hm.uncons with ⟨s, rfl, hm'⟩ | ⟨a, as, rfl, hk, hm'⟩
    · rw [taken_text]
      simpa [KPiece.expand] using ih hm'
    · rw [taken_take hk, List.mem_cons]
      rcases expand_take hk with ⟨s, hs⟩ | ⟨rfl, rfl⟩
      · have hne : (KPiece.str, VaArg.str none) ≠ (q, a) := by
          rintro ⟨⟩
          cases hs []
        simpa [hs, hne] using ih hm'
      · simp [KPiece.expand]

theorem krender_count (hm : Matching ps args) (htext : ∀ s, .text s ∈ ps → 0#8 ∉ s)
    (hstr : ∀ u, .str (some u) ∈ args → 0#8 ∉ u) (hr : krender ps args = some t) :
    t.count 0#8 = (charArgs ps args).count 0#8 := by
  induction ps generalizing args t with
  | nil =>
    cases hr
    rfl
  | cons q ps ih =>
    have htext' : ∀ s, .text s ∈ ps → 0#8 ∉ s := fun s hs => htext s (List.mem_cons_of_mem _ hs)
    rw [krender_cons] at hr
    rcases hm.uncons with ⟨s, rfl, hm'⟩ | ⟨a, as, rfl, hk, hm'⟩
    · obtain ⟨u, hu, rfl⟩ := Option.map_eq_some_iff.mp (show (krender ps args).map _ = some t from hr)
      rw [List.count_append, List.count_eq_zero_of_not_mem (htext s (by simp)), Nat.zero_add]
      exact ih hm' htext' hstr hu
    · obtain ⟨⟨s, as'⟩, hx, hr⟩ := Option.bind_eq_some_iff.mp hr
      have hstr' : ∀ u, .str (some u) ∈ as → 0#8 ∉ u := fun u hu => hstr u (List.mem_cons_of_mem _ hu)
      obtain rfl : as = as' := by
        rcases expand_take hk with ⟨s', hs'⟩ | ⟨rfl, rfl⟩
        · rw [hs'] at hx
          exact (Prod.mk.inj (Option.some.inj hx)).2
        · cases hx
      obtain ⟨u, hu, rfl⟩ := Option.map_eq_some_iff.mp hr
      rw [List.count_append, ih hm' htext' hstr' hu]
      by_cases hq : q = .char
      · subst hq
        rcases a with ⟨v⟩ | ⟨u⟩
        · cases hx
          rw [charArgs_char, ← List.count_append, List.singleton_append]
        · cases hk
      · have hnul := expand_nul hq hk (fun u hu => hstr u (by simp [hu])) hx
        rw [List.count_eq_zero_of_not_mem hnul, Nat.zero_add, charArgs_other hq hk]

end

theorem kconversion_text {d : Byte} {s : List Byte} (h : kconversion d = .text s) :
    s = [chr '%'] ∨ s = [chr '%', d] := by
  unfold kconversion at h
  split_ifs at h
  · exact Or.inl (KPiece.text.inj h).symm
  · exact Or.inr (KPiece.text.inj h).symm

theorem kpieces_text_nul (n : Nat) {fmt : CStr} (hn : fmt.length ≤ n) (hfmt : 0#8 ∉ fmt) {s : List Byte}
    (hs : .text s ∈ kpieces fmt) : 0#8 ∉ s := by
  induction n generalizing fmt with
  | zero =>
    obtain rfl := List.length_eq_zero_iff.mp (Nat.le_zero.mp hn)
    cases hs
  | succ n ih =>
    rcases fmt with _ | ⟨c, fmt⟩
    · cases hs
    · rw [List.length_cons] at hn
      have hfmt' : 0#8 ∉ fmt := fun h => hfmt (List.mem_cons_of_mem _ h)
      by_cases hc : c = chr '%'
      · subst hc
        by_cases hnil : fmt = []
        · subst hnil
          cases hs
        · obtain ⟨-, hpos, -⟩ := kstep_inside hnil
          rw [kpieces_percent hnil] at hs
          rcases List.mem_cons.mp hs with hs | hs
          · unfold kstep at hs
            split_ifs at hs
            obtain ⟨d, fmt', rfl⟩ := List.exists_cons_of_ne_nil hnil
            rcases kconversion_text hs.symm with rfl | rfl
            · decide
            · intro hmem
              rcases List.mem_pair.mp hmem with h | h
              · exact absurd h (by decide)
              · exact hfmt' (by rw [h]; simp)
          · refine ih ?_ (fun h => hfmt' (List.mem_of_mem_drop h)) hs
            rw [List.length_drop]
            omega
      · rw [kpieces_cons hc] at hs
        rcases List.mem_cons.mp hs with hs | hs
        · obtain rfl := KPiece.text.inj hs
          intro hmem
          exact hfmt (by rw [List.mem_singleton.mp hmem]; simp)
        · exact ih (by omega) hfmt' hs

/-! ## Staying inside the format -/

/-- Returns without a read past the terminator, with no NUL but from `%c`, and takes one argument
for each conversion. -/
def PrintsInside (fmt : CStr) (args : List VaArg) : Prop :=
  args.length = ((kpieces fmt).filterMap KPiece.kind).length ∧
  ∀ rest, ∃ out, uart_printf fmt (args ++ rest) = some (out, rest) ∧
    out.count 0#8 = (charArgs (kpieces fmt) args).count 0#8

theorem prints_inside_iff {fmt : CStr} (hfmt : 0#8 ∉ fmt) {args : List VaArg}
    (hm : Matching (kpieces fmt) args) (hstr : ∀ u, .str (some u) ∈ args → 0#8 ∉ u) :
    PrintsInside fmt args ↔ lonePercent fmt = false ∧ ¬ NullString (kpieces fmt) args := by
  have heq := uart_printf_eq hfmt hm
  constructor
  · rintro ⟨-, h⟩
    obtain ⟨out, hout, -⟩ := h []
    rw [heq] at hout
    split at hout
    · cases hout
    · rename_i hlone
      refine ⟨by simpa using hlone, fun hnull => ?_⟩
      rw [(krender_none_iff hm).mpr hnull] at hout
      cases hout
  · rintro ⟨hlone, hnull⟩
    refine ⟨by rw [hm, List.length_map], fun rest => ?_⟩
    obtain ⟨t, ht⟩ := Option.ne_none_iff_exists'.mp fun hn => hnull ((krender_none_iff hm).mp hn)
    refine ⟨t, by rw [heq, hlone, ht]; rfl, ?_⟩
    exact krender_count hm (fun s hs => kpieces_text_nul _ le_rfl hfmt hs) hstr ht

theorem prints_inside_iff_all :
    PrintsInside (ascii "%c%s%d%u%x%p%08x%-7s%%%-5%08")
      [.word 0#32, .str (some (ascii "a")), .word (-1#32), .word 0#32,
      .word 0#32, .word 0#32, .word 0#32, .str none] := by
  rw [prints_inside_iff (by decide) (by decide +kernel)]
  · exact ⟨by decide +kernel, by unfold NullString; decide +kernel⟩
  · intro u hu
    simp only [List.mem_cons, reduceCtorEq, VaArg.str.injEq, Option.some.injEq,
      List.not_mem_nil, or_false, false_or] at hu
    rw [hu]
    decide

/-- A `%` at the end: the terminator is printed and stepped over. -/
theorem lone_percent_runs_on :
    Matching (kpieces (ascii "100%")) [] ∧ ¬ PrintsInside (ascii "100%") [] := by
  refine ⟨by decide +kernel, ?_⟩
  rintro ⟨-, h⟩
  obtain ⟨out, hout, -⟩ := h []
  have hnone : uart_printf (ascii "100%") [] = none := by decide +kernel
  rw [List.append_nil, hnone] at hout
  cases hout

end CortexAOS
