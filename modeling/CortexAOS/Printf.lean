import CortexAOS.Ulib
import CortexAOS.Lib.Clip
import CortexAOS.Lib.Numeral

/-!
# ulib_printf

What C leaves undefined is `none`: a store past the end of `buf` or `tmp`, a read behind the
terminator of the format, an argument that is not there or has the wrong type.
-/

namespace CortexAOS

/-! ## The emitters

`buf` is an array of `size` bytes, of which the first `n` are listed. -/

def put_ch (size cap : Nat) (c : Byte) (buf : List Byte) : Option (List Byte) :=
  if buf.length < cap then
    if buf.length < size then some (buf ++ [c]) else none
  else some buf

def put_all (size cap : Nat) : List Byte → List Byte → Option (List Byte)
  | [], buf => some buf
  | c :: cs, buf => do
    let buf ← put_ch size cap c buf
    put_all size cap cs buf

def put_str (size cap : Nat) (s : Option CStr) (buf : List Byte) : Option (List Byte) :=
  put_all size cap (s.getD (ascii "(null)")) buf

/-- The first loop of `put_dec`, with `room` bytes of `tmp[10]` left. -/
def dec_digits : Nat → Word → List Byte → Option (List Byte)
  | 0, v, tmp => if v = 0#32 then some tmp else none
  | room + 1, v, tmp =>
    if v = 0#32 then some tmp
    else dec_digits room (v / 10#32) (tmp ++ [0x30#8 + (v % 10#32).setWidth 8])

/-- The second loop takes `tmp` from its end. -/
def put_dec (size cap : Nat) (v : Word) (buf : List Byte) : Option (List Byte) :=
  if v = 0#32 then put_ch size cap (chr '0') buf
  else do
    let tmp ← dec_digits 10 v []
    put_all size cap tmp.reverse buf

def hex_loop (size cap : Nat) (v : Word) (pad8 : Bool) : List Nat → Bool → List Byte → Option (List Byte)
  | [], _, buf => some buf
  | shift :: shifts, started, buf =>
    let nib := (v >>> shift) &&& 0xF#32
    if pad8 || nib ≠ 0#32 || started || shift = 0 then do
      let buf ← put_ch size cap ((ascii "0123456789abcdef").getD nib.toNat 0#8) buf
      hex_loop size cap v pad8 shifts true buf
    else hex_loop size cap v pad8 shifts started buf

def put_hex (size cap : Nat) (v : Word) (pad8 : Bool) (buf : List Byte) : Option (List Byte) :=
  hex_loop size cap v pad8 [28, 24, 20, 16, 12, 8, 4, 0] false buf

/-! ## ulib_printf -/

def ULIB_LINE_MAX : Nat := 192

/-- An argument as `va_arg` finds it: a word, or the string that it points to. -/
inductive VaArg where
  | word (v : Word)
  | str (s : Option CStr)
  deriving DecidableEq

def va_word : List VaArg → Option (Word × List VaArg)
  | .word v :: ap => some (v, ap)
  | _ => none

def va_str : List VaArg → Option (Option CStr × List VaArg)
  | .str s :: ap => some (s, ap)
  | _ => none

/-- `*p`, where `p` is an index. -/
def fmtAt (fmt : CStr) (p : Nat) : Option Byte := if p ≤ fmt.length then some (fmt.getD p 0#8) else none

/-- The `switch`, which may move `p`. -/
def convert (c : Byte) (p : Nat) (ap : List VaArg) (buf : List Byte) :
    Option (Nat × List VaArg × List Byte) :=
  if c = chr 'u' then do
    let (v, ap) ← va_word ap
    let buf ← put_dec ULIB_LINE_MAX ULIB_LINE_MAX v buf
    some (p, ap, buf)
  else if c = chr 'x' then do
    let (v, ap) ← va_word ap
    let buf ← put_hex ULIB_LINE_MAX ULIB_LINE_MAX v false buf
    some (p, ap, buf)
  else if c = chr 'p' then do
    let (q, ap) ← va_word ap
    let buf ← put_str ULIB_LINE_MAX ULIB_LINE_MAX (some (ascii "0x")) buf
    let buf ← put_hex ULIB_LINE_MAX ULIB_LINE_MAX q true buf
    some (p, ap, buf)
  else if c = chr 's' then do
    let (s, ap) ← va_str ap
    let buf ← put_str ULIB_LINE_MAX ULIB_LINE_MAX s buf
    some (p, ap, buf)
  else if c = chr 'c' then do
    let (v, ap) ← va_word ap
    let buf ← put_ch ULIB_LINE_MAX ULIB_LINE_MAX (v.setWidth 8) buf
    some (p, ap, buf)
  else if c = chr '%' then do
    let buf ← put_ch ULIB_LINE_MAX ULIB_LINE_MAX (chr '%') buf
    some (p, ap, buf)
  else if c = 0#8 then some (p - 1, ap, buf)
  else do
    let buf ← put_ch ULIB_LINE_MAX ULIB_LINE_MAX (chr '%') buf
    let buf ← put_ch ULIB_LINE_MAX ULIB_LINE_MAX c buf
    some (p, ap, buf)

/-- The `for` loop, for at most `n` rounds. -/
def printf_loop (fmt : CStr) : Nat → Nat → List VaArg → List Byte → Option (List VaArg × List Byte)
  | 0, _, _, _ => none
  | n + 1, p, ap, buf => do
    let c ← fmtAt fmt p
    if c = 0#8 then some (ap, buf)
    else if c ≠ chr '%' then do
      let buf ← put_ch ULIB_LINE_MAX ULIB_LINE_MAX c buf
      printf_loop fmt n (p + 1) ap buf
    else do
      let c ← fmtAt fmt (p + 1)
      let (p, ap, buf) ← convert c (p + 1) ap buf
      printf_loop fmt n (p + 1) ap buf

/-- With the arguments that are left. Each round goes on by a character at least. -/
def ulib_printf (fmt : CStr) (ap : List VaArg) (next : UProg) : Option (UProg × List VaArg) := do
  let (ap, buf) ← printf_loop fmt (fmt.length + 1) 0 ap []
  if buf.length > 0 then some (.write buf next, ap) else some (next, ap)

/-! ## The reference -/

def bytesOf (cs : List Char) : List Byte := cs.map chr

def decimal (v : Word) : List Byte := bytesOf (Nat.toDigits 10 v.toNat)

def hexadecimal (v : Word) : List Byte := bytesOf (Nat.toDigits 16 v.toNat)

def address (v : Word) : List Byte := ascii "0x" ++ bytesOf (Lib.fixedDigits 16 8 v.toNat)

inductive Piece where
  | text (s : List Byte)
  | dec | hex | ptr | str | char
  deriving DecidableEq

def conversion (d : Byte) : Piece :=
  if d = chr 'u' then .dec
  else if d = chr 'x' then .hex
  else if d = chr 'p' then .ptr
  else if d = chr 's' then .str
  else if d = chr 'c' then .char
  else if d = chr '%' then .text [chr '%']
  else .text [chr '%', d]

/-- A `%` at the end stands for nothing. -/
def pieces : CStr → List Piece
  | [] => []
  | [c] => if c = chr '%' then [] else [.text [c]]
  | c :: d :: s => if c = chr '%' then conversion d :: pieces s else .text [c] :: pieces (d :: s)

/-- The text of a piece, and the arguments after the one that it takes. -/
def Piece.expand : Piece → List VaArg → Option (List Byte × List VaArg)
  | .text s, args => some (s, args)
  | .dec, .word v :: args => some (decimal v, args)
  | .hex, .word v :: args => some (hexadecimal v, args)
  | .ptr, .word v :: args => some (address v, args)
  | .str, .str s :: args => some (s.getD (ascii "(null)"), args)
  | .char, .word v :: args => some ([v.setWidth 8], args)
  | _, _ => none

/-- The text, if the arguments are those that the pieces call for. -/
def render : List Piece → List VaArg → Option (List Byte)
  | [], args => if args = [] then some [] else none
  | p :: ps, args => do
    let (s, args) ← p.expand args
    let t ← render ps args
    some (s ++ t)

def Piece.arity : Piece → Nat
  | .text _ => 0
  | .dec | .hex | .ptr | .str | .char => 1

/-! ## The emitters fill the buffer -/

section

variable {size cap : Nat} {buf : List Byte}

theorem put_ch_eq (hs : cap ≤ size) (h : buf.length ≤ cap) (c : Byte) :
    put_ch size cap c buf = some (Lib.clip cap buf [c]) := by
  unfold put_ch
  split
  · rw [if_pos (by omega), Lib.clip_room (by simpa using ‹_›)]
  · rw [Lib.clip_full (by omega)]

theorem put_all_eq (hs : cap ≤ size) (h : buf.length ≤ cap) (cs : List Byte) :
    put_all size cap cs buf = some (Lib.clip cap buf cs) := by
  induction cs generalizing buf with
  | nil => rw [put_all, Lib.clip_nil h]
  | cons c cs ih =>
    rw [put_all, put_ch_eq hs h, Option.bind_eq_bind, Option.bind_some, ih (Lib.length_clip_le ..),
      Lib.clip_clip, List.singleton_append]

theorem put_str_eq (hs : cap ≤ size) (h : buf.length ≤ cap) (s : Option CStr) :
    put_str size cap s buf = some (Lib.clip cap buf (s.getD (ascii "(null)"))) := put_all_eq hs h _

/-! ## Decimal -/

theorem decimal_small {v : Word} (h : v.toNat < 10) : decimal v = [digit v.toNat] := by
  unfold decimal bytesOf
  rw [Nat.toDigits_of_lt_base h]
  rfl

theorem decimal_step {v : Word} (h : 10 ≤ v.toNat) :
    decimal v = decimal (v / 10#32) ++ [digit (v.toNat % 10)] := by
  unfold decimal bytesOf
  rw [Nat.toDigits_of_base_le (by omega) h, List.map_append]
  rfl

theorem dec_digit (v : Word) : 0x30#8 + (v % 10#32).setWidth 8 = digit (v.toNat % 10) := by
  rw [← digit_eq (Nat.mod_lt _ (by omega))]
  rfl

theorem dec_digits_eq (room : Nat) (v : Word) (tmp : List Byte) (hv : v.toNat < 10 ^ room)
    (hne : v ≠ 0#32) : dec_digits room v tmp = some (tmp ++ (decimal v).reverse) := by
  induction room generalizing v tmp with
  | zero =>
    exfalso
    apply hne
    apply BitVec.eq_of_toNat_eq
    simpa using hv
  | succ room ih =>
    have hdiv : (v / 10#32).toNat = v.toNat / 10 := BitVec.toNat_udiv
    unfold dec_digits
    rw [if_neg hne, dec_digit]
    by_cases hz : v / 10#32 = 0#32
    · have hsmall : v.toNat < 10 := by
        rw [hz] at hdiv
        have : (0#32).toNat = 0 := rfl
        omega
      have hstop : ∀ tmp', dec_digits room (v / 10#32) tmp' = some tmp' := by
        intro tmp'
        cases room with
        | zero => exact if_pos hz
        | succ room => exact if_pos hz
      rw [hstop, decimal_small hsmall, Nat.mod_eq_of_lt hsmall]
      rfl
    · have hbig : 10 ≤ v.toNat := by
        by_contra hlt
        apply hz
        apply BitVec.eq_of_toNat_eq
        rw [hdiv]
        simp only [BitVec.toNat_ofNat]
        omega
      rw [ih (v / 10#32) _ (by rw [hdiv, Nat.pow_succ] at *; omega) hz, decimal_step hbig]
      simp

theorem put_dec_eq (hs : cap ≤ size) (h : buf.length ≤ cap) (v : Word) :
    put_dec size cap v buf = some (Lib.clip cap buf (decimal v)) := by
  unfold put_dec
  by_cases hz : v = 0#32
  · rw [if_pos hz, put_ch_eq hs h, hz]
    rfl
  · have hv := v.isLt
    rw [if_neg hz, dec_digits_eq 10 v [] (by omega) hz]
    simp [put_all_eq hs h]

/-! ## Hexadecimal -/

def shifts : Nat → List Nat
  | 0 => []
  | k + 1 => 4 * k :: shifts k

theorem nib_toNat (v : Word) (k : Nat) : ((v >>> (4 * k)) &&& 0xF#32).toNat = v.toNat / 16 ^ k % 16 := by
  rw [BitVec.toNat_and, BitVec.toNat_ushiftRight, Nat.shiftRight_eq_div_pow, Nat.pow_mul]
  exact Nat.and_two_pow_sub_one_eq_mod _ 4

theorem nib_zero {v : Word} {k : Nat} (h : v.toNat < 16 ^ k) : (v >>> (4 * k)) &&& 0xF#32 = 0#32 := by
  apply BitVec.eq_of_toNat_eq
  rw [nib_toNat, Nat.div_eq_of_lt h]
  rfl

theorem hex_digit {n : Nat} (h : n < 16) : (ascii "0123456789abcdef").getD n 0#8 = digit n := by
  have hall : ∀ j : Fin 16, (ascii "0123456789abcdef").getD j.val 0#8 = digit j.val := by decide
  exact hall ⟨n, h⟩

theorem fixed_cons (k n : Nat) :
    bytesOf (Lib.fixedDigits 16 (k + 1) n) =
      digit (n / 16 ^ k % 16) :: bytesOf (Lib.fixedDigits 16 k n) := by
  rw [Lib.fixedDigits_cons]
  rfl

theorem top_digit {n k : Nat} (hlow : 16 ^ k ≤ n) (hhigh : n < 16 ^ (k + 1)) : n / 16 ^ k % 16 ≠ 0 := by
  have hpow : 0 < 16 ^ k := Nat.pow_pos (by omega)
  have hpos := Nat.div_pos hlow hpow
  have hlt : n / 16 ^ k < 16 := by
    rw [Nat.div_lt_iff_lt_mul hpow, ← Nat.pow_succ']
    exact hhigh
  omega

theorem hex_emits (hs : cap ≤ size) (h : buf.length ≤ cap) (v : Word) {pad8 started : Bool} {k : Nat}
    (hcond : pad8 = true ∨ v.toNat / 16 ^ k % 16 ≠ 0 ∨ started = true ∨ k = 0) :
    hex_loop size cap v pad8 (shifts (k + 1)) started buf =
      hex_loop size cap v pad8 (shifts k) true (Lib.clip cap buf [digit (v.toNat / 16 ^ k % 16)]) := by
  have hnib := nib_toNat v k
  have hif : (pad8 || ((v >>> (4 * k)) &&& 0xF#32) ≠ 0#32 || started || 4 * k = 0) = true := by
    have hne : v.toNat / 16 ^ k % 16 ≠ 0 → (v >>> (4 * k)) &&& 0xF#32 ≠ 0#32 := by
      intro h0 he
      rw [he] at hnib
      exact h0 hnib.symm
    rcases hcond with hc | hc | hc | hc
    · simp [hc]
    · simp [hne hc]
    · simp [hc]
    · simp [hc]
  rw [shifts, hex_loop, if_pos hif, hnib, hex_digit (Nat.mod_lt _ (by omega)), put_ch_eq hs h]
  rfl

theorem hex_started (hs : cap ≤ size) (h : buf.length ≤ cap) (v : Word) {pad8 started : Bool}
    (hcond : pad8 = true ∨ started = true) (k : Nat) :
    hex_loop size cap v pad8 (shifts k) started buf =
      some (Lib.clip cap buf (bytesOf (Lib.fixedDigits 16 k v.toNat))) := by
  induction k generalizing buf started with
  | zero => exact congrArg some (Lib.clip_nil h).symm
  | succ k ih =>
    rw [hex_emits hs h v (hcond.imp_right fun hc => Or.inr (Or.inl hc)),
      ih (Lib.length_clip_le ..) (Or.inr rfl), Lib.clip_clip, fixed_cons, List.singleton_append]

theorem hex_leading (hs : cap ≤ size) (h : buf.length ≤ cap) (v : Word) (k : Nat)
    (hv : v.toNat < 16 ^ (k + 1)) :
    hex_loop size cap v false (shifts (k + 1)) false buf = some (Lib.clip cap buf (hexadecimal v)) := by
  induction k with
  | zero =>
    rw [hex_emits hs h v (by simp), hex_started hs (Lib.length_clip_le ..) v (Or.inr rfl), Lib.clip_clip,
      List.singleton_append, ← fixed_cons, hexadecimal,
      Lib.toDigits_eq_fixed (by omega) 0 _ (Or.inl rfl) hv]
  | succ k ih =>
    by_cases hlow : 16 ^ (k + 1) ≤ v.toNat
    · rw [hex_emits hs h v (Or.inr (Or.inl (top_digit hlow hv))),
        hex_started hs (Lib.length_clip_le ..) v (Or.inr rfl),
        Lib.clip_clip, List.singleton_append, ← fixed_cons, hexadecimal,
        Lib.toDigits_eq_fixed (by omega) (k + 1) _ (Or.inr hlow) hv]
    · rw [shifts, hex_loop, if_neg (by simp [nib_zero (show v.toNat < 16 ^ (k + 1) by omega)])]
      exact ih (by omega)

theorem put_hex_eq (hs : cap ≤ size) (h : buf.length ≤ cap) (v : Word) :
    put_hex size cap v false buf = some (Lib.clip cap buf (hexadecimal v)) :=
  hex_leading hs h v 7 v.isLt

theorem put_hex_pad_eq (hs : cap ≤ size) (h : buf.length ≤ cap) (v : Word) :
    put_hex size cap v true buf = some (Lib.clip cap buf (bytesOf (Lib.fixedDigits 16 8 v.toNat))) :=
  hex_started hs h v (Or.inl rfl) 8

end

/-! ## The loop -/

section

variable {buf : List Byte} {args args' : List VaArg} {t : List Byte}

theorem expand_arity {q : Piece} (h : q.expand args = some (t, args')) :
    args.length = q.arity + args'.length := by
  unfold Piece.expand at h
  split at h
  case h_1 => cases h; exact (Nat.zero_add _).symm
  case h_7 => cases h
  all_goals
    cases h
    exact Nat.add_comm ..

theorem expand_word {q : Piece} {f : Word → List Byte}
    (hw : ∀ v as, q.expand (.word v :: as) = some (f v, as))
    (hs : ∀ s as, q.expand (.str s :: as) = none) (hn : q.expand [] = none)
    (h : q.expand args = some (t, args')) : ∃ v, args = .word v :: args' ∧ t = f v := by
  rcases args with _ | ⟨⟨v⟩ | ⟨s⟩, as⟩
  · rw [hn] at h; cases h
  · rw [hw] at h; cases h; exact ⟨v, rfl, rfl⟩
  · rw [hs] at h; cases h

theorem expand_str (h : Piece.str.expand args = some (t, args')) :
    ∃ s, args = .str s :: args' ∧ t = s.getD (ascii "(null)") := by
  rcases args with _ | ⟨⟨v⟩ | ⟨s⟩, as⟩
  · cases h
  · cases h
  · cases h; exact ⟨s, rfl, rfl⟩

theorem convert_eq (h : buf.length ≤ ULIB_LINE_MAX) {d : Byte} (hd : d ≠ 0#8) (p : Nat)
    (rest : List VaArg) (hx : (conversion d).expand args = some (t, args')) :
    convert d p (args ++ rest) buf = some (p, args' ++ rest, Lib.clip ULIB_LINE_MAX buf t) := by
  have hle : ∀ cs, (Lib.clip ULIB_LINE_MAX buf cs).length ≤ ULIB_LINE_MAX :=
    fun cs => Lib.length_clip_le ..
  unfold conversion at hx
  unfold convert
  split_ifs at hx ⊢ with hu hx' hp hs hc hpct
  · obtain ⟨v, rfl, rfl⟩ := expand_word (fun _ _ => rfl) (fun _ _ => rfl) rfl hx
    simp [va_word, put_dec_eq le_rfl h]
  · obtain ⟨v, rfl, rfl⟩ := expand_word (fun _ _ => rfl) (fun _ _ => rfl) rfl hx
    simp [va_word, put_hex_eq le_rfl h]
  · obtain ⟨v, rfl, rfl⟩ := expand_word (fun _ _ => rfl) (fun _ _ => rfl) rfl hx
    simp [va_word, put_str_eq le_rfl h, put_hex_pad_eq le_rfl (hle _), Lib.clip_clip, address]
  · obtain ⟨s, rfl, rfl⟩ := expand_str hx
    simp [va_str, put_str_eq le_rfl h]
  · obtain ⟨v, rfl, rfl⟩ := expand_word (fun _ _ => rfl) (fun _ _ => rfl) rfl hx
    simp [va_word, put_ch_eq le_rfl h]
  · cases hx
    simp [put_ch_eq le_rfl h]
  · cases hx
    simp [put_ch_eq le_rfl h, put_ch_eq le_rfl (hle _), Lib.clip_clip]

theorem fmtAt_drop {fmt : CStr} {p : Nat} (h : p ≤ fmt.length) :
    fmtAt fmt p = some (CStr.char (fmt.drop p)) := by
  unfold fmtAt CStr.char
  rw [if_pos h]
  simp [List.headD_eq_head?_getD]

theorem pieces_cons {c : Byte} (hc : c ≠ chr '%') (s : CStr) :
    pieces (c :: s) = .text [c] :: pieces s := by
  rcases s with _ | ⟨d, s⟩
  · simp [pieces, hc]
  · simp [pieces, hc]

theorem render_cons {q : Piece} {ps : List Piece} (h : render (q :: ps) args = some t) :
    ∃ s args' t', q.expand args = some (s, args') ∧ render ps args' = some t' ∧ t = s ++ t' := by
  simp only [render, Option.bind_eq_bind, Option.bind_eq_some_iff, Option.some.injEq] at h
  obtain ⟨⟨s, args'⟩, hx, t', hr, rfl⟩ := h
  exact ⟨s, args', t', hx, hr, rfl⟩

theorem render_nil (h : render [] args = some t) : args = [] ∧ t = [] := by
  simp only [render] at h
  split at h
  · rename_i he
    cases h
    exact ⟨he, rfl⟩
  · cases h

theorem convert_nul (p : Nat) (ap : List VaArg) (buf : List Byte) :
    convert 0#8 p ap buf = some (p - 1, ap, buf) := rfl

/-- From any place of the format on. `n` rounds are enough for the characters that are left. -/
theorem printf_loop_eq {fmt : CStr} (hfmt : 0#8 ∉ fmt) (rest : List VaArg) (n p : Nat)
    (hp : p ≤ fmt.length) (hn : fmt.length - p < n) (h : buf.length ≤ ULIB_LINE_MAX)
    (hr : render (pieces (fmt.drop p)) args = some t) :
    printf_loop fmt n p (args ++ rest) buf = some (rest, Lib.clip ULIB_LINE_MAX buf t) := by
  induction n generalizing p args buf t with
  | zero => omega
  | succ n ih =>
    rw [printf_loop, fmtAt_drop hp, Option.bind_eq_bind, Option.bind_some]
    rcases hdrop : fmt.drop p with _ | ⟨c, s⟩
    · rw [hdrop] at hr
      obtain ⟨rfl, rfl⟩ := render_nil hr
      rw [Lib.clip_nil h]
      rfl
    · have hlt : p < fmt.length := by
        by_contra hge
        rw [List.drop_eq_nil_of_le (by omega)] at hdrop
        cases hdrop
      have hnext : fmt.drop (p + 1) = s := by
        rw [← List.tail_drop, hdrop]
        rfl
      have hmem : ∀ x ∈ c :: s, x ≠ 0#8 := by
        rintro x hx rfl
        rw [← hdrop] at hx
        exact hfmt (List.mem_of_mem_drop hx)
      rw [hdrop] at hr
      rw [CStr.char_cons, if_neg (hmem c (by simp))]
      by_cases hc : c = chr '%'
      · rw [if_neg (not_not.mpr hc), fmtAt_drop hlt, hnext, Option.bind_eq_bind, Option.bind_some]
        rcases s with _ | ⟨d, s⟩
        · -- the lone `%`: the next round finds the terminator
          rw [hc, show pieces [chr '%'] = [] from rfl] at hr
          rw [CStr.char_nil, convert_nul, Option.bind_some]
          exact ih (p + 1) hlt (by omega) h (by rw [hnext]; exact hr)
        · rw [hc, show pieces (chr '%' :: d :: s) = conversion d :: pieces s from rfl] at hr
          obtain ⟨u, args', t', hx, hr', rfl⟩ := render_cons hr
          have hlast : fmt.drop (p + 1 + 1) = s := by
            rw [← List.tail_drop, hnext]
            rfl
          have hlt' : p + 1 < fmt.length := by
            by_contra hge
            rw [List.drop_eq_nil_of_le (by omega)] at hnext
            cases hnext
          rw [CStr.char_cons, convert_eq h (hmem d (by simp)) (p + 1) rest hx,
            Option.bind_some, ← Lib.clip_clip]
          exact ih (p + 1 + 1) hlt' (by omega) (Lib.length_clip_le ..) (by rw [hlast]; exact hr')
      · rw [if_pos hc, put_ch_eq le_rfl h, Option.bind_eq_bind, Option.bind_some]
        rw [pieces_cons hc] at hr
        obtain ⟨u, args', t', hx, hr', rfl⟩ := render_cons hr
        cases hx
        rw [← Lib.clip_clip]
        exact ih (p + 1) hlt (by omega) (Lib.length_clip_le ..) (by rw [hnext]; exact hr')

theorem render_arity {ps : List Piece} (h : render ps args = some t) :
    args.length = (ps.map Piece.arity).sum := by
  induction ps generalizing args t with
  | nil =>
    obtain ⟨rfl, -⟩ := render_nil h
    rfl
  | cons q ps ih =>
    obtain ⟨s, args', t', hx, hr, -⟩ := render_cons h
    rw [List.map_cons, List.sum_cons, ← ih hr, expand_arity hx]

theorem ulib_printf_eq {fmt : CStr} (hfmt : 0#8 ∉ fmt) (hr : render (pieces fmt) args = some t)
    (rest : List VaArg) (next : UProg) : ulib_printf fmt (args ++ rest) next =
      some (if t = [] then next else .write (t.take (min 192 t.length)) next, rest) := by
  have hempty : ([] : List Byte).length ≤ ULIB_LINE_MAX := Nat.zero_le _
  have hloop := printf_loop_eq hfmt rest (fmt.length + 1) 0 (Nat.zero_le _) (by omega) hempty
    (show render (pieces (fmt.drop 0)) args = some t from hr)
  have hclip : Lib.clip ULIB_LINE_MAX [] t = t.take (min 192 t.length) := by
    unfold Lib.clip ULIB_LINE_MAX
    rw [List.nil_append, ← List.take_take, List.take_length]
  unfold ulib_printf
  rw [hloop, hclip, Option.bind_eq_bind, Option.bind_some]
  by_cases ht : t = []
  · simp [ht]
  · have hpos := List.length_pos_iff.mpr ht
    simp only
    rw [if_neg ht, if_pos (by rw [List.length_take]; omega)]

/-- The arguments behind those that the format calls for are left alone. -/
theorem printf_writes_once {fmt : CStr} (hfmt : 0#8 ∉ fmt) (hr : render (pieces fmt) args = some t)
    (rest : List VaArg) (next : UProg) :
    ulib_printf fmt (args ++ rest) next =
        some (if t = [] then next else .write (t.take (min 192 t.length)) next, rest) ∧
      args.length = ((pieces fmt).map Piece.arity).sum :=
  ⟨ulib_printf_eq hfmt hr rest next, render_arity hr⟩

theorem printf_writes_once_all :
    ulib_printf (ascii "%u %x %p %s%c%%%z%")
        [.word 4294967295#32, .word 0xBEEF#32, .word 0x40000000#32, .str none, .word 0x121#32,
          .word 7#32] .done =
      some (.write (ascii "4294967295 beef 0x40000000 (null)!%%z") .done, [.word 7#32]) := by
  have hfmt : 0#8 ∉ ascii "%u %x %p %s%c%%%z%" := by decide
  have hr : render (pieces (ascii "%u %x %p %s%c%%%z%"))
      [.word 4294967295#32, .word 0xBEEF#32, .word 0x40000000#32, .str none, .word 0x121#32] =
      some (ascii "4294967295 beef 0x40000000 (null)!%%z") := by decide +kernel
  exact (printf_writes_once hfmt hr [.word 7#32] .done).1

end

end CortexAOS
