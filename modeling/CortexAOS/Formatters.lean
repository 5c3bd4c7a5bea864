import CortexAOS.UartPrintf
import CortexAOS.Syscall

/-!
# uart_printf and ulib_printf

On the conversions that both have, the console chip sees the same bytes from a kernel message and from
a user message.
-/

namespace CortexAOS

variable {cfg : Config}

/-! ## What the chip sees -/

def putcs (o : List (Obs cfg)) : List Byte := o.filterMap fun
  | .putc c => some c
  | _ => none

/-- The user thread has `bytes` at `buf`. -/
structure Buffered (umem : Word → Byte) (buf : Word) (bytes : List Byte) : Prop where
  valid : valid_user_ptr buf (BitVec.ofNat 32 bytes.length) = true
  holds : ∀ i < bytes.length, umem (buf + BitVec.ofNat 32 i) = bytes.getD i 0#8

/-- What the kernel does for a program that only writes, wherever it keeps its bytes. -/
inductive UProg.Shows (k : Kernel cfg) : UProg → List (Obs cfg) → Prop
  | done : Shows k .done []
  | write {bytes : List Byte} {next : UProg} {umem : Word → Byte} {buf : Word} {o : List (Obs cfg)} :
      Buffered umem buf bytes → Shows k next o →
      Shows k (.write bytes next) ((sys_write k umem buf (BitVec.ofNat 32 bytes.length)).2.1 ++ o)

/-- Ordinary characters and `%u %x %p %s %c %%` only. -/
def Common : CStr → Bool
  | [] => true
  | [c] => c ≠ chr '%'
  | c :: d :: s => if c = chr '%' then (ascii "uxpsc%").contains d && Common s else Common (d :: s)

theorem sys_write_putcs {umem : Word → Byte} {buf : Word} {bytes : List Byte}
    (h : Buffered umem buf bytes) (hlen : bytes.length < 2 ^ 32) (k : Kernel cfg) :
    putcs (sys_write k umem buf (BitVec.ofNat 32 bytes.length)).2.1 =
      putcs (bytes.flatMap uart_putc : List (Obs cfg)) := by
  have hbytes : bytes = (List.range bytes.length).map fun i => bytes.getD i 0#8 := by
    apply List.ext_getElem
    · simp
    · intro i h1 h2
      simp [h1]
  have hto : (BitVec.ofNat 32 bytes.length).toNat = bytes.length := by
    rw [BitVec.toNat_ofNat, Nat.mod_eq_of_lt hlen]
  unfold sys_write putcs
  rw [h.valid, if_neg (by simp), hto]
  conv_rhs => rw [hbytes]
  simp only [List.filterMap_flatMap, List.flatMap_map]
  apply List.flatMap_congr
  intro i hi
  rw [h.holds i (List.mem_range.mp hi), List.filterMap_cons_none rfl]

/-! ## Formats that both have -/

def Piece.kernel : Piece → KPiece
  | .text s => .text s
  | .dec => .dec
  | .hex => .hex
  | .ptr => .ptr
  | .str => .str
  | .char => .char

theorem kconversion_common {d : Byte} (h : d ∈ ascii "uxpsc%") :
    kconversion d = (conversion d).kernel ∧ d ≠ chr '-' ∧ d ≠ chr '0' := by
  revert d
  decide

theorem kpieces_common {fmt : CStr} (h : Common fmt = true) :
    kpieces fmt = (pieces fmt).map Piece.kernel ∧ lonePercent fmt = false := by
  induction fmt using Common.induct with
  | case1 => exact ⟨rfl, rfl⟩
  | case2 c =>
    have hc : c ≠ chr '%' := by simpa [Common] using h
    refine ⟨?_, by simp [lonePercent, hc]⟩
    rw [kpieces_cons hc]
    simp [pieces, hc, kpieces, Piece.kernel]
  | case3 d s ih =>
    rw [Common, if_pos rfl, Bool.and_eq_true, List.contains_iff_mem] at h
    obtain ⟨hkonv, hminus, hzero⟩ := kconversion_common h.1
    obtain ⟨ih1, ih2⟩ := ih h.2
    have hstep : kstep (d :: s) = (kconversion d, 1) := by simp [kstep, hminus, hzero]
    refine ⟨?_, by rw [lonePercent, if_pos rfl, ih2]⟩
    rw [kpieces_percent (by simp), hstep, pieces, if_pos rfl, List.map_cons, hkonv]
    exact congrArg _ ih1
  | case4 c d s hc ih =>
    rw [Common, if_neg hc] at h
    obtain ⟨ih1, ih2⟩ := ih h
    refine ⟨?_, by rw [lonePercent_cons hc, ih2]⟩
    rw [kpieces_cons hc, pieces_cons hc, ih1]
    rfl

section

variable {q : Piece} {ps : List Piece} {args args' : List VaArg} {s t : List Byte}

theorem expand_kernel (ps : List Piece) (hx : q.expand args = some (s, args')) (hs : .str none ∉ args) :
    q.kernel.expand args = some (s, args') ∧ (.str none ∉ args') ∧
      (Matching (ps.map Piece.kernel) args' → Matching (q.kernel :: ps.map Piece.kernel) args) := by
  have hrest : ∀ a as, .str none ∉ a :: as → VaArg.str none ∉ as :=
    fun a as h hm => h (List.mem_cons_of_mem _ hm)
  have hword : ∀ {f : Word → List Byte}, (∀ v as, q.expand (.word v :: as) = some (f v, as)) →
      (∀ s as, q.expand (.str s :: as) = none) → q.expand [] = none →
      (∀ v as, q.kernel.expand (.word v :: as) = some (f v, as)) → q.kernel.kind = some .word →
      q.kernel.expand args = some (s, args') ∧ (.str none ∉ args') ∧
        (Matching (ps.map Piece.kernel) args' → Matching (q.kernel :: ps.map Piece.kernel) args) := by
    intro f hw hstr hn hk hkind
    obtain ⟨v, rfl, rfl⟩ := expand_word hw hstr hn hx
    refine ⟨hk v args', hrest _ _ hs, fun hm => ?_⟩
    unfold Matching at hm ⊢
    rw [List.filterMap_cons_some hkind, hm]
    rfl
  cases q with
  | text u =>
    cases hx
    exact ⟨rfl, hs, fun hm => hm⟩
  | dec | hex | ptr | char => exact hword (fun _ _ => rfl) (fun _ _ => rfl) rfl (fun _ _ => rfl) rfl
  | str =>
    obtain ⟨u, rfl, rfl⟩ := expand_str hx
    cases u with
    | none => exact absurd (List.mem_cons_self ..) hs
    | some u =>
      refine ⟨rfl, hrest _ _ hs, fun hm => ?_⟩
      unfold Matching at hm ⊢
      rw [List.map_cons, ← hm]
      rfl

theorem krender_of_render (hr : render ps args = some t) (hs : .str none ∉ args) :
    Matching (ps.map Piece.kernel) args ∧ krender (ps.map Piece.kernel) args = some t := by
  induction ps generalizing args t with
  | nil =>
    obtain ⟨rfl, rfl⟩ := render_nil hr
    exact ⟨rfl, rfl⟩
  | cons q ps ih =>
    obtain ⟨s, args', t', hx, hr', rfl⟩ := render_cons hr
    obtain ⟨hx', hs', hmatch⟩ := expand_kernel ps hx hs
    obtain ⟨hm, hk⟩ := ih hr' hs'
    refine ⟨hmatch hm, ?_⟩
    rw [List.map_cons, krender_cons, hx', Option.bind_some, hk]
    rfl

end

/-- The chip gets a carriage return before each newline. -/
theorem putcs_uart_putc (t : List Byte) : putcs (t.flatMap uart_putc : List (Obs cfg)) =
    t.flatMap fun c => if c = 0x0A#8 then [0x0D#8, 0x0A#8] else [c] := by
  unfold putcs
  rw [List.filterMap_flatMap]
  apply List.flatMap_congr
  intro c _
  unfold uart_putc
  split
  · rename_i h
    subst h
    rfl
  · rfl

/-- `t` is the text that both make of the format. -/
theorem formatters_agree {fmt : CStr} (hfmt : 0#8 ∉ fmt) (hc : Common fmt = true)
    {args : List VaArg} {t : List Byte}
    (hr : render (pieces fmt) args = some t) (hs : .str none ∉ args) (hlen : t.length ≤ 192)
    (rest : List VaArg) : ∃ out prog, uart_printf fmt (args ++ rest) = some (out, rest) ∧ out = t ∧
      ulib_printf fmt (args ++ rest) .done = some (prog, rest) ∧
      ∀ k : Kernel cfg, (∃ o, prog.Shows k o) ∧
        ∀ o, prog.Shows k o → putcs o = putcs (out.flatMap uart_putc : List (Obs cfg)) ∧
          putcs o = t.flatMap fun c => if c = 0x0A#8 then [0x0D#8, 0x0A#8] else [c] := by
  obtain ⟨hpieces, hlone⟩ := kpieces_common hc
  obtain ⟨hm, hk⟩ := krender_of_render hr hs
  have hkernel : uart_printf fmt (args ++ rest) = some (t, rest) := by
    rw [uart_printf_eq hfmt (by rw [hpieces]; exact hm), hlone, hpieces, hk]
    rfl
  have huser := ulib_printf_eq hfmt hr rest .done
  rw [Nat.min_eq_right hlen, List.take_length] at huser
  refine ⟨t, _, hkernel, rfl, huser, fun k => ?_⟩
  by_cases ht : t = []
  · subst ht
    refine ⟨⟨[], .done⟩, fun o ho => ?_⟩
    cases ho
    exact ⟨rfl, rfl⟩
  · rw [if_neg ht]
    constructor
    · -- any place in the user section will do
      have hbuf : Buffered (fun va => t.getD (va - USER_VIRT_BASE).toNat 0#8) USER_VIRT_BASE t := by
        refine ⟨?_, fun i hi => ?_⟩
        · have hall : ∀ n : Fin 193, valid_user_ptr USER_VIRT_BASE (BitVec.ofNat 32 n.val) = true := by
            decide +kernel
          exact hall ⟨t.length, by omega⟩
        · rw [BitVec.add_comm, BitVec.add_sub_cancel, BitVec.toNat_ofNat, Nat.mod_eq_of_lt (by omega)]
      exact ⟨_, .write hbuf .done⟩
    · intro o ho
      cases ho with
      | write hbuf hnext =>
        cases hnext
        rw [List.append_nil]
        have hputcs := sys_write_putcs hbuf (by omega) k
        exact ⟨hputcs, hputcs.trans (putcs_uart_putc t)⟩

theorem formatters_agree_line :
    ∃ out prog, uart_printf (ascii "%u %x %p %s%c%%\n")
        [.word 10#32, .word 0xBEEF#32, .word 0#32, .str (some (ascii "a")), .word 0x121#32] =
          some (out, []) ∧
      ulib_printf (ascii "%u %x %p %s%c%%\n")
        [.word 10#32, .word 0xBEEF#32, .word 0#32, .str (some (ascii "a")), .word 0x121#32] .done =
          some (prog, []) ∧
      ∀ o, prog.Shows (boot demo) o → putcs o = putcs (out.flatMap uart_putc : List (Obs demo)) ∧
        putcs o = ascii "10 beef 0x00000000 a!%\r\n" := by
  have hr : render (pieces (ascii "%u %x %p %s%c%%\n"))
      [.word 10#32, .word 0xBEEF#32, .word 0#32, .str (some (ascii "a")), .word 0x121#32] =
      some (ascii "10 beef 0x00000000 a!%\n") := by decide +kernel
  obtain ⟨out, prog, h1, -, h2, h3⟩ :=
    @formatters_agree demo _ (by decide) (by decide) _ _ hr (by decide) (by decide) []
  refine ⟨out, prog, h1, h2, fun o ho => ?_⟩
  obtain ⟨hsame, hbytes⟩ := (h3 (boot demo)).2 o ho
  exact ⟨hsame, hbytes.trans (by decide)⟩

end CortexAOS
