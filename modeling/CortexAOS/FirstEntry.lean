import CortexAOS.Entry
import Mathlib.Tactic.IntervalCases

/-!
# The first entry into a thread

thread.c lays out a frame by hand; context_switch.S and exception_entry.S take it apart. Here the
TCBs, the stacks and the process table are words of one memory, reached by address and offset, and
every access is logged.
-/

namespace CortexAOS

/-! ## thread.h -/

inductive ThreadField where
  | r (i : Fin 13)
  | sp_svc | lr_svc | spsr | sp_usr | lr_usr
  | proc | tid | index | state | kstack_base | kstack_size | user_stack_top
  deriving DecidableEq

namespace ThreadField

/-- `cpu_context_t ctx`, which comes first, and the other fields of `thread_t`, in their order. -/
def order : List ThreadField :=
  List.ofFn r ++
    [sp_svc, lr_svc, spsr, sp_usr, lr_usr, proc, tid, index, state, kstack_base, kstack_size,
    user_stack_top]

def offset (f : ThreadField) : Word := BitVec.ofNat 32 (4 * order.idxOf f)

end ThreadField

def SIZEOF_THREAD : Nat := 4 * ThreadField.order.length

/-! ## context_switch.S -/

def CTX_SP_SVC_OFFSET : Word := 52#32
def CTX_SP_USR_OFFSET : Word := 64#32
def CTX_LR_USR_OFFSET : Word := 68#32
def THREAD_PROC_OFFSET : Word := 72#32
def PROC_PGD_PA_OFFSET : Word := 12#32

theorem offsets_agree :
    ThreadField.sp_svc.offset = CTX_SP_SVC_OFFSET ∧ ThreadField.sp_usr.offset = CTX_SP_USR_OFFSET ∧
    ThreadField.lr_usr.offset = CTX_LR_USR_OFFSET ∧ ThreadField.proc.offset = THREAD_PROC_OFFSET := by
  decide

/-! ## The machine -/

/-- The CPU in SVC mode, and kernel memory by word. -/
structure Arm where
  r : Fin 13 → Word
  sp_usr : Word
  lr_usr : Word
  sp_svc : Word
  lr_svc : Word
  pc : Word
  cpsr : Word
  ttbr0 : Word
  mem : Mem
  /-- The addresses of the words read and written, oldest first. -/
  log : List Word

namespace Arm

def ldr (a : Word) : StateM Arm Word := fun m => (m.mem (a.toNat / 4), { m with log := m.log ++ [a] })

def str (a v : Word) : StateM Arm Unit := fun m =>
  ((), { m with mem := Function.update m.mem (a.toNat / 4) v, log := m.log ++ [a] })

/-- The words from `a` on, the lowest first. -/
def ldm (a : Word) : Nat → StateM Arm (List Word)
  | 0 => pure []
  | n + 1 => do
    let v ← ldr a
    let vs ← ldm (a + 4#32) n
    pure (v :: vs)

def stm (a : Word) : List Word → StateM Arm Unit
  | [] => pure ()
  | v :: vs => do
    str a v
    stm (a + 4#32) vs

def setReg (i : Fin 13) (v : Word) : StateM Arm Unit :=
  modify fun m => { m with r := Function.update m.r i v }

/-! ## thread.c -/

def INIT_STACK_WORDS : Word := 25#32

/-- A loop that clears words is one `stm` of zeros. -/
def thread_build_initial_frame (cfg : Config) (t entry arg : Word) : StateM Arm Unit := do
  let base ← ldr (t + ThreadField.kstack_base.offset)
  let size ← ldr (t + ThreadField.kstack_size.offset)
  let top := base + size
  let frame := top - INIT_STACK_WORDS * 4#32
  stm frame (List.replicate 8 0#32)
  str (frame + 32#32) cfg.ret_from_first_entry
  stm (frame + 36#32) (List.replicate 13 0#32)
  str (frame + 36#32) arg
  str (frame + 88#32) 0#32
  str (frame + 92#32) entry
  str (frame + 96#32) 0x10#32
  str (t + ThreadField.sp_svc.offset) frame
  str (t + ThreadField.lr_svc.offset) 0#32
  str (t + ThreadField.spsr.offset) 0x10#32
  let user_stack_top ← ldr (t + ThreadField.user_stack_top.offset)
  str (t + ThreadField.sp_usr.offset) user_stack_top
  str (t + ThreadField.lr_usr.offset) 0#32

/-! ## context_switch.S -/

/-- `push {r4-r11, lr}` and the three `str` that follow. -/
def save_prev : StateM Arm Unit := do
  let m ← get
  let sp := m.sp_svc - 36#32
  stm sp ((List.range 9).map (Core.calleeSaved m.r m.lr_svc))
  modify fun m => { m with sp_svc := sp }
  str (m.r 0 + CTX_SP_SVC_OFFSET) sp
  str (m.r 0 + CTX_SP_USR_OFFSET) m.sp_usr
  str (m.r 0 + CTX_LR_USR_OFFSET) m.lr_usr

/-- TLBIALL and ICIALLU follow. Kernel addresses are mapped alike in every table. -/
def ctxsw_switch_mm : StateM Arm Unit := do
  let m ← get
  let proc ← ldr (m.r 1 + THREAD_PROC_OFFSET)
  let pgd_pa ← ldr (proc + PROC_PGD_PA_OFFSET)
  modify fun m => { m with ttbr0 := pgd_pa ||| 0x4A#32 }
  setReg 2 0#32

/-- From `.Lload_next` on: the two `ldr` in SYS mode, `ldr sp`, `pop {r4-r11, lr}` and `bx lr`. -/
def load_next : StateM Arm Unit := do
  let m ← get
  let sp_usr ← ldr (m.r 1 + CTX_SP_USR_OFFSET)
  let lr_usr ← ldr (m.r 1 + CTX_LR_USR_OFFSET)
  let sp ← ldr (m.r 1 + CTX_SP_SVC_OFFSET)
  let vs ← ldm sp 9
  modify fun m => { m with
    sp_usr := sp_usr
    lr_usr := lr_usr
    r := fun i => if 4 ≤ i.val ∧ i.val ≤ 11 then vs.getD (i.val - 4) 0#32 else m.r i
    lr_svc := vs.getD 8 0#32
    sp_svc := sp + 36#32
    pc := vs.getD 8 0#32 }

/-- `cmp r2, r3` and `beq .Lload_next`. -/
def compare_procs (prev_proc next_proc : Word) : StateM Arm Unit :=
  if prev_proc = next_proc then load_next
  else do
    ctxsw_switch_mm
    load_next

/-- r0 is `prev` and r1 is `next`. -/
def context_switch : StateM Arm Unit := do
  let m ← get
  if m.r 0 = 0#32 then
    ctxsw_switch_mm
    load_next
  else
    save_prev
    let prev_proc ← ldr (m.r 0 + THREAD_PROC_OFFSET)
    let next_proc ← ldr (m.r 1 + THREAD_PROC_OFFSET)
    setReg 2 prev_proc
    setReg 3 next_proc
    compare_procs prev_proc next_proc

/-! ## exception_entry.S -/

/-- What a load of the PC makes of a word: in ARM state bits 1 and 0 are cleared, in Thumb state bit
0. -/
def branchPc (cpsr v : Word) : Word := if cpsr.getLsbD 5 then v &&& ~~~1#32 else v &&& ~~~3#32

/-- `ldmfd sp!, {r0-r12, lr}`, `rfefd sp!`. The state is that of the loaded CPSR. -/
def ret_from_first_entry : StateM Arm Unit := do
  let m ← get
  let vs ← ldm m.sp_svc 14
  let sp := m.sp_svc + 56#32
  let pc ← ldr sp
  let cpsr ← ldr (sp + 4#32)
  modify fun m => { m with
    r := fun i => vs.getD i.val 0#32
    lr_svc := vs.getD 13 0#32
    pc := branchPc cpsr pc
    cpsr := cpsr
    sp_svc := sp + 8#32 }

/-! ## Blocks of words -/

theorem bind_apply {α β : Type} (x : StateM Arm α) (f : α → StateM Arm β) (m : Arm) :
    (x >>= f) m = f (x m).1 (x m).2 := rfl

theorem get_apply (m : Arm) : (get : StateM Arm Arm) m = (m, m) := rfl

theorem modify_apply (f : Arm → Arm) (m : Arm) : (modify f : StateM Arm PUnit) m = ((), f m) := rfl

/-- `vs` written from word `b` on. -/
def write (mem : Mem) (b : Nat) (vs : List Word) : Mem := fun j =>
  if b ≤ j ∧ j < b + vs.length then vs.getD (j - b) 0#32 else mem j

def addrs (a : Word) : Nat → List Word
  | 0 => []
  | n + 1 => a :: addrs (a + 4#32) n

def InBytes (a : Word) (n : Nat) (x : Word) : Prop := a.toNat ≤ x.toNat ∧ x.toNat < a.toNat + n

theorem write_nil (mem : Mem) (b : Nat) : write mem b [] = mem := by
  funext j
  exact if_neg fun h => by simp at h; omega

theorem write_cons (mem : Mem) (b : Nat) (v : Word) (vs : List Word) :
    write (Function.update mem b v) (b + 1) vs = write mem b (v :: vs) := by
  funext j
  unfold write
  rcases Nat.lt_trichotomy j b with h | h | h
  · rw [if_neg (by omega), if_neg (by omega), Function.update_of_ne (by omega)]
  · subst h
    simp
  · obtain ⟨i, rfl⟩ : ∃ i, j = b + 1 + i := ⟨j - (b + 1), by omega⟩
    rw [Function.update_of_ne (by omega), show b + 1 + i - (b + 1) = i by omega,
      show b + 1 + i - b = i + 1 by omega, List.getD_cons_succ, List.length_cons]
    congr 1
    simp only [eq_iff_iff]
    omega

theorem write_one (mem : Mem) (b : Nat) (v : Word) : Function.update mem b v = write mem b [v] := by
  rw [← write_cons, write_nil]

theorem write_append (mem : Mem) (b : Nat) {n : Nat} (vs ws : List Word) (hn : vs.length = n) :
    write (write mem b vs) (b + n) ws = write mem b (vs ++ ws) := by
  subst hn
  induction vs generalizing mem b with
  | nil => rw [write_nil]; rfl
  | cons v vs ih =>
    rw [← write_cons, List.length_cons, Nat.add_comm vs.length 1, ← Nat.add_assoc, ih, write_cons]
    rfl

theorem write_snoc (mem : Mem) (b : Nat) {n : Nat} (vs : List Word) (v : Word) (hn : vs.length = n) :
    Function.update (write mem b vs) (b + n) v = write mem b (vs ++ [v]) := by
  rw [write_one, write_append mem b vs [v] hn]

theorem write_set (mem : Mem) (b : Nat) (vs : List Word) {i : Nat} (hi : i < vs.length) (v : Word) :
    Function.update (write mem b vs) (b + i) v = write mem b (vs.set i v) := by
  funext j
  unfold write
  rw [List.length_set]
  by_cases hj : j = b + i
  · subst hj
    simp [hi]
  · rw [Function.update_of_ne hj]
    by_cases hin : b ≤ j ∧ j < b + vs.length
    · rw [if_pos hin, if_pos hin, List.getD_eq_getElem?_getD, List.getD_eq_getElem?_getD,
        List.getElem?_set_ne (by omega)]
    · rw [if_neg hin, if_neg hin]

theorem add_four_toNat {a : Word} (h : a.toNat + 4 < 2 ^ 32) : (a + 4#32).toNat = a.toNat + 4 := by
  rw [BitVec.toNat_add, BitVec.toNat_ofNat]
  omega

theorem add_four_aligned {a : Word} (h : a.toNat % 4 = 0) : (a + 4#32).toNat % 4 = 0 := by
  rw [BitVec.toNat_add, BitVec.toNat_ofNat]
  omega

theorem mem_addrs {a x : Word} {n : Nat} (hfit : a.toNat + 4 * n ≤ 2 ^ 32) (hx : x ∈ addrs a n) :
    InBytes a (4 * n) x := by
  induction n generalizing a with
  | zero => cases hx
  | succ n ih =>
    rcases List.mem_cons.mp hx with rfl | hx
    · exact ⟨le_rfl, by omega⟩
    · rcases n with _ | n
      · cases hx
      · have ha := add_four_toNat (show a.toNat + 4 < 2 ^ 32 by omega)
        obtain ⟨h1, h2⟩ := ih (by omega) hx
        exact ⟨by omega, by omega⟩

theorem stm_run {a : Word} (vs : List Word) (ha : a.toNat % 4 = 0)
    (hfit : a.toNat + 4 * vs.length ≤ 2 ^ 32) : stm a vs = fun m =>
      ((), { m with mem := write m.mem (a.toNat / 4) vs, log := m.log ++ addrs a vs.length }) := by
  induction vs generalizing a with
  | nil =>
    funext m
    rw [write_nil, List.length_nil, addrs, List.append_nil]
    rfl
  | cons v vs ih =>
    rw [List.length_cons] at hfit
    funext m
    have hstep : stm a (v :: vs) m = stm (a + 4#32) vs (str a v m).2 := rfl
    rcases vs with _ | ⟨w, vs⟩
    · rw [hstep, ← write_cons, write_nil]
      rfl
    · rw [List.length_cons] at hfit
      have hn := add_four_toNat (show a.toNat + 4 < 2 ^ 32 by omega)
      rw [hstep, ih (add_four_aligned ha) (by rw [hn, List.length_cons]; omega), ← write_cons, hn,
        show (a.toNat + 4) / 4 = a.toNat / 4 + 1 by omega]
      simp [str, addrs]

theorem ldm_run {a : Word} (n : Nat) (ha : a.toNat % 4 = 0) (hfit : a.toNat + 4 * n ≤ 2 ^ 32) :
    ldm a n = fun m =>
      ((List.range n).map fun i => m.mem (a.toNat / 4 + i), { m with log := m.log ++ addrs a n }) := by
  induction n generalizing a with
  | zero =>
    funext m
    rw [addrs, List.append_nil]
    rfl
  | succ n ih =>
    funext m
    have hstep : ldm a (n + 1) m =
        (m.mem (a.toNat / 4) :: (ldm (a + 4#32) n (ldr a m).2).1,
          (ldm (a + 4#32) n (ldr a m).2).2) := rfl
    rcases n with _ | n
    · rw [hstep]
      rfl
    · have hn := add_four_toNat (show a.toNat + 4 < 2 ^ 32 by omega)
      rw [hstep, ih (add_four_aligned ha) (by rw [hn]; omega), hn,
        show (a.toNat + 4) / 4 = a.toNat / 4 + 1 by omega, List.range_succ_eq_map (n := n + 1)]
      simp [ldr, addrs, Nat.add_assoc, Nat.add_comm 1, Function.comp_def]

/-! ## The frame that is built -/

def field (m : Arm) (t : Word) (f : ThreadField) : Word :=
  m.mem (t.toNat / 4 + ThreadField.order.idxOf f)

def NoOverlap (a : Word) (n : Nat) (b : Word) (k : Nat) : Prop :=
  a.toNat + n ≤ b.toNat ∨ b.toNat + k ≤ a.toNat

instance (a : Word) (n : Nat) (b : Word) (k : Nat) : Decidable (NoOverlap a n b k) :=
  inferInstanceAs (Decidable (a.toNat + n ≤ b.toNat ∨ b.toNat + k ≤ a.toNat))

/-- A TCB and its kernel stack. -/
structure Fresh (m : Arm) (t base size : Word) : Prop where
  tcb_aligned : t.toNat % 4 = 0
  tcb_fits : t.toNat + SIZEOF_THREAD ≤ 2 ^ 32
  base_eq : m.field t .kstack_base = base
  size_eq : m.field t .kstack_size = size
  base_aligned : base.toNat % 4 = 0
  size_aligned : size.toNat % 4 = 0
  size_ge : 100 ≤ size.toNat
  fits : base.toNat + size.toNat ≤ 2 ^ 32
  apart : NoOverlap t SIZEOF_THREAD base size.toNat

def frameOf (base size : Word) : Word := base + size - INIT_STACK_WORDS * 4#32

def frameWords (cfg : Config) (entry arg : Word) : List Word :=
  (List.range 25).map (initialFrame cfg entry arg)

theorem idxOf_lt (f : ThreadField) : ThreadField.order.idxOf f < 25 := by
  have hmem : f ∈ ThreadField.order := by
    cases f with
    | r i => exact List.mem_append_left _ (List.mem_ofFn.mpr ⟨i, rfl⟩)
    | sp_svc | lr_svc | spsr | sp_usr | lr_usr | proc | tid | index | state | kstack_base | kstack_size
    | user_stack_top => simp [ThreadField.order]
  exact List.idxOf_lt_length_of_mem hmem

theorem idxOf_ctx :
    ThreadField.order.idxOf .sp_svc = 13 ∧ ThreadField.order.idxOf .lr_svc = 14 ∧
    ThreadField.order.idxOf .spsr = 15 ∧ ThreadField.order.idxOf .sp_usr = 16 ∧
    ThreadField.order.idxOf .lr_usr = 17 := by decide

theorem sizeof_thread : SIZEOF_THREAD = 100 := rfl

theorem field_toNat {t : Word} (h : t.toNat + SIZEOF_THREAD ≤ 2 ^ 32) (f : ThreadField) :
    (t + f.offset).toNat = t.toNat + 4 * ThreadField.order.idxOf f := by
  have hf := idxOf_lt f
  rw [sizeof_thread] at h
  unfold ThreadField.offset
  rw [BitVec.toNat_add, BitVec.toNat_ofNat]
  omega

theorem field_word {t : Word} (h : t.toNat + SIZEOF_THREAD ≤ 2 ^ 32) (f : ThreadField) :
    (t + f.offset).toNat / 4 = t.toNat / 4 + ThreadField.order.idxOf f := by
  rw [field_toNat h f]
  omega

theorem field_inBytes {t : Word} (h : t.toNat + SIZEOF_THREAD ≤ 2 ^ 32) (f : ThreadField) :
    InBytes t SIZEOF_THREAD (t + f.offset) := by
  have hf := idxOf_lt f
  unfold InBytes
  rw [field_toNat h f, sizeof_thread]
  omega

section

variable {m : Arm} {t base size : Word}

theorem Fresh.frame_toNat (h : Fresh m t base size) :
    (frameOf base size).toNat = base.toNat + size.toNat - 100 := by
  have h1 := h.size_ge
  have h2 := h.fits
  unfold frameOf INIT_STACK_WORDS
  rw [BitVec.toNat_sub, BitVec.toNat_add, BitVec.toNat_mul, BitVec.toNat_ofNat, BitVec.toNat_ofNat]
  omega

theorem Fresh.frame_aligned (h : Fresh m t base size) : (frameOf base size).toNat % 4 = 0 := by
  have h1 := h.base_aligned
  have h2 := h.size_aligned
  rw [h.frame_toNat]
  omega

theorem Fresh.frame_fits (h : Fresh m t base size) : (frameOf base size).toNat + 100 ≤ 2 ^ 32 := by
  have h1 := h.size_ge
  have h2 := h.fits
  rw [h.frame_toNat]
  omega

theorem frame_add {frame : Word} (hfit : frame.toNat + 100 ≤ 2 ^ 32) {n : Nat} (hn : n < 100) :
    (frame + BitVec.ofNat 32 n).toNat = frame.toNat + n := by
  rw [BitVec.toNat_add, BitVec.toNat_ofNat]
  omega

theorem frame_writes (cfg : Config) (entry arg : Word) (mem : Mem) (F : Nat) :
    Function.update (Function.update (Function.update (Function.update (write (Function.update
      (write mem F (List.replicate 8 0#32)) (F + 8) cfg.ret_from_first_entry) (F + 9)
        (List.replicate 13 0#32))
      (F + 9) arg) (F + 22) 0#32) (F + 23) entry) (F + 24) 0x10#32 =
        write mem F (frameWords cfg entry arg) := by
  rw [write_snoc mem F _ _ (n := 8) (by simp), write_append mem F _ _ (n := 9) (by simp),
    write_set mem F _ (by simp),
    write_snoc mem F _ _ (n := 22) (by simp), write_snoc mem F _ _ (n := 23) (by simp),
    write_snoc mem F _ _ (n := 24) (by simp)]
  rfl

theorem ctx_writes (mem : Mem) (T : Nat) (v0 v1 v2 v3 v4 : Word) :
    Function.update
      (Function.update (Function.update (Function.update (Function.update mem (T + 13) v0) (T + 14) v1)
      (T + 15) v2) (T + 16) v3) (T + 17) v4 = write mem (T + 13) [v0, v1, v2, v3, v4] := by
  rw [write_one mem, write_snoc mem (T + 13) _ _ (n := 1) rfl, write_snoc mem (T + 13) _ _ (n := 2) rfl,
    write_snoc mem (T + 13) _ _ (n := 3) rfl, write_snoc mem (T + 13) _ _ (n := 4) rfl]
  rfl

theorem write_of_not {mem : Mem} {b j : Nat} {vs : List Word} (h : ¬ (b ≤ j ∧ j < b + vs.length)) :
    write mem b vs j = mem j := if_neg h

theorem length_frameWords (cfg : Config) (entry arg : Word) :
    (frameWords cfg entry arg).length = 25 := by
  simp [frameWords]

theorem Fresh.word_apart (h : Fresh m t base size) {i : Nat} (hi : i < 25) :
    ¬ ((frameOf base size).toNat / 4 ≤ t.toNat / 4 + i ∧
      t.toNat / 4 + i < (frameOf base size).toNat / 4 + 25) := by
  have h1 := h.apart
  have h2 := h.frame_toNat
  have h3 := h.size_ge
  have h4 := h.base_aligned
  have h5 := h.size_aligned
  have h6 := h.tcb_aligned
  unfold NoOverlap at h1
  rw [sizeof_thread] at h1
  omega

theorem build_run (cfg : Config) (entry arg : Word) (h : Fresh m t base size) :
    ∃ l, thread_build_initial_frame cfg t entry arg m = ((), { m with
        mem :=
          write (write m.mem ((frameOf base size).toNat / 4) (frameWords cfg entry arg))
            (t.toNat / 4 + 13)
          [frameOf base size, 0#32, 0x10#32, m.field t .user_stack_top, 0#32]
        log := l }) ∧
      ∀ a ∈ l, a ∈ m.log ∨ InBytes t SIZEOF_THREAD a ∨ InBytes (frameOf base size) 100 a := by
  have hfa := h.frame_aligned
  have hff := h.frame_fits
  have hframe : m.mem ((t + ThreadField.kstack_base.offset).toNat / 4) +
      m.mem ((t + ThreadField.kstack_size.offset).toNat / 4) - INIT_STACK_WORDS * 4#32 =
        frameOf base size := by
    rw [field_word h.tcb_fits, field_word h.tcb_fits]
    exact congrArg₂ (fun a b : Word => a + b - INIT_STACK_WORDS * 4#32) h.base_eq h.size_eq
  have hat : ∀ n, n < 25 → (frameOf base size + BitVec.ofNat 32 (4 * n)).toNat / 4 =
      (frameOf base size).toNat / 4 + n := by
    intro n hn
    rw [frame_add hff (by omega)]
    omega
  have hstm8 := stm_run (a := frameOf base size) (List.replicate 8 0#32) hfa (by simp; omega)
  have hstm13 := stm_run (a := frameOf base size + 36#32) (List.replicate 13 0#32)
    (by rw [frame_add hff (by omega)]; omega) (by rw [frame_add hff (by omega)]; simp; omega)
  obtain ⟨i13, i14, i15, i16, i17⟩ := idxOf_ctx
  unfold thread_build_initial_frame
  simp only [bind_apply, ldr, str, hframe, hstm8, hstm13]
  simp only [field_word h.tcb_fits, i13, i14, i15, i16, i17]
  rw [hat 8 (by omega), hat 9 (by omega), hat 22 (by omega), hat 23 (by omega), hat 24 (by omega)]
  simp only [frame_writes]
  have hust : Function.update (Function.update (Function.update
      (write m.mem ((frameOf base size).toNat / 4) (frameWords cfg entry arg)) (t.toNat / 4 + 13)
        (frameOf base size))
      (t.toNat / 4 + 14) 0#32) (t.toNat / 4 + 15) 16#32
      (t.toNat / 4 + ThreadField.order.idxOf .user_stack_top) = m.field t .user_stack_top := by
    have hlast : ThreadField.order.idxOf .user_stack_top = 24 := by decide
    rw [Function.update_of_ne (by omega), Function.update_of_ne (by omega),
      Function.update_of_ne (by omega),
      write_of_not (by rw [length_frameWords]; exact h.word_apart (idxOf_lt _))]
    rfl
  rw [hust, ctx_writes]
  refine ⟨_, rfl, ?_⟩
  have htcb : ∀ f : ThreadField, t + f.offset ∈ m.log ∨ InBytes t SIZEOF_THREAD (t + f.offset) ∨
      InBytes (frameOf base size) 100 (t + f.offset) :=
        fun f => Or.inr (Or.inl (field_inBytes h.tcb_fits f))
  have hframe' : ∀ n < 25, ∀ k, n + k ≤ 25 → ∀ a ∈ addrs (frameOf base size + BitVec.ofNat 32 (4 * n)) k,
      a ∈ m.log ∨ InBytes t SIZEOF_THREAD a ∨ InBytes (frameOf base size) 100 a := by
    intro n hn k hk a ha
    have hadd := frame_add hff (show 4 * n < 100 by omega)
    obtain ⟨h1, h2⟩ := mem_addrs (by omega) ha
    exact Or.inr (Or.inr ⟨by omega, by omega⟩)
  have hone : ∀ n < 25, frameOf base size + BitVec.ofNat 32 (4 * n) ∈ m.log ∨
      InBytes t SIZEOF_THREAD (frameOf base size + BitVec.ofNat 32 (4 * n)) ∨
      InBytes (frameOf base size) 100 (frameOf base size + BitVec.ofNat 32 (4 * n)) :=
    fun n hn => hframe' n hn 1 (by omega) _ (List.mem_cons_self ..)
  have hzero := hframe' 0 (by omega) 8 (by omega)
  rw [show frameOf base size + BitVec.ofNat 32
    (4 * 0) = frameOf base size from BitVec.add_zero _] at hzero
  simp only [List.forall_mem_append, List.forall_mem_singleton, List.length_replicate, and_assoc]
  exact ⟨fun a ha => Or.inl ha, htcb _, htcb _, hzero, hone 8 (by omega),
    hframe' 9 (by omega) 13 (by omega),
    hone 9 (by omega), hone 22 (by omega), hone 23 (by omega), hone 24 (by omega), htcb _, htcb _,
    htcb _, htcb _, htcb _, htcb _⟩

/-! ## The frame that is taken apart -/

/-- What `context_switch` needs of a thread that has not run yet. -/
structure Framed (cfg : Config) (mem : Mem) (t frame entry arg user_stack_top : Word) : Prop where
  words : ∀ i < 25, mem (frame.toNat / 4 + i) = initialFrame cfg entry arg i
  sp_svc : mem (t.toNat / 4 + 13) = frame
  sp_usr : mem (t.toNat / 4 + 16) = user_stack_top
  lr_usr : mem (t.toNat / 4 + 17) = 0#32

theorem Fresh.framed {cfg : Config} {entry arg : Word} (h : Fresh m t base size) :
    Framed cfg (thread_build_initial_frame cfg t entry arg m).2.mem t (frameOf base size) entry arg
      (m.field t .user_stack_top) := by
  obtain ⟨l, hrun, -⟩ := build_run cfg entry arg h
  rw [hrun]
  refine ⟨?_, ?_, ?_, ?_⟩
  · intro i hi
    have hap := fun k (hk : k < 25) => h.word_apart hk
    simp only
    rw [write_of_not]
    · simp [write, frameWords, hi]
    · simp only [List.length_cons, List.length_nil]
      intro hj
      exact hap ((frameOf base size).toNat / 4 + i - t.toNat / 4) (by omega) (by omega)
  · simp [write]
  · simp [write]
  · simp [write]

variable {cfg : Config} {frame entry arg user_stack_top : Word}

theorem ctx_words (htf : t.toNat + SIZEOF_THREAD ≤ 2 ^ 32) :
    (t + CTX_SP_SVC_OFFSET).toNat / 4 = t.toNat / 4 + 13 ∧
    (t + CTX_SP_USR_OFFSET).toNat / 4 = t.toNat / 4 + 16 ∧
    (t + CTX_LR_USR_OFFSET).toNat / 4 = t.toNat / 4 + 17 := by
  obtain ⟨h13, -, -, h16, h17⟩ := idxOf_ctx
  obtain ⟨h1, h2, h3, -⟩ := offsets_agree
  rw [← h1, ← h2, ← h3, field_word htf, field_word htf, field_word htf, h13, h16, h17]
  exact ⟨rfl, rfl, rfl⟩

theorem ctx_inBytes (htf : t.toNat + SIZEOF_THREAD ≤ 2 ^ 32) :
    InBytes t SIZEOF_THREAD (t + CTX_SP_SVC_OFFSET) ∧ InBytes t SIZEOF_THREAD (t + CTX_SP_USR_OFFSET) ∧
    InBytes t SIZEOF_THREAD (t + CTX_LR_USR_OFFSET) ∧
    InBytes t SIZEOF_THREAD (t + THREAD_PROC_OFFSET) := by
  obtain ⟨h1, h2, h3, h4⟩ := offsets_agree
  rw [← h1, ← h2, ← h3, ← h4]
  exact ⟨field_inBytes htf _, field_inBytes htf _, field_inBytes htf _, field_inBytes htf _⟩

theorem getD_range (f : Nat → Word) {i n : Nat} (hi : i < n) :
    ((List.range n).map f).getD i 0#32 = f i := by
  simp [List.getD, hi]

theorem initialFrame_zero {i : Nat} (h8 : i ≠ 8) (h9 : i ≠ 9) (h23 : i ≠ 23) (h24 : i ≠ 24) :
    initialFrame cfg entry arg i = 0#32 := by
  simp [initialFrame, h8, h9, h23, h24]

theorem load_next_run (hf : Framed cfg m.mem t frame entry arg user_stack_top) (ht : m.r 1 = t)
    (htf : t.toNat + SIZEOF_THREAD ≤ 2 ^ 32) (hfa : frame.toNat % 4 = 0)
    (hff : frame.toNat + 100 ≤ 2 ^ 32) : ∃ l, load_next m = ((), { m with
        sp_usr := user_stack_top
        lr_usr := 0#32
        r := fun i => if 4 ≤ i.val ∧ i.val ≤ 11 then 0#32 else m.r i
        lr_svc := cfg.ret_from_first_entry
        sp_svc := frame + 36#32
        pc := cfg.ret_from_first_entry
        log := l }) ∧
      ∀ a ∈ l, a ∈ m.log ∨ InBytes t SIZEOF_THREAD a ∨ InBytes frame 100 a := by
  obtain ⟨hw1, hw2, hw3⟩ := ctx_words htf
  obtain ⟨hb1, hb2, hb3, -⟩ := ctx_inBytes htf
  have hldm := ldm_run (a := frame) 9 hfa (by omega)
  unfold load_next
  simp only [bind_apply, get_apply, modify_apply, ldr, ht, hw1, hw2, hw3, hf.sp_svc, hf.sp_usr,
    hf.lr_usr, hldm]
  have hpop : ∀ i < 9, ((List.range 9).map fun i => m.mem (frame.toNat / 4 + i)).getD i 0#32 =
      initialFrame cfg entry arg i := by
    intro i hi
    rw [getD_range _ hi, hf.words i (by omega)]
  have hregs : (fun i : Fin 13 => if 4 ≤ i.val ∧ i.val ≤ 11 then
      ((List.range 9).map fun i => m.mem (frame.toNat / 4 + i)).getD (i.val - 4) 0#32 else m.r i) =
      fun i => if 4 ≤ i.val ∧ i.val ≤ 11 then 0#32 else m.r i := by
    funext i
    split
    · rw [hpop _ (by omega), initialFrame_zero] <;> omega
    · rfl
  rw [hregs, hpop 8 (by omega), show initialFrame cfg entry arg 8 = cfg.ret_from_first_entry from rfl]
  refine ⟨_, rfl, ?_⟩
  simp only [List.forall_mem_append, List.forall_mem_singleton, and_assoc]
  refine ⟨fun a ha => Or.inl ha, Or.inr (Or.inl hb2), Or.inr (Or.inl hb3), Or.inr (Or.inl hb1), ?_⟩
  intro a ha
  obtain ⟨h1, h2⟩ := mem_addrs (by omega) ha
  exact Or.inr (Or.inr ⟨h1, by omega⟩)

theorem initialFrame_pc :
    branchPc (initialFrame cfg entry arg 24) (initialFrame cfg entry arg 23) = entry &&& ~~~3#32 :=
  if_neg (by simp [initialFrame])

theorem ret_run (hf : Framed cfg m.mem t frame entry arg user_stack_top) (hsp : m.sp_svc = frame + 36#32)
    (hfa : frame.toNat % 4 = 0) (hff : frame.toNat + 100 ≤ 2 ^ 32) :
    ∃ l, ret_from_first_entry m = ((), { m with
        r := fun i => if i = 0 then arg else 0#32
        lr_svc := 0#32
        pc := entry &&& ~~~3#32
        cpsr := 0x10#32
        sp_svc := frame + 100#32
        log := l }) ∧
      ∀ a ∈ l, a ∈ m.log ∨ InBytes frame 100 a := by
  have h36 : (frame + 36#32).toNat = frame.toNat + 36 := frame_add hff (by omega)
  have h92 : (frame + 36#32 + 56#32).toNat = frame.toNat + 92 := by
    rw [BitVec.add_assoc]
    exact frame_add hff (show 92 < 100 by omega)
  have h96 : (frame + 36#32 + 56#32 + 4#32).toNat = frame.toNat + 96 := by
    rw [BitVec.add_assoc, BitVec.add_assoc]
    exact frame_add hff (show 96 < 100 by omega)
  have hldm := ldm_run (a := frame + 36#32) 14 (by omega) (by omega)
  unfold ret_from_first_entry
  simp only [bind_apply, get_apply, modify_apply, ldr, hsp, hldm]
  have hpop :
      ∀ i < 14, ((List.range 14).map fun i => m.mem ((frame + 36#32).toNat / 4 + i)).getD i 0#32 =
      initialFrame cfg entry arg (i + 9) := by
    intro i hi
    rw [getD_range _ hi, ← hf.words _ (by omega), h36,
      show (frame.toNat + 36) / 4 + i = frame.toNat / 4 + (i + 9) by omega]
  have hregs :
      (fun i : Fin 13 => ((List.range 14).map fun i => m.mem ((frame + 36#32).toNat / 4 + i)).getD i.val
      0#32) = fun i => if i = 0 then arg else 0#32 := by
    funext i
    rw [hpop _ (by omega)]
    split
    · rename_i h0
      rw [h0]
      rfl
    · rename_i h0
      have h0' : i.val ≠ 0 := fun h => h0 (Fin.ext h)
      rw [initialFrame_zero] <;> omega
  rw [hregs, hpop 13 (by omega), h92, h96, show (frame.toNat + 92) / 4 = frame.toNat / 4 + 23 by omega,
    show (frame.toNat + 96) / 4 = frame.toNat / 4 + 24 by
      omega, hf.words 23 (by omega), hf.words 24 (by omega),
    BitVec.add_assoc, BitVec.add_assoc, initialFrame_pc]
  refine ⟨_, rfl, ?_⟩
  simp only [List.forall_mem_append, List.forall_mem_singleton, and_assoc]
  refine ⟨fun a ha => Or.inl ha, ?_, Or.inr ?_, Or.inr ?_⟩
  · intro a ha
    obtain ⟨h1, h2⟩ := mem_addrs (by omega) ha
    exact Or.inr ⟨by omega, by omega⟩
  · unfold InBytes
    omega
  · unfold InBytes
    omega

/-! ## The switch -/

def pushed (m : Arm) : Word := m.sp_svc - 36#32

/-- `prev` is another thread, and runs on its own kernel stack with room for what is pushed. -/
structure Prev (m : Arm) (prev t base size : Word) : Prop where
  tcb_aligned : prev.toNat % 4 = 0
  tcb_fits : prev.toNat + SIZEOF_THREAD ≤ 2 ^ 32
  tcb_apart : NoOverlap prev SIZEOF_THREAD t SIZEOF_THREAD
  tcb_stack : NoOverlap prev SIZEOF_THREAD base size.toNat
  sp_aligned : m.pushed.toNat % 4 = 0
  room : (m.field prev .kstack_base).toNat ≤ m.pushed.toNat
  below : m.pushed.toNat + 36 ≤ (m.field prev .kstack_base).toNat + (m.field prev .kstack_size).toNat
  fits : (m.field prev .kstack_base).toNat + (m.field prev .kstack_size).toNat ≤ 2 ^ 32
  stack_apart : NoOverlap (m.field prev .kstack_base) (m.field prev .kstack_size).toNat base size.toNat
  stack_tcb : NoOverlap (m.field prev .kstack_base) (m.field prev .kstack_size).toNat t SIZEOF_THREAD

/-- `m'` has the same TCB and the same frame of `t` as `m`. -/
structure Keeps (t frame : Word) (m m' : Arm) : Prop where
  tcb : ∀ i < 25, m'.mem (t.toNat / 4 + i) = m.mem (t.toNat / 4 + i)
  frame : ∀ i < 25, m'.mem (frame.toNat / 4 + i) = m.mem (frame.toNat / 4 + i)

theorem Framed.keeps {m' : Arm} (hf : Framed cfg m.mem t frame entry arg user_stack_top)
    (hk : Keeps t frame m m') : Framed cfg m'.mem t frame entry arg user_stack_top := by
  refine ⟨?_, ?_, ?_, ?_⟩
  · intro i hi
    rw [hk.frame i hi, hf.words i hi]
  · rw [hk.tcb 13 (by omega), hf.sp_svc]
  · rw [hk.tcb 16 (by omega), hf.sp_usr]
  · rw [hk.tcb 17 (by omega), hf.lr_usr]

theorem save_prev_run (htf : (m.r 0).toNat + SIZEOF_THREAD ≤ 2 ^ 32) (hpa : m.pushed.toNat % 4 = 0)
    (hpf : m.pushed.toNat + 36 ≤ 2 ^ 32) :
    ∃ mem l, save_prev m = ((), { m with mem := mem, sp_svc := m.pushed, log := l }) ∧
      (∀ j, ¬ (m.pushed.toNat / 4 ≤ j ∧ j < m.pushed.toNat / 4 + 9) →
        ¬ ((m.r 0).toNat / 4 ≤ j ∧ j < (m.r 0).toNat / 4 + 25) → mem j = m.mem j) ∧
      ∀ a ∈ l, a ∈ m.log ∨ InBytes m.pushed 36 a ∨ InBytes (m.r 0) SIZEOF_THREAD a := by
  obtain ⟨hw1, hw2, hw3⟩ := ctx_words htf
  obtain ⟨hb1, hb2, hb3, -⟩ := ctx_inBytes htf
  have hstm :=
    stm_run (a := m.pushed) ((List.range 9).map (Core.calleeSaved m.r m.lr_svc)) hpa (by simp; omega)
  unfold save_prev
  unfold pushed at hstm
  simp only [bind_apply, get_apply, modify_apply, str, hstm, hw1, hw2, hw3]
  refine ⟨_, _, rfl, ?_, ?_⟩
  · intro j hj hj'
    rw [Function.update_of_ne (by omega), Function.update_of_ne (by omega),
      Function.update_of_ne (by omega)]
    apply write_of_not
    simpa [pushed] using hj
  · simp only [List.forall_mem_append, List.forall_mem_singleton, and_assoc]
    refine ⟨fun a ha => Or.inl ha, ?_, Or.inr (Or.inr hb1), Or.inr (Or.inr hb2), Or.inr (Or.inr hb3)⟩
    intro a ha
    simp only [List.length_map, List.length_range] at ha
    exact Or.inr (Or.inl (mem_addrs hpf ha))

/-- Not a word of the stack, or one of its top 25. -/
def Clear (base size a : Word) : Prop := InBytes base size.toNat a → InBytes (frameOf base size) 100 a

theorem NoOverlap.clear {a x : Word} {n : Nat} (h : NoOverlap a n base size.toNat) (hx : InBytes a n x) :
    Clear base size x := by
  unfold NoOverlap at h
  unfold InBytes at hx
  intro hs
  unfold InBytes at hs
  omega

/-- From `m` on, nothing but other memory and scratch registers has changed. -/
structure OnTheWay (t base size : Word) (m m' : Arm) : Prop where
  next : m'.r 1 = t
  keeps : Keeps t (frameOf base size) m m'
  log : ∀ a ∈ m'.log, a ∈ m.log ∨ Clear base size a

theorem OnTheWay.trans {m₁ m₂ m₃ : Arm} (h : OnTheWay t base size m₁ m₂)
    (h' : OnTheWay t base size m₂ m₃) : OnTheWay t base size m₁ m₃ := by
  refine ⟨h'.next, ⟨?_, ?_⟩, ?_⟩
  · intro i hi
    rw [h'.keeps.tcb i hi, h.keeps.tcb i hi]
  · intro i hi
    rw [h'.keeps.frame i hi, h.keeps.frame i hi]
  · intro a ha
    rcases h'.log a ha with ha | ha
    · exact h.log a ha
    · exact Or.inr ha

/-- `t->proc`, as far as `context_switch` reads it, is not in the stack. -/
structure ProcApart (m : Arm) (t base size : Word) : Prop where
  fits : (m.field t .proc).toNat + 16 ≤ 2 ^ 32
  apart : NoOverlap (m.field t .proc) 16 base size.toNat

theorem ProcApart.keeps {m' : Arm} (hp : ProcApart m t base size) (hk : Keeps t frame m m') :
    ProcApart m' t base size := by
  have he : m'.field t .proc = m.field t .proc := hk.tcb _ (idxOf_lt _)
  refine ⟨?_, ?_⟩
  · rw [he]; exact hp.fits
  · rw [he]; exact hp.apart

theorem proc_word (htf : t.toNat + SIZEOF_THREAD ≤ 2 ^ 32) :
    m.mem ((t + THREAD_PROC_OFFSET).toNat / 4) = m.field t .proc := by
  rw [← offsets_agree.2.2.2, field_word htf]
  rfl

theorem switch_mm_way {m₀ : Arm} (h : Fresh m₀ t base size) (ht : m.r 1 = t)
    (hp : ProcApart m t base size) : OnTheWay t base size m (ctxsw_switch_mm m).2 := by
  have hpgd : InBytes (m.field t .proc) 16 (m.field t .proc + PROC_PGD_PA_OFFSET) := by
    have := hp.fits
    unfold InBytes PROC_PGD_PA_OFFSET
    rw [BitVec.toNat_add, BitVec.toNat_ofNat]
    omega
  unfold ctxsw_switch_mm setReg
  simp only [bind_apply, get_apply, modify_apply, ldr, ht, proc_word h.tcb_fits]
  refine ⟨ht, ⟨fun _ _ => rfl, fun _ _ => rfl⟩, ?_⟩
  simp only [List.forall_mem_append, List.forall_mem_singleton, and_assoc]
  exact ⟨fun a ha => Or.inl ha, Or.inr (h.apart.clear (ctx_inBytes h.tcb_fits).2.2.2),
    Or.inr (hp.apart.clear hpgd)⟩

theorem save_prev_way {m₀ : Arm} (h : Fresh m₀ t base size) (ht : m.r 1 = t)
    (hp : Prev m (m.r 0) t base size) : OnTheWay t base size m (save_prev m).2 := by
  obtain ⟨mem, l, hrun, hmem, hlog⟩ := save_prev_run hp.tcb_fits hp.sp_aligned (hp.below.trans hp.fits)
  have h1 := hp.tcb_apart
  have h2 := hp.tcb_stack
  have h3 := hp.stack_apart
  have h4 := hp.stack_tcb
  have h5 := hp.room
  have h6 := hp.below
  have h7 := hp.tcb_aligned
  have h8 := hp.sp_aligned
  have h9 := h.frame_toNat
  have h10 := h.frame_aligned
  have h11 := h.tcb_aligned
  have h12 := h.size_ge
  unfold NoOverlap at h1 h2 h3 h4
  rw [sizeof_thread] at h1 h2 h4
  rw [hrun]
  refine ⟨ht, ⟨?_, ?_⟩, ?_⟩
  · intro i hi
    apply hmem
    · omega
    · omega
  · intro i hi
    apply hmem
    · omega
    · omega
  · intro a ha
    rcases hlog a ha with ha | ha | ha
    · exact Or.inl ha
    · right
      intro hs
      unfold InBytes at ha hs
      omega
    · exact Or.inr (hp.tcb_stack.clear ha)

theorem compare_way {m₀ : Arm} (h : Fresh m₀ t base size) (ht : m.r 1 = t) {prev : Word}
    (hpf : prev.toNat + SIZEOF_THREAD ≤ 2 ^ 32) (hps : NoOverlap prev SIZEOF_THREAD base size.toNat)
    (u v : Word) : OnTheWay t base size m { m with
      r := Function.update (Function.update m.r 2 u) 3 v
      log := m.log ++ [prev + THREAD_PROC_OFFSET] ++ [t + THREAD_PROC_OFFSET] } := by
  refine ⟨ht, ⟨fun _ _ => rfl, fun _ _ => rfl⟩, ?_⟩
  simp only [List.forall_mem_append, List.forall_mem_singleton, and_assoc]
  exact ⟨fun a ha => Or.inl ha, Or.inr (hps.clear (ctx_inBytes hpf).2.2.2),
    Or.inr (h.apart.clear (ctx_inBytes h.tcb_fits).2.2.2)⟩

theorem compare_procs_way {m₀ : Arm} (h : Fresh m₀ t base size) (ht : m.r 1 = t)
    (hproc : ProcApart m t base size)
    (u v : Word) : ∃ m', compare_procs u v m = load_next m' ∧ OnTheWay t base size m m' := by
  unfold compare_procs
  by_cases hsame : u = v
  · rw [if_pos hsame]
    exact ⟨m, rfl, ht, ⟨fun _ _ => rfl, fun _ _ => rfl⟩, fun _ ha => Or.inl ha⟩
  · rw [if_neg hsame, bind_apply]
    exact ⟨_, rfl, switch_mm_way h ht hproc⟩

theorem context_switch_way {m₀ : Arm} (h : Fresh m₀ t base size) (ht : m.r 1 = t)
    (hprev : m.r 0 = 0#32 ∨ Prev m (m.r 0) t base size) (hproc : ProcApart m t base size) :
    ∃ m', context_switch m = load_next m' ∧ OnTheWay t base size m m' := by
  unfold context_switch
  rw [bind_apply, get_apply]
  by_cases hz : m.r 0 = 0#32
  · rw [if_pos hz, bind_apply]
    exact ⟨_, rfl, switch_mm_way h ht hproc⟩
  · have hp := hprev.resolve_left hz
    have hsave := save_prev_way h ht hp
    have hway := hsave.trans (compare_way h hsave.next hp.tcb_fits hp.tcb_stack
      ((save_prev m).2.mem ((m.r 0 + THREAD_PROC_OFFSET).toNat / 4))
      ((save_prev m).2.mem ((t + THREAD_PROC_OFFSET).toNat / 4)))
    rw [if_neg hz]
    simp only [bind_apply, ldr, setReg, modify_apply, ht]
    obtain ⟨m', hrun, hway'⟩ := compare_procs_way h hway.next (hproc.keeps hway.keeps)
      ((save_prev m).2.mem ((m.r 0 + THREAD_PROC_OFFSET).toNat / 4))
      ((save_prev m).2.mem ((t + THREAD_PROC_OFFSET).toNat / 4))
    exact ⟨m', hrun, hway.trans hway'⟩

/-- The thread starts where it was told to, with clean registers and empty stacks. -/
structure Started (m : Arm) (entry arg user_stack_top base size : Word) : Prop where
  mode : m.cpsr &&& 0x1F#32 = 0x10#32
  irq : m.cpsr.getLsbD 7 = false
  fiq : m.cpsr.getLsbD 6 = false
  pc : m.pc = entry
  r0 : m.r 0 = arg
  others : ∀ i, i ≠ 0 → m.r i = 0#32
  sp_usr : m.sp_usr = user_stack_top
  lr_usr : m.lr_usr = 0#32
  sp_svc : m.sp_svc = base + size

/-- An address of ARM code. -/
theorem aligned_pc {entry : Word} (h : entry.toNat % 4 = 0) : entry &&& ~~~3#32 = entry := by
  apply BitVec.eq_of_getLsbD_eq
  intro i hi
  have hmod : (entry &&& 3#32).toNat = 0 := by
    rw [BitVec.toNat_and, ← h]
    exact Nat.and_two_pow_sub_one_eq_mod _ 2
  have hlow : (entry &&& 3#32).getLsbD i = false := by
    rw [BitVec.eq_of_toNat_eq (y := 0#32) hmod, BitVec.getLsbD_zero]
  rw [BitVec.getLsbD_and] at hlow
  rw [BitVec.getLsbD_and, BitVec.getLsbD_not]
  cases he : entry.getLsbD i
  · rfl
  · rw [he, Bool.true_and] at hlow
    rw [hlow]
    simp [hi]

/-- `m₁` is the machine when `context_switch` is called: other code may have run since, but the TCB
and the frame are as they were built. -/
theorem first_entry_decodes (cfg : Config) (entry arg : Word) {m m₁ : Arm} {t base size : Word}
    (h : Fresh m t base size)
    (hk : Keeps t (frameOf base size) (thread_build_initial_frame cfg t entry arg m).2 m₁)
    (ht : m₁.r 1 = t) (hprev : m₁.r 0 = 0#32 ∨ Prev m₁ (m₁.r 0) t base size)
    (hproc : ProcApart m₁ t base size) : (context_switch m₁).2.pc = cfg.ret_from_first_entry ∧
    Started (ret_from_first_entry (context_switch m₁).2).2 (entry &&& ~~~3#32) arg
      (m.field t .user_stack_top) base size ∧
    (entry.toNat % 4 = 0 → (ret_from_first_entry (context_switch m₁).2).2.pc = entry) ∧
    (∀ a ∈ (thread_build_initial_frame cfg t entry arg m).2.log, a ∈ m.log ∨ Clear base size a) ∧
    ∀ a ∈ (ret_from_first_entry (context_switch m₁).2).2.log, a ∈ m₁.log ∨ Clear base size a := by
  have htop : frameOf base size + 100#32 = base + size := by
    unfold frameOf INIT_STACK_WORDS
    exact BitVec.sub_add_cancel _ _
  obtain ⟨m₂, hcs, hway⟩ := context_switch_way h ht hprev hproc
  have hf := (h.framed.keeps hk).keeps hway.keeps
  obtain ⟨l, hload, hl⟩ := load_next_run hf hway.next h.tcb_fits h.frame_aligned h.frame_fits
  obtain ⟨l', hret, hl'⟩ := ret_run (m := (load_next m₂).2) (by rw [hload]; exact hf) (by rw [hload])
    h.frame_aligned h.frame_fits
  obtain ⟨l₀, hbuild, hl₀⟩ := build_run cfg entry arg h
  have hclear : ∀ a, InBytes t SIZEOF_THREAD a ∨ InBytes (frameOf base size) 100 a →
      Clear base size a := by
    rintro a (ha | ha)
    · exact h.apart.clear ha
    · exact fun _ => ha
  rw [hcs, hret]
  refine ⟨by rw [hload], ?_, aligned_pc, ?_, ?_⟩
  · rw [hload]
    exact ⟨by simp, by simp, by simp, rfl, rfl, fun i hi => if_neg hi, rfl, rfl, htop⟩
  · rw [hbuild]
    intro a ha
    exact (hl₀ a ha).imp_right (hclear a)
  · intro a ha
    rcases hl' a ha with ha | ha
    · rw [hload] at ha
      rcases hl a ha with ha | ha
      · exact hway.log a ha
      · exact Or.inr (hclear a ha)
    · exact Or.inr fun _ => ha

end

/-- The frame of `Entry.lean`, which has the TCBs apart from memory, is the one that is built here. -/
theorem boot_frame_eq {cfg : Config} {m m' : Arm} {a : Word} (t : Tid cfg)
    (h : Fresh m a (thread_init cfg t).kstack_base KSTACK_SIZE)
    (hm :
      thread_build_initial_frame cfg a USER_VIRT_BASE (BitVec.ofNat 32 (indexOf t).val) m = ((), m')) :
    (∀ j, ¬ (a.toNat / 4 ≤ j ∧ j < a.toNat / 4 + 25) →
      m'.mem j = CortexAOS.thread_build_initial_frame m.mem t j) ∧
      m'.field a .sp_svc = initialSp t ∧ m'.field a .sp_usr = m.field a .user_stack_top ∧
      m'.field a .lr_usr = 0#32 := by
  have hsp : frameOf (thread_init cfg t).kstack_base KSTACK_SIZE = initialSp t := rfl
  obtain ⟨i13, -, -, i16, i17⟩ := idxOf_ctx
  have hf : Framed cfg _ a _ USER_VIRT_BASE (BitVec.ofNat 32 (indexOf t).val) _ := h.framed
  rw [hm, hsp] at hf
  refine ⟨?_, ?_, ?_, ?_⟩
  · intro j hj
    obtain ⟨l, hrun, -⟩ := build_run cfg USER_VIRT_BASE (BitVec.ofNat 32 (indexOf t).val) h
    rw [hm] at hrun
    obtain rfl := (Prod.mk.inj hrun).2
    rw [hsp]
    simp only
    rw [write_of_not (by simp only [List.length_cons, List.length_nil]; omega)]
    unfold write CortexAOS.thread_build_initial_frame
    rw [length_frameWords]
    split
    · exact getD_range _ (by omega)
    · rfl
  · unfold field
    rw [i13, hf.sp_svc]
  · rw [← hf.sp_usr, ← i16]
    rfl
  · rw [← hf.lr_usr, ← i17]
    rfl

/-- The TCBs of two threads, `threads[0]` at `0xC0200000` and `threads[1]` behind it, and the stacks
`0xC0126000` and `0xC0128000`. Neither has run. -/
def twoThreads : Arm where
  r := fun _ => 7#32
  sp_usr := 7#32
  lr_usr := 7#32
  sp_svc := 0xC0129F00#32
  lr_svc := 7#32
  pc := 7#32
  cpsr := 0x13#32
  ttbr0 := 7#32
  mem := fun j =>
    if j = 0xC0200000 / 4 + 22 then 0xC0126000#32
    else if j = 0xC0200000 / 4 + 18 ∨ j = 0xC0200064 / 4 + 18 then 0xC0300000#32
    else if j = 0xC0200064 / 4 + 22 then 0xC0128000#32
    else if j = 0xC0200000 / 4 + 23 ∨ j = 0xC0200064 / 4 + 23 then 8192#32
    else if j = 0xC0200000 / 4 + 24 then 0x40100000#32
    else 7#32
  log := []

def called (m : Arm) (prev next : Word) : Arm :=
  { m with r := fun i => if i = 0 then prev else if i = 1 then next else m.r i }

theorem called_mem (m : Arm) (prev next : Word) : (m.called prev next).mem = m.mem := rfl

/-- `threads[1]` runs, and `threads[0]` has been built. -/
def switchToFirst (entry : Word) : Arm :=
  (thread_build_initial_frame demo 0xC0200000#32 entry 5#32 twoThreads).2.called 0xC0200064#32
    0xC0200000#32

theorem twoThreads_fresh : Fresh twoThreads 0xC0200000#32 0xC0126000#32 8192#32 :=
  ⟨by decide, by decide, by decide, by decide, by decide, by decide, by decide, by decide, by decide⟩

theorem switchToFirst_keeps (entry : Word) : Keeps 0xC0200000#32 (frameOf 0xC0126000#32 8192#32)
    (thread_build_initial_frame demo 0xC0200000#32 entry 5#32 twoThreads).2 (switchToFirst entry) := by
  unfold switchToFirst
  constructor
  · intro i _
    rw [called_mem]
  · intro i _
    rw [called_mem]

/-- The words that the switch goes by, of both threads. -/
theorem switchToFirst_apart {entry : Word} (he : entry = 0x40000000#32 ∨ entry = 0x40000002#32) :
    Prev (switchToFirst entry) 0xC0200064#32 0xC0200000#32 0xC0126000#32 8192#32 ∧
      ProcApart (switchToFirst entry) 0xC0200000#32 0xC0126000#32 8192#32 := by
  have hbase : (switchToFirst entry).field 0xC0200064#32 .kstack_base = 0xC0128000#32 := by
    rcases he with rfl | rfl <;> decide +kernel
  have hsize : (switchToFirst entry).field 0xC0200064#32 .kstack_size = 8192#32 := by
    rcases he with rfl | rfl <;> decide +kernel
  have hprocs : (switchToFirst entry).field 0xC0200000#32 .proc = 0xC0300000#32 := by
    rcases he with rfl | rfl <;> decide +kernel
  have hpushed : (switchToFirst entry).pushed = 0xC0129EDC#32 := by
    rcases he with rfl | rfl <;> decide +kernel
  refine ⟨⟨by decide, by decide, by decide, by decide, ?_, ?_, ?_, ?_, ?_, ?_⟩, ⟨?_, ?_⟩⟩
  · rw [hpushed]; decide
  · rw [hpushed, hbase]; decide
  · rw [hpushed, hbase, hsize]; decide
  · rw [hbase, hsize]; decide
  · rw [hbase, hsize]; decide
  · rw [hbase, hsize]; decide
  · rw [hprocs]; decide
  · rw [hprocs]; decide

theorem first_entry_decodes_sibling :
    Started (ret_from_first_entry (context_switch (switchToFirst 0x40000000#32)).2).2 0x40000000#32
      5#32 0x40100000#32 0xC0126000#32 8192#32 := by
  obtain ⟨hp, hproc⟩ := switchToFirst_apart (Or.inl rfl)
  exact (first_entry_decodes demo 0x40000000#32 5#32 twoThreads_fresh (switchToFirst_keeps _) rfl
    (Or.inr hp) hproc).2.1

/-- An entry that is no multiple of 4 is not where the thread starts. -/
theorem odd_entry_is_rounded :
    ¬ ∀ (entry arg : Word) (m m₁ : Arm) (t base size : Word), Fresh m t base size →
      Keeps t (frameOf base size) (thread_build_initial_frame demo t entry arg m).2 m₁ → m₁.r 1 = t →
      m₁.r 0 = 0#32 ∨ Prev m₁ (m₁.r 0) t base size → ProcApart m₁ t base size →
      (ret_from_first_entry (context_switch m₁).2).2.pc = entry := by
  intro h
  obtain ⟨hp, hproc⟩ := switchToFirst_apart (Or.inr rfl)
  have hpc :=
    h 0x40000002#32 5#32 twoThreads (switchToFirst 0x40000002#32) 0xC0200000#32 0xC0126000#32 8192#32
    twoThreads_fresh (switchToFirst_keeps _) rfl (Or.inr hp) hproc
  exact absurd hpc (by decide +kernel)

end Arm

end CortexAOS
