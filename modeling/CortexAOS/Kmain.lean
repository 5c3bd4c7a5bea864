import CortexAOS.FirstEntry
import CortexAOS.Start

/-!
# From kmain to the first user instruction

`process_init_all` and `thread_init_all` fill `.bss` and the user slots, the identity map goes, and
`context_switch` takes apart what `thread_init_all` has built. The rest of `kmain` keeps off all that.
-/

namespace CortexAOS

variable {cfg : Config}

/-! ## The kernel's view of memory -/

/-- Words of RAM by their addresses in the high alias. -/
def Board.view (b : Board) (m : Mem) : Mem := fun j => m (j - 0x30000000 + b.RAM_BASE.toNat / 4)

/-- The words below the first user slot, put back. -/
def Board.unview (b : Board) (m v : Mem) : Mem := fun j =>
  if b.RAM_BASE.toNat / 4 ≤ j ∧
    j < b.RAM_BASE.toNat / 4 + 0x80000 then v (j - b.RAM_BASE.toNat / 4 + 0x30000000) else m j

namespace KernelLd

/-- `&threads[t]` and `&processes[p]`. -/
def tcb (l : KernelLd cfg) (t : Tid cfg) : Word :=
  l.threads + BitVec.ofNat 32 t.val * BitVec.ofNat 32 TCB_SIZE

def pcb (l : KernelLd cfg) (p : Pid cfg) : Word :=
  l.processes + BitVec.ofNat 32 p.val * BitVec.ofNat 32 (PCB_SIZE cfg)

end KernelLd

/-! ## thread.c -/

/-- The values of the enumeration. -/
def task_state_t.code : task_state_t → Word
  | TASK_READY => 0#32
  | TASK_RUNNING => 1#32
  | TASK_BLOCKED => 2#32
  | TASK_DEAD => 3#32

namespace Arm

/-- The part of a round that fills in the TCB. It ends with `p->user_entry`. -/
def thread_fill (l : KernelLd cfg) (tid : Tid cfg) : StateM Arm Word := do
  let t := l.tcb tid
  let p := l.pcb (pidOf tid)
  let index := BitVec.ofNat 32 (indexOf tid).val
  str (t + ThreadField.proc.offset) p
  str (t + ThreadField.tid.offset) (BitVec.ofNat 32 tid.val)
  str (t + ThreadField.index.offset) index
  str (t + ThreadField.state.offset) task_state_t.TASK_READY.code
  str (t + ThreadField.kstack_base.offset) (cfg.thread_kstack + BitVec.ofNat 32 tid.val * KSTACK_SIZE)
  str (t + ThreadField.kstack_size.offset) KSTACK_SIZE
  str (t + ThreadField.user_stack_top.offset) (USER_STACK_TOP - index * USER_STACK_SIZE)
  ldr (p + 16#32)

/-- One round of `thread_init_all`. -/
def thread_round (l : KernelLd cfg) (tid : Tid cfg) : StateM Arm Unit := do
  let index := BitVec.ofNat 32 (indexOf tid).val
  let entry ← thread_fill l tid
  thread_build_initial_frame cfg (l.tcb tid) entry index
  str (l.pcb (pidOf tid) + 24#32 + index * 4#32) (l.tcb tid)

def thread_init_all (l : KernelLd cfg) (m : Arm) : Arm :=
  (List.finRange cfg.NUM_THREADS).foldl (fun m tid => (thread_round l tid m).2) m

end Arm

namespace KernelLd

variable (l : KernelLd cfg)

/-! ## Where things are -/

theorem tcb_toNat (t : Tid cfg) : (l.tcb t).toNat = l.threads.toNat + t.val * 100 := by
  have h1 := l.tcbs
  have h2 := l.bss_order
  have h3 := l.stack_after
  have h4 := l.fits
  have ht := t.isLt
  unfold TCB_SIZE at h1
  unfold tcb TCB_SIZE
  rw [← BitVec.ofNat_mul, BitVec.toNat_add, BitVec.toNat_ofNat]
  omega

theorem pcb_toNat (p : Pid cfg) : (l.pcb p).toNat = l.processes.toNat + p.val * PCB_SIZE cfg := by
  have h1 := l.pcbs
  have h2 := l.bss_order
  have h3 := l.stack_after
  have h4 := l.fits
  have hroom := pcb_room p
  unfold pcb
  rw [← BitVec.ofNat_mul, BitVec.toNat_add, BitVec.toNat_ofNat]
  omega

include l in
theorem kstack_toNat (t : Tid cfg) :
    (thread_init cfg t).kstack_base.toNat = cfg.thread_kstack.toNat + t.val * 8192 := by
  have h1 := l.kstack
  have h2 := l.stack_after
  have h3 := l.fits
  have ht := t.isLt
  have hsize : KSTACK_SIZE = BitVec.ofNat 32 8192 := by decide
  show (cfg.thread_kstack + BitVec.ofNat 32 t.val * KSTACK_SIZE).toNat = _
  rw [hsize, ← BitVec.ofNat_mul, BitVec.toNat_add, BitVec.toNat_ofNat]
  omega

/-- The frame that `thread_build_initial_frame` makes, at the top of the stack. -/
def frame (_ : KernelLd cfg) (t : Tid cfg) : Word :=
  Arm.frameOf (thread_init cfg t).kstack_base KSTACK_SIZE

/-- The words that one round of `thread_init_all` writes. -/
def RoundWords (t : Tid cfg) (j : Nat) : Prop :=
  ((l.tcb t).toNat / 4 ≤ j ∧ j < (l.tcb t).toNat / 4 + 25) ∨
  ((l.frame t).toNat / 4 ≤ j ∧ j < (l.frame t).toNat / 4 + 25) ∨
  j = (l.pcb (pidOf t)).toNat / 4 + 6 + (indexOf t).val

/-- `threads[t]` holds `th`, and the frame of a thread that has not run yet. -/
structure TcbHolds (v : Mem) (t : Tid cfg) (th : thread_t cfg) : Prop where
  proc : v ((l.tcb t).toNat / 4 + 18) = l.pcb th.proc
  tid : v ((l.tcb t).toNat / 4 + 19) = BitVec.ofNat 32 th.tid
  index : v ((l.tcb t).toNat / 4 + 20) = BitVec.ofNat 32 th.index
  state : v ((l.tcb t).toNat / 4 + 21) = th.state.code
  kstack_base : v ((l.tcb t).toNat / 4 + 22) = th.kstack_base
  kstack_size : v ((l.tcb t).toNat / 4 + 23) = th.kstack_size
  user_stack_top : v ((l.tcb t).toNat / 4 + 24) = th.user_stack_top
  framed :
    Arm.Framed cfg v (l.tcb t) (l.frame t) USER_VIRT_BASE (BitVec.ofNat 32 th.index) th.user_stack_top

theorem frame_toNat (t : Tid cfg) :
    (l.frame t).toNat = cfg.thread_kstack.toNat + t.val * 8192 + 8092 := by
  have h1 := l.kstack
  have h2 := l.stack_after
  have h3 := l.fits
  have h4 := l.kstack_toNat t
  have ht := t.isLt
  have hsize : KSTACK_SIZE.toNat = 8192 := by decide
  unfold frame Arm.frameOf Arm.INIT_STACK_WORDS
  rw [BitVec.toNat_sub, BitVec.toNat_add, BitVec.toNat_mul, BitVec.toNat_ofNat,
    BitVec.toNat_ofNat, hsize]
  omega

/-- Two TCBs, two stacks, or one of each, have no word in common. -/
theorem tcb_word_apart {t u : Tid cfg} (hne : t ≠ u) {i j : Nat} (hi : i < 25) (hj : j < 25) :
    (l.tcb t).toNat / 4 + i ≠ (l.tcb u).toNat / 4 + j := by
  have h1 := l.tcb_toNat t
  have h2 := l.tcb_toNat u
  have hval : t.val ≠ u.val := fun h => hne (Fin.ext h)
  omega

theorem frame_word_apart {t u : Tid cfg} (hne : t ≠ u) {i j : Nat} (hi : i < 25) (hj : j < 25) :
    (l.frame t).toNat / 4 + i ≠ (l.frame u).toNat / 4 + j := by
  have h1 := l.frame_toNat t
  have h2 := l.frame_toNat u
  have hval : t.val ≠ u.val := fun h => hne (Fin.ext h)
  omega

theorem tcb_frame_apart (t u : Tid cfg) {i j : Nat} (hi : i < 25) (hj : j < 25) :
    (l.tcb t).toNat / 4 + i ≠ (l.frame u).toNat / 4 + j := by
  have h1 := l.tcb_toNat t
  have h2 := l.frame_toNat u
  have h3 := l.tcbs_kstack
  have h4 := l.tcbs.2.2
  have h5 := l.kstack.2.2
  have ht := t.isLt
  have hu := u.isLt
  unfold Beside TCB_SIZE at h3
  omega

theorem pcb_word_lt (p : Pid cfg) {i : Nat} (hi : i < 7 + cfg.THREADS_PER_PROC) :
    l.processes.toNat / 4 ≤ (l.pcb p).toNat / 4 + i ∧
      4 * ((l.pcb p).toNat / 4 + i) + 4 ≤ l.processes.toNat + cfg.NUM_PROCESSES * PCB_SIZE cfg := by
  have h1 := l.pcb_toNat p
  have h2 := l.pcbs.2.2
  have hroom := pcb_room p
  have hsize := PCB_SIZE_eq cfg
  have halign : p.val * PCB_SIZE cfg % 4 = 0 := by
    rw [PCB_SIZE_eq, Nat.mul_left_comm]
    exact Nat.mul_mod_right _ _
  omega

theorem pcb_tcb_apart (p : Pid cfg) (t : Tid cfg) {i j : Nat} (hi : i < 7 + cfg.THREADS_PER_PROC)
    (hj : j < 25) : (l.pcb p).toNat / 4 + i ≠ (l.tcb t).toNat / 4 + j := by
  have h1 := l.pcb_word_lt p hi
  have h2 := l.tcb_toNat t
  have h3 := l.pcbs_tcbs
  have h4 := l.tcbs.2.2
  have h5 := l.pcbs.2.2
  have ht := t.isLt
  unfold Beside TCB_SIZE at h3
  omega

theorem pcb_frame_apart (p : Pid cfg) (t : Tid cfg) {i j : Nat} (hi : i < 7 + cfg.THREADS_PER_PROC)
    (hj : j < 25) : (l.pcb p).toNat / 4 + i ≠ (l.frame t).toNat / 4 + j := by
  have h1 := l.pcb_word_lt p hi
  have h2 := l.frame_toNat t
  have h3 := l.pcbs_kstack
  have h4 := l.kstack.2.2
  have h5 := l.pcbs.2.2
  have ht := t.isLt
  unfold Beside at h3
  omega

theorem pcb_word_inj {p q : Pid cfg} {i j : Nat} (hi : i < 7 + cfg.THREADS_PER_PROC)
    (hj : j < 7 + cfg.THREADS_PER_PROC)
    (h : (l.pcb p).toNat / 4 + i = (l.pcb q).toNat / 4 + j) : p = q ∧ i = j := by
  have hword :
      ∀ p : Pid cfg, (l.pcb p).toNat / 4 =
        l.processes.toNat / 4 + (7 + cfg.THREADS_PER_PROC) * p.val := by
    intro p
    have h1 := l.pcb_toNat p
    rw [PCB_SIZE_eq, Nat.mul_left_comm, Nat.mul_comm p.val] at h1
    omega
  rw [hword, hword] at h
  have heq : (7 + cfg.THREADS_PER_PROC) * p.val + i = (7 + cfg.THREADS_PER_PROC) * q.val + j := by omega
  have hdiv : ∀ (a : Nat) {b : Nat}, b < 7 + cfg.THREADS_PER_PROC →
      ((7 + cfg.THREADS_PER_PROC) * a + b) / (7 + cfg.THREADS_PER_PROC) = a := by
    intro a b hb
    rw [Nat.mul_add_div (by omega), Nat.div_eq_of_lt hb, Nat.add_zero]
  have hpq : p.val = q.val := by rw [← hdiv p.val hi, heq, hdiv q.val hj]
  exact ⟨Fin.ext hpq, by rw [hpq] at heq; omega⟩

/-! ## One round of thread_init_all -/

theorem tcb_aligned (t : Tid cfg) : (l.tcb t).toNat % 4 = 0 := by
  have h1 := l.tcb_toNat t
  have h2 := l.tcbs.2.2
  omega

theorem tcb_fits (t : Tid cfg) : (l.tcb t).toNat + SIZEOF_THREAD ≤ 2 ^ 32 := by
  have h1 := l.tcb_toNat t
  have h2 := l.tcbs.2.1
  have h3 := l.stack_after
  have h4 := l.fits
  have ht := t.isLt
  unfold TCB_SIZE at h2
  rw [Arm.sizeof_thread]
  omega

/-- The fields behind `ctx`, as `thread_init_all` stores them. -/
def tcbTail (t : Tid cfg) : List Word :=
  [l.pcb (pidOf t), BitVec.ofNat 32 t.val, BitVec.ofNat 32 (indexOf t).val, task_state_t.TASK_READY.code,
    (thread_init cfg t).kstack_base, KSTACK_SIZE,
    (thread_init cfg t).user_stack_top]

theorem tail_writes (mem : Mem) (T : Nat) (v0 v1 v2 v3 v4 v5 v6 : Word) :
    Function.update (Function.update (Function.update (Function.update (Function.update (Function.update
      (Function.update mem (T + 18) v0) (T + 19) v1) (T + 20) v2) (T + 21) v3) (T + 22) v4)
        (T + 23) v5) (T + 24) v6 =
      Arm.write mem (T + 18) [v0, v1, v2, v3, v4, v5, v6] := by
  rw [Arm.write_one mem, Arm.write_snoc mem (T + 18) _ _ (n := 1) rfl,
    Arm.write_snoc mem (T + 18) _ _ (n := 2) rfl,
    Arm.write_snoc mem (T + 18) _ _ (n := 3) rfl, Arm.write_snoc mem (T + 18) _ _ (n := 4) rfl,
    Arm.write_snoc mem (T + 18) _ _ (n := 5) rfl, Arm.write_snoc mem (T + 18) _ _ (n := 6) rfl]
  rfl

theorem idxOf_tail :
    ThreadField.order.idxOf .proc = 18 ∧ ThreadField.order.idxOf .tid = 19 ∧
    ThreadField.order.idxOf .index = 20 ∧
    ThreadField.order.idxOf .state = 21 ∧ ThreadField.order.idxOf .kstack_base = 22 ∧
    ThreadField.order.idxOf .kstack_size = 23 ∧ ThreadField.order.idxOf .user_stack_top = 24 := by decide

theorem tail_word {v : Mem} (t : Tid cfg) {i : Nat} (hi : i < 7) :
    Arm.write v ((l.tcb t).toNat / 4 + 18) (l.tcbTail t) ((l.tcb t).toNat / 4 + (18 + i)) =
      (l.tcbTail t).getD i 0#32 := by
  have hlen : (l.tcbTail t).length = 7 := rfl
  unfold Arm.write
  rw [hlen, if_pos (by omega), ← Nat.add_assoc, Nat.add_sub_cancel_left]

theorem fill_run (t : Tid cfg) (m : Arm)
    (hentry : m.mem ((l.pcb (pidOf t)).toNat / 4 + 4) = USER_VIRT_BASE) :
    ∃ lg, Arm.thread_fill l t m = (USER_VIRT_BASE,
      { m with mem := Arm.write m.mem ((l.tcb t).toNat / 4 + 18) (l.tcbTail t), log := lg }) := by
  obtain ⟨i18, i19, i20, i21, i22, i23, i24⟩ := idxOf_tail
  have hpcb : (l.pcb (pidOf t) + 16#32).toNat / 4 = (l.pcb (pidOf t)).toNat / 4 + 4 := by
    have h1 := (l.pcb_word_lt (pidOf t) (i := 6) (by omega)).2
    have h2 := l.pcbs.2.1
    have h3 := l.stack_after
    have h4 := l.fits
    rw [BitVec.toNat_add, BitVec.toNat_ofNat]
    omega
  have hload :
      Arm.write m.mem ((l.tcb t).toNat / 4 + 18) (l.tcbTail t) ((l.pcb (pidOf t)).toNat / 4 + 4) =
      USER_VIRT_BASE := by
    rw [Arm.write_of_not, hentry]
    rintro ⟨hlo, hhi⟩
    have hlen : (l.tcbTail t).length = 7 := rfl
    have hap :=
      l.pcb_tcb_apart (pidOf t) t (i := 4)
        (j := (l.pcb (pidOf t)).toNat / 4 + 4 - (l.tcb t).toNat / 4) (by omega)
      (by omega)
    omega
  unfold Arm.thread_fill
  simp only [Arm.bind_apply, Arm.str, Arm.ldr, Arm.field_word (l.tcb_fits t), i18, i19, i20, i21,
    i22, i23, i24, tail_writes, hpcb]
  exact ⟨_, Prod.ext hload rfl⟩

theorem filled_fresh (t : Tid cfg) {m : Arm}
    (hm : ∃ v, m.mem = Arm.write v ((l.tcb t).toNat / 4 + 18) (l.tcbTail t)) :
    Arm.Fresh m (l.tcb t) (thread_init cfg t).kstack_base KSTACK_SIZE := by
  obtain ⟨v, hv⟩ := hm
  have h1 := l.kstack_toNat t
  have h2 := l.kstack
  have h3 := l.stack_after
  have h4 := l.fits
  have h5 := l.tcb_toNat t
  have h6 := l.tcbs_kstack
  have ht := t.isLt
  have hsize : KSTACK_SIZE.toNat = 8192 := by decide
  obtain ⟨-, -, -, -, i22, i23, -⟩ := idxOf_tail
  refine ⟨l.tcb_aligned t, l.tcb_fits t, ?_, ?_, by omega, by rw [hsize], by rw [hsize]; decide,
    by omega, ?_⟩
  · unfold Arm.field
    rw [hv, i22]
    exact l.tail_word t (i := 4) (by decide)
  · unfold Arm.field
    rw [hv, i23]
    exact l.tail_word t (i := 5) (by decide)
  · unfold Arm.NoOverlap
    unfold Beside TCB_SIZE at h6
    rw [Arm.sizeof_thread, hsize]
    omega

/-- `&p->threads[index]`. -/
theorem slot_word (t : Tid cfg) :
    (l.pcb (pidOf t) + 24#32 + BitVec.ofNat 32 (indexOf t).val * 4#32).toNat / 4 =
    (l.pcb (pidOf t)).toNat / 4 + 6 + (indexOf t).val := by
  have hidx := (indexOf t).isLt
  have h1 := (l.pcb_word_lt (pidOf t) (i := 6 + (indexOf t).val) (by omega)).2
  have h2 := l.pcbs.2.1
  have h3 := l.stack_after
  have h4 := l.fits
  rw [show (4#32 : Word) = BitVec.ofNat 32 4 from rfl, ← BitVec.ofNat_mul, BitVec.toNat_add,
    BitVec.toNat_add, BitVec.toNat_ofNat, BitVec.toNat_ofNat]
  omega

/-- Memory behind `thread_build_initial_frame`. -/
def builtMem (t : Tid cfg) (v : Mem) : Mem :=
  Arm.write (Arm.write (Arm.write v ((l.tcb t).toNat / 4 + 18) (l.tcbTail t)) ((l.frame t).toNat / 4)
    (Arm.frameWords cfg USER_VIRT_BASE (BitVec.ofNat 32 (indexOf t).val))) ((l.tcb t).toNat / 4 + 13)
    [l.frame t, 0#32, 0x10#32, (thread_init cfg t).user_stack_top, 0#32]

theorem round_mem (t : Tid cfg) (m : Arm)
    (hentry : m.mem ((l.pcb (pidOf t)).toNat / 4 + 4) = USER_VIRT_BASE) :
    (Arm.thread_round l t m).2.mem = Function.update (l.builtMem t m.mem)
        ((l.pcb (pidOf t)).toNat / 4 + 6 + (indexOf t).val) (l.tcb t) ∧
      Arm.Framed cfg (l.builtMem t m.mem) (l.tcb t) (l.frame t) USER_VIRT_BASE
        (BitVec.ofNat 32 (indexOf t).val) (thread_init cfg t).user_stack_top := by
  obtain ⟨lg, hfill⟩ := l.fill_run t m hentry
  obtain ⟨m₁, hm₁⟩ : ∃ m₁ : Arm, m₁ =
    { m with mem := Arm.write m.mem ((l.tcb t).toNat / 4 + 18) (l.tcbTail t), log := lg } := ⟨_, rfl⟩
  have hmem₁ : m₁.mem = Arm.write m.mem ((l.tcb t).toNat / 4 + 18) (l.tcbTail t) := by rw [hm₁]
  have hfresh := l.filled_fresh t ⟨m.mem, hmem₁⟩
  have hust : m₁.field (l.tcb t) .user_stack_top = (thread_init cfg t).user_stack_top := by
    unfold Arm.field
    rw [hmem₁, idxOf_tail.2.2.2.2.2.2]
    exact l.tail_word t (i := 6) (by decide)
  obtain ⟨lg', hbuild, -⟩ := Arm.build_run cfg USER_VIRT_BASE (BitVec.ofNat 32 (indexOf t).val) hfresh
  have hbuilt :
      (Arm.thread_build_initial_frame cfg (l.tcb t) USER_VIRT_BASE
        (BitVec.ofNat 32 (indexOf t).val) m₁).2.mem =
      l.builtMem t m.mem := by
    rw [hbuild, hust, hmem₁]
    rfl
  constructor
  · unfold Arm.thread_round
    rw [Arm.bind_apply, hfill, Arm.bind_apply, ← hm₁]
    simp only [Arm.str]
    rw [hbuilt, slot_word]
  · have hframed :
      Arm.Framed cfg _ (l.tcb t) _ USER_VIRT_BASE (BitVec.ofNat 32 (indexOf t).val) _ := hfresh.framed
    rw [hbuilt, hust] at hframed
    exact hframed

/-- Words that the stores go past. -/
theorem builtMem_else (t : Tid cfg) (v : Mem) {j : Nat}
    (ht : ¬ ((l.tcb t).toNat / 4 ≤ j ∧ j < (l.tcb t).toNat / 4 + 25))
    (hf : ¬ ((l.frame t).toNat / 4 ≤ j ∧ j < (l.frame t).toNat / 4 + 25)) : l.builtMem t v j = v j := by
  have hlen : (l.tcbTail t).length = 7 := rfl
  unfold builtMem
  rw [Arm.write_of_not (by simp only [List.length_cons, List.length_nil]; omega), Arm.write_of_not,
    Arm.write_of_not]
  · omega
  · rw [Arm.length_frameWords]
    exact hf

theorem builtMem_tail (t : Tid cfg) (v : Mem) {i : Nat} (hi : i < 7) :
    l.builtMem t v ((l.tcb t).toNat / 4 + (18 + i)) = (l.tcbTail t).getD i 0#32 := by
  unfold builtMem
  rw [Arm.write_of_not (by simp only [List.length_cons, List.length_nil]; omega), Arm.write_of_not,
    l.tail_word t hi]
  rw [Arm.length_frameWords]
  rintro ⟨hlo, hhi⟩
  exact l.tcb_frame_apart t t (i := 18 + i)
    (j := (l.tcb t).toNat / 4 + (18 + i) - (l.frame t).toNat / 4) (by omega) (by omega) (by omega)

/-- What one round leaves. -/
structure RoundDone (v v' : Mem) (t : Tid cfg) : Prop where
  tcb : l.TcbHolds v' t (thread_init cfg t)
  slot : v' ((l.pcb (pidOf t)).toNat / 4 + 6 + (indexOf t).val) = l.tcb t
  same : ∀ j, ¬ l.RoundWords t j → v' j = v j

theorem round_done (t : Tid cfg) (m : Arm)
    (hentry : m.mem ((l.pcb (pidOf t)).toNat / 4 + 4) = USER_VIRT_BASE) :
    l.RoundDone m.mem (Arm.thread_round l t m).2.mem t := by
  obtain ⟨hmem, hframed⟩ := l.round_mem t m hentry
  have hidx := (indexOf t).isLt
  have htcb : ∀ i < 25, (Arm.thread_round l t m).2.mem ((l.tcb t).toNat / 4 + i) =
      l.builtMem t m.mem ((l.tcb t).toNat / 4 + i) := by
    intro i hi
    rw [hmem, Function.update_of_ne]
    rw [Nat.add_assoc]
    exact (l.pcb_tcb_apart (pidOf t) t (by omega) hi).symm
  have hframe : ∀ i < 25, (Arm.thread_round l t m).2.mem ((l.frame t).toNat / 4 + i) =
      l.builtMem t m.mem ((l.frame t).toNat / 4 + i) := by
    intro i hi
    rw [hmem, Function.update_of_ne]
    rw [Nat.add_assoc]
    exact (l.pcb_frame_apart (pidOf t) t (by omega) hi).symm
  have htail : ∀ i x, (l.tcbTail t)[i]? = some x → ∀ k, k = 18 + i →
      (Arm.thread_round l t m).2.mem ((l.tcb t).toNat / 4 + k) = x := by
    rintro i x hx k rfl
    have hi : i < 7 := (List.getElem?_eq_some_iff.mp hx).1
    rw [htcb _ (by omega), l.builtMem_tail t m.mem hi, List.getD_eq_getElem?_getD, hx, Option.getD_some]
  refine ⟨⟨htail 0 _ rfl 18 rfl, htail 1 _ rfl 19 rfl, htail 2 _ rfl 20 rfl, htail 3 _ rfl 21 rfl,
    htail 4 _ rfl 22 rfl, htail 5 _ rfl 23 rfl, htail 6 _ rfl 24 rfl, ?_⟩, ?_, ?_⟩
  · refine ⟨fun i hi => ?_, ?_, ?_, ?_⟩
    · rw [hframe i hi]
      exact hframed.words i hi
    · rw [htcb 13 (by decide), hframed.sp_svc]
    · rw [htcb 16 (by decide), hframed.sp_usr]
    · rw [htcb 17 (by decide), hframed.lr_usr]
  · rw [hmem, Function.update_self]
  · intro j hj
    unfold RoundWords at hj
    rw [not_or, not_or] at hj
    rw [hmem, Function.update_of_ne hj.2.2, l.builtMem_else t m.mem hj.1 hj.2.1]

/-! ## All rounds -/

theorem rounds_apart {t u : Tid cfg} (hne : t ≠ u) {j : Nat} (hj : l.RoundWords t j) :
    ¬ l.RoundWords u j := by
  have hidx := (indexOf t).isLt
  have hidx' := (indexOf u).isLt
  rintro (⟨hlo, hhi⟩ | ⟨hlo, hhi⟩ | rfl) <;> rcases hj with ⟨hlo', hhi'⟩ | ⟨hlo', hhi'⟩ | hj'
  · exact l.tcb_word_apart hne (i := j - (l.tcb t).toNat / 4) (j := j - (l.tcb u).toNat / 4)
      (by omega) (by omega) (by omega)
  · exact l.tcb_frame_apart u t (i := j - (l.tcb u).toNat / 4) (j := j - (l.frame t).toNat / 4)
      (by omega) (by omega) (by omega)
  · exact l.pcb_tcb_apart (pidOf t) u (i := 6 + (indexOf t).val) (j := j - (l.tcb u).toNat / 4)
      (by omega) (by omega) (by omega)
  · exact l.tcb_frame_apart t u (i := j - (l.tcb t).toNat / 4) (j := j - (l.frame u).toNat / 4)
      (by omega) (by omega) (by omega)
  · exact l.frame_word_apart hne (i := j - (l.frame t).toNat / 4) (j := j - (l.frame u).toNat / 4)
      (by omega) (by omega) (by omega)
  · exact l.pcb_frame_apart (pidOf t) u (i := 6 + (indexOf t).val) (j := j - (l.frame u).toNat / 4)
      (by omega) (by omega) (by omega)
  · exact l.pcb_tcb_apart (pidOf u) t (i := 6 + (indexOf u).val)
      (j := (l.pcb (pidOf u)).toNat / 4 + 6 + (indexOf u).val -
      (l.tcb t).toNat / 4) (by omega) (by omega) (by omega)
  · exact l.pcb_frame_apart (pidOf u) t (i := 6 + (indexOf u).val)
      (j := (l.pcb (pidOf u)).toNat / 4 + 6 + (indexOf u).val -
      (l.frame t).toNat / 4) (by omega) (by omega) (by omega)
  · obtain ⟨hp, hi⟩ :=
      l.pcb_word_inj (p := pidOf u) (q := pidOf t) (i := 6 + (indexOf u).val) (j := 6 + (indexOf t).val)
      (by omega) (by omega) (by omega)
    have hi' : indexOf u = indexOf t := Fin.ext (by omega)
    apply hne
    rw [← tidOf_pidOf t, ← tidOf_pidOf u, hp, hi']

theorem TcbHolds.frame {v v' : Mem} {t : Tid cfg} {th : thread_t cfg} (h : l.TcbHolds v t th)
    (hsame : ∀ j, l.RoundWords t j → v' j = v j) : l.TcbHolds v' t th := by
  have htcb : ∀ i < 25, v' ((l.tcb t).toNat / 4 + i) = v ((l.tcb t).toNat / 4 + i) :=
    fun i hi => hsame _ (Or.inl ⟨by omega, by omega⟩)
  refine ⟨?_, ?_, ?_, ?_, ?_, ?_, ?_, ⟨fun i hi => ?_, ?_, ?_, ?_⟩⟩
  · rw [htcb 18 (by decide), h.proc]
  · rw [htcb 19 (by decide), h.tid]
  · rw [htcb 20 (by decide), h.index]
  · rw [htcb 21 (by decide), h.state]
  · rw [htcb 22 (by decide), h.kstack_base]
  · rw [htcb 23 (by decide), h.kstack_size]
  · rw [htcb 24 (by decide), h.user_stack_top]
  · rw [hsame _ (Or.inr (Or.inl ⟨by omega, by omega⟩)), h.framed.words i hi]
  · rw [htcb 13 (by decide), h.framed.sp_svc]
  · rw [htcb 16 (by decide), h.framed.sp_usr]
  · rw [htcb 17 (by decide), h.framed.lr_usr]

/-- `threads[t]` and the pointer to it in its process. -/
def ThreadHolds (v : Mem) (t : Tid cfg) : Prop :=
  l.TcbHolds v t (thread_init cfg t) ∧ v ((l.pcb (pidOf t)).toNat / 4 + 6 + (indexOf t).val) = l.tcb t

theorem ThreadHolds.frame {v v' : Mem} {t : Tid cfg} (h : l.ThreadHolds v t)
    (hsame : ∀ j, l.RoundWords t j → v' j = v j) : l.ThreadHolds v' t := by
  refine ⟨h.1.frame l hsame, ?_⟩
  rw [hsame _ (Or.inr (Or.inr rfl)), h.2]

/-- The first six words of a PCB. -/
theorem entry_not_round (p : Pid cfg) (t : Tid cfg) {i : Nat} (hi : i < 6) :
    ¬ l.RoundWords t ((l.pcb p).toNat / 4 + i) := by
  rintro (⟨hlo, hhi⟩ | ⟨hlo, hhi⟩ | h)
  · exact l.pcb_tcb_apart p t (i := i) (j := (l.pcb p).toNat / 4 + i - (l.tcb t).toNat / 4)
      (by omega) (by omega) (by omega)
  · exact l.pcb_frame_apart p t (i := i) (j := (l.pcb p).toNat / 4 + i - (l.frame t).toNat / 4)
      (by omega) (by omega) (by omega)
  · have hidx := (indexOf t).isLt
    rw [Nat.add_assoc] at h
    have := (l.pcb_word_inj (by omega) (by omega) h).2
    omega

theorem rounds_done (ts : List (Tid cfg)) (m : Arm)
    (hentry : ∀ p : Pid cfg, m.mem ((l.pcb p).toNat / 4 + 4) = USER_VIRT_BASE) :
    (∀ t ∈ ts, l.ThreadHolds (ts.foldl (fun m t => (Arm.thread_round l t m).2) m).mem t) ∧
      ∀ j, (∀ t ∈ ts, ¬ l.RoundWords t j) →
        (ts.foldl (fun m t => (Arm.thread_round l t m).2) m).mem j = m.mem j := by
  induction ts generalizing m with
  | nil => exact ⟨fun t ht => absurd ht (by simp), fun _ _ => rfl⟩
  | cons u ts ih =>
    have hdone := l.round_done u m (hentry (pidOf u))
    have hentry' :
        ∀ p : Pid cfg, (Arm.thread_round l u m).2.mem ((l.pcb p).toNat / 4 + 4) = USER_VIRT_BASE := by
      intro p
      rw [hdone.same _ (l.entry_not_round p u (by decide)), hentry p]
    obtain ⟨ih1, ih2⟩ := ih (Arm.thread_round l u m).2 hentry'
    rw [List.foldl_cons]
    constructor
    · intro t ht
      by_cases hin : t ∈ ts
      · exact ih1 t hin
      · obtain rfl : t = u := (List.mem_cons.mp ht).resolve_right hin
        refine ThreadHolds.frame l ⟨hdone.tcb, hdone.slot⟩ fun j hj => ih2 j fun s hs => ?_
        exact l.rounds_apart (by rintro rfl; exact hin hs) hj
    · intro j hj
      rw [ih2 j fun t ht => hj t (by simp [ht]), hdone.same j (hj u (by simp))]

/-! ## In physical memory -/

/-- The word of RAM behind a word of the high alias. -/
def pword (b : Board) (j : Nat) : Nat := j - 0x30000000 + b.RAM_BASE.toNat / 4

theorem round_bounds {t : Tid cfg} {j : Nat} (h : l.RoundWords t j) :
    cfg.proc_pgd.toNat + cfg.NUM_PROCESSES * 16384 ≤ 4 * j ∧ 4 * j + 4 ≤ l._bss_end := by
  have hidx := (indexOf t).isLt
  have ht := t.isLt
  rcases h with ⟨hlo, hhi⟩ | ⟨hlo, hhi⟩ | rfl
  · have h1 := l.tcb_toNat t
    have h2 := l.tcbs
    unfold TCB_SIZE at h2
    exact ⟨by omega, by omega⟩
  · have h1 := l.frame_toNat t
    have h2 := l.kstack
    exact ⟨by omega, by omega⟩
  · have h1 := l.pcb_word_lt (pidOf t) (i := 6 + (indexOf t).val) (by omega)
    have h2 := l.pcbs
    exact ⟨by omega, by omega⟩

/-- The words that `thread_init_all` writes. -/
def ThreadWords (j : Nat) : Prop := ∃ t k, l.RoundWords t k ∧ j = pword cfg.board k

theorem thread_bounds {j : Nat} (h : l.ThreadWords j) :
    cfg.proc_pgd.toNat + cfg.NUM_PROCESSES * 16384 - 0xC0000000 + cfg.board.RAM_BASE.toNat ≤ 4 * j ∧
      4 * j + 4 ≤ l._bss_end - 0xC0000000 + cfg.board.RAM_BASE.toNat := by
  obtain ⟨t, k, hk, rfl⟩ := h
  have h1 := l.round_bounds hk
  have h2 := l.linked.placed.ram_aligned
  have h3 := l.linked.placed.proc_lo
  unfold pword
  exact ⟨by omega, by omega⟩

theorem thread_not_boot {j : Nat} (h : l.ThreadWords j) : ¬ InTable cfg.boot_pgd_pa j := by
  intro hb
  have h1 := l.thread_bounds h
  have h2 := l.boot_words hb
  have h3 := l.proc_pgd.1
  omega

theorem thread_not_table {j : Nat} (h : l.ThreadWords j) (q : Pid cfg) :
    ¬ InTable (process_init cfg q).pgd_pa j := by
  intro hb
  have h1 := l.thread_bounds h
  have h2 := l.table_words q hb
  omega

theorem thread_not_slot {j : Nat} (h : l.ThreadWords j) (q : Pid cfg) : ¬ slotWords q j := by
  intro hs
  have h1 := l.thread_bounds h
  have h2 := l.slot_words q hs
  have h3 := l.stack_after
  have h4 := l.fits
  omega

include l in
/-- A word of the window, seen from both sides. -/
theorem view_word {va : Word} (hlo : 0xC0000000 ≤ va.toNat) (k : Nat) (m : Mem) :
    cfg.board.view m (va.toNat / 4 + k) = m ((cfg.board.pa va).toNat / 4 + k) := by
  have h1 := l.linked.placed.ram_aligned
  have h2 := l.pa_toNat hlo
  have hj :
    va.toNat / 4 + k - 0x30000000 + cfg.board.RAM_BASE.toNat / 4 =
      (cfg.board.pa va).toNat / 4 + k := by omega
  unfold Board.view
  rw [hj]

theorem unview_within (m v : Mem) (h : ∀ j, (∀ t, ¬ l.RoundWords t j) → v j = cfg.board.view m j) :
    Within l.ThreadWords m (cfg.board.unview m v) := by
  intro j hj
  unfold Board.unview
  split
  · rename_i hin
    rw [h _ fun t ht => hj ⟨t, _, ht, ?_⟩]
    · unfold Board.view
      congr 1
      omega
    · unfold pword
      omega
  · rfl

theorem view_unview (m v : Mem) {j : Nat} (hlo : 0x30000000 ≤ j) (hhi : j < 0x30080000) :
    cfg.board.view (cfg.board.unview m v) j = v j := by
  unfold Board.view Board.unview
  rw [if_pos (by omega)]
  congr 1
  omega

theorem round_window {t : Tid cfg} {j : Nat} (h : l.RoundWords t j) :
    0x30000000 ≤ j ∧ j < 0x30080000 := by
  have h1 := l.round_bounds h
  have h2 := l.linked.placed.proc_lo
  have h3 := l.stack_after
  have h4 := l.fits
  omega

/-! ## What kmain leaves -/

/-- `processes[i]` holds `p`, the pointers to its threads apart. -/
structure PcbFields (m : Mem) (i : Pid cfg) (p : process_t cfg) : Prop where
  pid : m.entry (l.symbols.pcb i) 0 = BitVec.ofNat 32 p.pid
  name : m.entry (l.symbols.pcb i) 1 = l.img_name i
  pgd : m.entry (l.symbols.pcb i) 2 = p.pgd
  pgd_pa : m.entry (l.symbols.pcb i) 3 = p.pgd_pa
  user_entry : m.entry (l.symbols.pcb i) 4 = p.user_entry
  user_phys_base : m.entry (l.symbols.pcb i) 5 = p.user_phys_base
  img_size : m.entry (l.symbols.pcb i) (6 + cfg.THREADS_PER_PROC) = p.img_size

theorem PcbFields.frame {m m' : Mem} {i : Pid cfg} {p : process_t cfg} (h : l.PcbFields m i p)
    (hsame : ∀ k, k < 6 ∨ k = 6 + cfg.THREADS_PER_PROC →
      m'.entry (l.symbols.pcb i) k = m.entry (l.symbols.pcb i) k) :
    l.PcbFields m' i p := by
  refine ⟨?_, ?_, ?_, ?_, ?_, ?_, ?_⟩
  · rw [hsame 0 (by omega), h.pid]
  · rw [hsame 1 (by omega), h.name]
  · rw [hsame 2 (by omega), h.pgd]
  · rw [hsame 3 (by omega), h.pgd_pa]
  · rw [hsame 4 (by omega), h.user_entry]
  · rw [hsame 5 (by omega), h.user_phys_base]
  · rw [hsame _ (Or.inr rfl), h.img_size]

/-- Memory holds the tables of `k`, before any thread has run. -/
structure Represents (m : Mem) (k : Kernel cfg) : Prop where
  tables : Built cfg m
  slots : ∀ i : Pid cfg, SlotHolds m i
  pcbs : ∀ i, l.PcbFields m i (k.processes i)
  threads : ∀ i x t, (k.processes i).threads x = some t → m.entry (l.symbols.pcb i) (6 + x.val) = l.tcb t
  tcbs : ∀ t, l.TcbHolds (cfg.board.view m) t (k.threads t)

/-- The words that the rest of `kmain` has no business with: the tables, the slots, the PCBs, the TCBs
with the tops of the kernel stacks, and the images. -/
def Kept (j : Nat) : Prop :=
  InTable cfg.boot_pgd_pa j ∨ (∃ i, l.symbols.Region i j) ∨ l.ThreadWords j ∨
    ∃ i, ∃ d < (cfg.user_images i).image.length,
      j = (cfg.board.pa (l.symbols.start i) + BitVec.ofNat 32 d).toNat / 4

/-- The three calls of `kmain` that touch these words, with anything else around them. -/
def Kmain (m m' : Mem) : Prop :=
  ∃ m₁ m₂ m₃ : Mem, ∃ a : Arm,
    Within (fun j => ¬ l.Kept j) m m₁ ∧
    Within (fun j => ¬ l.Kept j) (l.symbols.process_init_all m₁) m₂ ∧
    a.mem = cfg.board.view m₂ ∧
    Within (fun j => ¬ l.Kept j) (cfg.board.unview m₂ (Arm.thread_init_all l a).mem) m₃ ∧
    Within (fun j => ¬ l.Kept j) (mmu_drop_identity cfg.board m₃ cfg.boot_pgd_pa) m'

/-- Behind `process_init_all`: what `thread_init_all` must not undo. -/
structure ProcsDone (f : Nat → Word) (m : Mem) : Prop where
  boot : Holds m cfg.boot_pgd_pa f
  table : ∀ q : Pid cfg, Holds m (process_init cfg q).pgd_pa (tableOf q)
  slot : ∀ q : Pid cfg, SlotHolds m q
  pcb : ∀ q, l.PcbFields m q (process_init cfg q)

/-- A word of a PCB that is not a pointer to a thread. -/
def FieldWord (j : Nat) : Prop :=
  ∃ (q : Pid cfg) (k : Nat), (k < 6 ∨ k = 6 + cfg.THREADS_PER_PROC) ∧ j = (l.symbols.pcb q).toNat / 4 + k

theorem ProcsDone.frame {f : Nat → Word} {m m' : Mem} (h : l.ProcsDone f m)
    (hsep : l.symbols.Separate) {P : Nat → Prop}
    (hw : Within P m m') (hboot : ∀ j, InTable cfg.boot_pgd_pa j → ¬ P j)
    (htable : ∀ q : Pid cfg, ∀ j, InTable (process_init cfg q).pgd_pa j → ¬ P j)
    (hslot : ∀ q : Pid cfg, ∀ j, slotWords q j → ¬ P j) (hfield : ∀ j, l.FieldWord j → ¬ P j) :
    l.ProcsDone f m' := by
  refine ⟨?_, fun q => ?_, fun q d hd => ?_, fun q => ?_⟩
  · exact h.boot.within hw fun i hi => hboot _ ⟨by omega, by omega⟩
  · exact (h.table q).within hw fun i hi => htable q _ ⟨by omega, by omega⟩
  · rw [hw.byte (hslot q _ (offset_words (hsep.slot_aligned q) (by decide) (hsep.slot_fits q) hd))]
    exact h.slot q d hd
  · exact (h.pcb q).frame l fun k hk => hw _ (hfield _ ⟨q, k, hk, rfl⟩)

theorem pcb_word_region (q : Pid cfg) {k : Nat} (hk : k < 7 + cfg.THREADS_PER_PROC) :
    l.symbols.Region q ((l.symbols.pcb q).toNat / 4 + k) := by
  refine Or.inr (Or.inl ⟨by omega, ?_⟩)
  rw [PCB_SIZE_eq]
  omega

/-- Nothing that is kept is lost where only other words are written. -/
theorem ProcsDone.kept {f : Nat → Word} {m m' : Mem} (h : l.ProcsDone f m) (hsep : l.symbols.Separate)
    (hw : Within (fun j => ¬ l.Kept j) m m') : l.ProcsDone f m' := by
  refine h.frame l hsep hw ?_ ?_ ?_ ?_
  · exact fun j hj hn => hn (Or.inl hj)
  · exact fun q j hj hn => hn (Or.inr (Or.inl ⟨q, Or.inr (Or.inr hj)⟩))
  · exact fun q j hj hn => hn (Or.inr (Or.inl ⟨q, Or.inl hj⟩))
  · rintro j ⟨q, k, hk, rfl⟩ hn
    exact hn (Or.inr (Or.inl ⟨q, l.pcb_word_region q (by omega)⟩))

theorem process_init_all_done (hsep : l.symbols.Separate) {m : Mem}
    (hr : l.symbols.Ready (bootEntry cfg.board) m) :
    l.ProcsDone (bootEntry cfg.board) (l.symbols.process_init_all m) := by
  have hbuilt := fun q => Symbols.process_init_all_built hsep hr q
  have hready : l.symbols.Ready (bootEntry cfg.board) (l.symbols.process_init_all m) :=
    (foldl_builds (B := l.symbols.Ready (bootEntry cfg.board)) (T := fun _ => True)
      (q := ⟨0, cfg.processes_pos⟩) (fun _ i hm => hm.round hsep i) (fun _ _ _ _ => trivial) _ hr).1
  refine ⟨hready.boot, fun q i hi => ?_, fun q => (hbuilt q).slot, fun q => ?_⟩
  · rw [(hbuilt q).table i hi, builtEntry_boot _ _ hi]
    rfl
  · have hp := (hbuilt q).pcb
    exact ⟨hp.pid, hp.name, hp.pgd, hp.pgd_pa, hp.user_entry, hp.user_phys_base, hp.img_size⟩

theorem pcb_lo (p : Pid cfg) : 0xC0000000 ≤ (l.pcb p).toNat := by
  have h1 := l.pcb_toNat p
  have h2 := l.pcbs.1
  have h3 := l.linked.placed.proc_lo
  omega

theorem field_not_thread {j : Nat} (hf : l.FieldWord j) : ¬ l.ThreadWords j := by
  rintro ⟨t, k', hk', hj⟩
  obtain ⟨q, k, hk, rfl⟩ := hf
  have hidx := (indexOf t).isLt
  have hw := l.round_window hk'
  have h1 := l.pa_toNat (l.pcb_lo q)
  have h2 := l.linked.placed.ram_aligned
  have h3 := l.pcb_lo q
  have hpcb : l.symbols.pcb q = cfg.board.pa (l.pcb q) := rfl
  have heq : k' = (l.pcb q).toNat / 4 + k := by
    unfold pword at hj
    rw [hpcb] at hj
    omega
  rw [heq] at hk'
  rcases hk' with ⟨hlo, hhi⟩ | ⟨hlo, hhi⟩ | h
  · exact l.pcb_tcb_apart q t (i := k) (j := (l.pcb q).toNat / 4 + k - (l.tcb t).toNat / 4)
      (by omega) (by omega) (by omega)
  · exact l.pcb_frame_apart q t (i := k) (j := (l.pcb q).toNat / 4 + k - (l.frame t).toNat / 4)
      (by omega) (by omega) (by omega)
  · rw [Nat.add_assoc] at h
    have := (l.pcb_word_inj (by omega) (by omega) h).2
    omega

theorem thread_init_all_done (hsep : l.symbols.Separate) {f : Nat → Word} {m : Mem}
    (h : l.ProcsDone f m) {a : Arm} (ha : a.mem = cfg.board.view m) :
    l.ProcsDone f (cfg.board.unview m (Arm.thread_init_all l a).mem) ∧
      ∀ t, l.ThreadHolds (cfg.board.view (cfg.board.unview m (Arm.thread_init_all l a).mem)) t := by
  have hentry : ∀ p : Pid cfg, a.mem ((l.pcb p).toNat / 4 + 4) = USER_VIRT_BASE := by
    intro p
    rw [ha, l.view_word (l.pcb_lo p)]
    exact (h.pcb p).user_entry
  obtain ⟨hthreads, hsame⟩ := l.rounds_done (List.finRange cfg.NUM_THREADS) a hentry
  have hw := l.unview_within m (Arm.thread_init_all l a).mem fun j hj => by
    rw [← ha]
    exact hsame j fun t _ => hj t
  refine ⟨h.frame l hsep hw ?_ ?_ ?_ ?_, fun t => ?_⟩
  · exact fun j hj ht => l.thread_not_boot ht hj
  · exact fun q j hj ht => l.thread_not_table ht q hj
  · exact fun q j hj ht => l.thread_not_slot ht q hj
  · exact fun j hj => l.field_not_thread hj
  · refine (hthreads t (List.mem_finRange t)).frame l fun j hj => ?_
    have hwin := l.round_window hj
    exact view_unview m _ hwin.1 hwin.2

theorem ThreadHolds.kept {m m' : Mem} {t : Tid cfg} (h : l.ThreadHolds (cfg.board.view m) t)
    (hw : ∀ j, l.ThreadWords j → m' j = m j) : l.ThreadHolds (cfg.board.view m') t :=
  h.frame l fun j hj => hw _ ⟨t, j, hj, rfl⟩

theorem ready_kept {f : Nat → Word} {m m' : Mem} (h : l.symbols.Ready f m)
    (hw : Within (fun j => ¬ l.Kept j) m m') : l.symbols.Ready f m' where
  boot := h.boot.within hw fun i hi hn => hn (Or.inl ⟨by omega, by omega⟩)
  images := by
    intro i d hd
    rw [hw.byte fun hn => hn (Or.inr (Or.inr (Or.inr ⟨i, d, hd, rfl⟩)))]
    exact h.images i d hd

theorem kmain_represents (hsep : l.symbols.Separate) {m m' : Mem}
    (hr : l.symbols.Ready (bootEntry cfg.board) m)
    (hk : l.Kmain m m') : l.Represents m' (boot cfg) := by
  obtain ⟨m₁, m₂, m₃, a, h₁, h₂, ha, h₃, h₄⟩ := hk
  have hprocs := (l.process_init_all_done hsep (l.ready_kept hr h₁)).kept l hsep h₂
  obtain ⟨hprocs₂, hthreads₂⟩ := l.thread_init_all_done hsep hprocs ha
  have hprocs₃ := hprocs₂.kept l hsep h₃
  have hkeep : ∀ {m m' : Mem}, Within (fun j => ¬ l.Kept j) m m' → ∀ j, l.ThreadWords j → m' j = m j :=
    fun hw j hj => hw j fun hn => hn (Or.inr (Or.inr (Or.inl hj)))
  have hdrop := mmu_drop_identity_within cfg.board m₃ cfg.boot_pgd_pa
  have hthreads : ∀ t, l.ThreadHolds (cfg.board.view m') t := fun t =>
    (((hthreads₂ t).kept l (hkeep h₃)).kept l fun j hj => hdrop j (l.thread_not_boot hj)).kept l
      (hkeep h₄)
  have hdropped :
      l.ProcsDone (finalEntry cfg.board) (mmu_drop_identity cfg.board m₃ cfg.boot_pgd_pa) := by
    refine ⟨mmu_drop_identity_holds hprocs₃.boot, fun q => ?_, fun q d hd => ?_, fun q => ?_⟩
    · exact (hprocs₃.table q).apart hdrop (hsep.placed.boot_apart q).symm
    · rw [hdrop.byte fun hb =>
        hsep.boot_slot q _ hb (offset_words (hsep.slot_aligned q) (by decide) (hsep.slot_fits q) hd)]
      exact hprocs₃.slot q d hd
    · exact (hprocs₃.pcb q).frame l fun k hk =>
        hdrop _ fun hb => hsep.boot_apart q _ hb (l.pcb_word_region q (by omega))
  have hend := hdropped.kept l hsep h₄
  rw [boot_eq]
  refine ⟨⟨hend.boot, hend.table⟩, hend.slot, fun i => ?_, ?_, fun t => (hthreads t).1⟩
  · have hp := hend.pcb i
    exact ⟨hp.pid, hp.name, hp.pgd, hp.pgd_pa, hp.user_entry, hp.user_phys_base, hp.img_size⟩
  · intro i x t ht
    obtain rfl : tidOf i x = t := Option.some.inj ht
    have hslot := (hthreads (tidOf i x)).2
    rw [pidOf_tidOf, indexOf_tidOf, Nat.add_assoc, l.view_word (l.pcb_lo i)] at hslot
    exact hslot

/-! ## thread_first_run -/

theorem switch_mm_run (a : Arm) {t : Word} (ht : a.r 1 = t) (hfit : t.toNat + SIZEOF_THREAD ≤ 2 ^ 32) :
    ∃ lg, Arm.ctxsw_switch_mm a = ((), { a with
      ttbr0 := a.mem ((a.mem (t.toNat / 4 + 18) + PROC_PGD_PA_OFFSET).toNat / 4) ||| 0x4A#32
      r := Function.update a.r 2 0#32
      log := lg }) := by
  unfold Arm.ctxsw_switch_mm Arm.setReg
  simp only [Arm.bind_apply, Arm.get_apply, Arm.modify_apply, Arm.ldr, ht, Arm.proc_word hfit]
  exact ⟨_, rfl⟩

theorem tcb_first : l.tcb Kernel.first = l.threads := by
  unfold tcb Kernel.first
  simp

/-- `pgd_pa` by way of `first->proc`. -/
theorem first_pgd_pa {m : Mem} (hrep : l.Represents m (boot cfg)) :
    cfg.board.view m
      ((cfg.board.view m ((l.tcb Kernel.first).toNat / 4 + 18) + PROC_PGD_PA_OFFSET).toNat / 4) =
      (process_init cfg ⟨0, cfg.processes_pos⟩).pgd_pa := by
  have htcb := hrep.tcbs Kernel.first
  have hpcb := hrep.pcbs ⟨0, cfg.processes_pos⟩
  rw [boot_eq] at htcb hpcb
  have hpid : pidOf (Kernel.first : Tid cfg) = ⟨0, cfg.processes_pos⟩ := by
    apply Fin.ext
    exact Nat.zero_div _
  have hproc :
      cfg.board.view m ((l.tcb Kernel.first).toNat / 4 + 18) = l.pcb ⟨0, cfg.processes_pos⟩ := by
    rw [← hpid]
    exact htcb.proc
  have hword : (l.pcb ⟨0, cfg.processes_pos⟩ + PROC_PGD_PA_OFFSET).toNat / 4 =
      (l.pcb ⟨0, cfg.processes_pos⟩).toNat / 4 + 3 := by
    have h1 := (l.pcb_word_lt ⟨0, cfg.processes_pos⟩ (i := 3) (by omega)).2
    have h2 := l.pcbs.2.1
    have h3 := l.stack_after
    have h4 := l.fits
    unfold PROC_PGD_PA_OFFSET
    rw [BitVec.toNat_add, BitVec.toNat_ofNat]
    omega
  rw [hproc, hword, l.view_word (l.pcb_lo _)]
  exact hpcb.pgd_pa

theorem first_user_stack_top : (thread_init cfg Kernel.first).user_stack_top = USER_STACK_TOP := by
  have hidx : (indexOf (Kernel.first : Tid cfg)).val = 0 := Nat.zero_mod _
  show USER_STACK_TOP - BitVec.ofNat 32 (indexOf (Kernel.first : Tid cfg)).val * USER_STACK_SIZE = _
  rw [hidx]
  simp

/-- `context_switch(NULL, &threads[0])`, and where it goes from there. -/
theorem first_run {m : Mem} (hrep : l.Represents m (boot cfg)) {a : Arm}
    (hmem : a.mem = cfg.board.view m) (hr0 : a.r 0 = 0#32) (hr1 : a.r 1 = l.threads) :
    (Arm.context_switch a).2.pc = cfg.ret_from_first_entry ∧
      (Arm.ret_from_first_entry (Arm.context_switch a).2).2.Started USER_VIRT_BASE 0#32
        USER_STACK_TOP cfg.thread_kstack KSTACK_SIZE ∧
      (Arm.ret_from_first_entry (Arm.context_switch a).2).2.ttbr0 =
        (process_init cfg ⟨0, cfg.processes_pos⟩).pgd_pa ||| 0x4A#32 := by
  have htcb := hrep.tcbs Kernel.first
  rw [boot_eq] at htcb
  have hfit := l.tcb_fits Kernel.first
  have hframe := l.frame_toNat Kernel.first
  have hkstack := l.kstack
  have hstack := l.stack_after
  have hend := l.fits
  have hfirst : (Kernel.first : Tid cfg).val = 0 := rfl
  have hfa : (l.frame Kernel.first).toNat % 4 = 0 := by omega
  have hff : (l.frame Kernel.first).toNat + 100 ≤ 2 ^ 32 := by omega
  rw [← l.tcb_first] at hr1
  obtain ⟨lg, hmm⟩ := switch_mm_run a hr1 hfit
  rw [hmem, l.first_pgd_pa hrep] at hmm
  have hswitch : Arm.context_switch a = Arm.load_next (Arm.ctxsw_switch_mm a).2 := by
    unfold Arm.context_switch
    rw [Arm.bind_apply, Arm.get_apply, if_pos hr0, Arm.bind_apply]
  obtain ⟨m₁, hm₁⟩ : ∃ m₁, m₁ = (Arm.ctxsw_switch_mm a).2 := ⟨_, rfl⟩
  rw [hmm] at hm₁
  have hf :
      Arm.Framed cfg m₁.mem (l.tcb Kernel.first)
        (l.frame Kernel.first) USER_VIRT_BASE 0#32 USER_STACK_TOP := by
    rw [hm₁]
    show Arm.Framed cfg (cfg.board.view m) _ _ _ _ _
    rw [← first_user_stack_top]
    exact htcb.framed
  have hnext : m₁.r 1 = l.tcb Kernel.first := by
    rw [hm₁]
    exact hr1
  have httbr0 : m₁.ttbr0 = (process_init cfg ⟨0, cfg.processes_pos⟩).pgd_pa ||| 0x4A#32 := by rw [hm₁]
  obtain ⟨lg', hload, -⟩ := Arm.load_next_run hf hnext hfit hfa hff
  obtain ⟨lg'', hret, -⟩ :=
    Arm.ret_run (m := (Arm.load_next m₁).2) (by rw [hload]; exact hf) (by rw [hload]) hfa hff
  have htop : l.frame Kernel.first + 100#32 = cfg.thread_kstack + KSTACK_SIZE := by
    have hbase : (thread_init cfg Kernel.first).kstack_base = cfg.thread_kstack := by
      show cfg.thread_kstack + BitVec.ofNat 32 0 * KSTACK_SIZE = _
      simp
    unfold frame Arm.frameOf Arm.INIT_STACK_WORDS
    rw [hbase]
    exact BitVec.sub_add_cancel _ _
  rw [hswitch, hmm, ← hm₁, hret]
  have hentry : USER_VIRT_BASE &&& ~~~3#32 = USER_VIRT_BASE := by decide
  refine ⟨by rw [hload],
    ⟨by simp, by simp, by simp, hentry, rfl, fun i hi => if_neg hi, ?_, ?_, htop⟩, ?_⟩
  · rw [hload]
  · rw [hload]
  · rw [hload]
    exact httbr0

end KernelLd

/-- What the first user instruction finds. -/
structure InUser (cfg : Config) (m : Mem) (u : Arm) : Prop where
  started : u.Started USER_VIRT_BASE 0#32 USER_STACK_TOP cfg.thread_kstack KSTACK_SIZE
  ttbr0 : u.ttbr0 = (process_init cfg ⟨0, cfg.processes_pos⟩).pgd_pa ||| 0x4A#32
  /-- By that table the window of the process is its image, and zeros behind it. -/
  window : ∀ d < 0x100000, ∀ x : Access, ∃ pa,
    translation m (u.ttbr0 &&& 0xFFFFC000#32) true x (USER_VIRT_BASE + BitVec.ofNat 32 d) = some pa ∧
      m.byte pa = (cfg.user_images ⟨0, cfg.processes_pos⟩).image.getD d 0#8

theorem window_byte {m : Mem} (h : Placed cfg) (hb : Built cfg m) (q : Pid cfg)
    (hs : SlotHolds m q) {d : Nat} (hd : d < 0x100000) (x : Access) : ∃ pa,
      translation m (process_init cfg q).pgd_pa true x (USER_VIRT_BASE + BitVec.ofNat 32 d) = some pa ∧
        m.byte pa = (cfg.user_images q).image.getD d 0#8 := by
  have hva : (USER_VIRT_BASE + BitVec.ofNat 32 d).toNat = 0x40000000 + d := by
    have hbase : USER_VIRT_BASE.toNat = 0x40000000 := by decide
    rw [BitVec.toNat_add, BitVec.toNat_ofNat, hbase]
    omega
  have hu : UserVa (USER_VIRT_BASE + BitVec.ofNat 32 d) := ⟨by omega, by omega⟩
  have hwin := hb.user_window h q hu true x
  obtain ⟨pa, htr, hpa⟩ := Option.map_eq_some_iff.mp hwin
  have hslot := h.slot_toNat q
  have hbase := h.user_base_toNat
  have hstride := USER_PHYS_STRIDE_toNat
  have hram := h.ram_lt
  have hroom := h.slots
  have hq := q.isLt
  have heq : pa = (process_init cfg q).user_phys_base + BitVec.ofNat 32 d := by
    apply BitVec.eq_of_toNat_eq
    rw [BitVec.toNat_add, BitVec.toNat_ofNat, hpa, hslot, hva, hstride]
    rw [hstride] at hroom
    omega
  refine ⟨pa, htr, ?_⟩
  rw [heq]
  exact hs d hd

namespace Boot.Text

variable {l : KernelLd cfg} (t : Boot.Text l)

/-- The images are below `.bss`, so that they are where the loader has put them. -/
theorem image_same {m : Mem} {c : Boot.Cpu} (h : t.AtKmain m c) {i : Pid cfg}
    (himg : l.symbols.ImageAt m i) : l.symbols.ImageAt c.mem i := by
  intro d hd
  have hword := l.image_words i hd
  have h1 := l.binaries
  have h2 := l.data
  have h3 := l.stack_after
  have h4 := l.origin_ge
  have h5 := l.vectors
  have hout : ¬ t.Bss ((cfg.board.pa (l.symbols.start i) + BitVec.ofNat 32 d).toNat / 4) := by
    rw [t.bss_words]
    omega
  have hstack : ¬ t.SvcStack ((cfg.board.pa (l.symbols.start i) + BitVec.ofNat 32 d).toNat / 4) := by
    have h6 := l.bss_order
    rw [t.svcStack_words]
    omega
  unfold Mem.byte
  rw [h.same _ hout hstack]
  exact himg d hd

/-- From what start.S leaves, through `kmain` and whatever else it does, to the first instruction of the
first program. -/
theorem kmain_enters_user
    (hsize : ∀ i, (cfg.user_images i).image.length ≤ USER_REGION_SIZE.toNat) {m₀ : Mem}
    (himg : ∀ i, l.symbols.ImageAt m₀ i) {c : Boot.Cpu} (hc : t.AtKmain m₀ c) {m : Mem}
    (hk : l.Kmain c.mem m) : l.Represents m (boot cfg) ∧
      ∀ a : Arm, a.mem = cfg.board.view m → a.r 0 = 0#32 → a.r 1 = l.threads →
        (Arm.context_switch a).2.pc = cfg.ret_from_first_entry ∧
          InUser cfg m (Arm.ret_from_first_entry (Arm.context_switch a).2).2 := by
  have hsep := l.separate hsize
  have hrep := l.kmain_represents hsep ⟨hc.table, fun i => t.image_same hc (himg i)⟩ hk
  refine ⟨hrep, fun a hmem hr0 hr1 => ?_⟩
  obtain ⟨hpc, hstarted, httbr0⟩ := l.first_run hrep hmem hr0 hr1
  refine ⟨hpc, hstarted, httbr0, fun d hd x => ?_⟩
  have halign : (process_init cfg ⟨0, cfg.processes_pos⟩).pgd_pa.toNat % 16384 = 0 := by
    have h1 := hsep.placed.pgd_pa_toNat ⟨0, cfg.processes_pos⟩
    have h2 := hsep.placed.proc_aligned
    have h3 := hsep.placed.ram_aligned
    have h4 := hsep.placed.proc_lo
    omega
  rw [httbr0, ttbr0_base halign]
  exact window_byte hsep.placed hrep.tables _ (hrep.slots _) hd x

/-- A state that start.S can leave, without the walker. -/
theorem Arrived.atKmain_self {m : Mem} {c : Boot.Cpu} (h : t.Arrived m c) : t.AtKmain m c := by
  refine h.atKmain t ⟨rfl, fun _ htlb => htlb, fun _ => ⟨h.tlb, fun i x hx => ?_⟩⟩
  rw [h.tlb] at hx
  cases hx

end Boot.Text

/-- `kmain` with nothing else around the calls. -/
theorem KernelLd.kmain_alone (l : KernelLd cfg) (m : Mem) : ∃ m', l.Kmain m m' :=
  ⟨_, m, _, _, { Arm.twoThreads with mem := cfg.board.view (l.symbols.process_init_all m) },
    .refl m, .refl _, rfl, .refl _, .refl _⟩

/-- `thread_first_run(&threads[0])`, with anything in the other registers. -/
def firstCall (m : Mem) : Arm :=
  { Arm.twoThreads with
    mem := ones.board.view m
    r := fun i => if i = 0 then 0#32 else if i = 1 then onesLd.threads else 7#32 }

/-- The image of the first program is a single one, and zeros follow it. -/
theorem kmain_enters_user_ones :
    ∃ c m, Boot.onesText.AtKmain Boot.onesReset.mem c ∧ onesLd.Kmain c.mem m ∧
      onesLd.Represents m (boot ones) ∧
      InUser ones m (Arm.ret_from_first_entry (Arm.context_switch (firstCall m)).2).2 ∧
      ∀ d < 2, ∃ pa, translation m
        ((Arm.ret_from_first_entry (Arm.context_switch (firstCall m)).2).2.ttbr0 &&& 0xFFFFC000#32)
        true .execute (USER_VIRT_BASE + BitVec.ofNat 32 d) = some pa ∧
          m.byte pa = if d = 0 then 1#8 else 0#8 := by
  obtain ⟨-, c, -, -, harrived⟩ := Boot.onesText.boot_run (c := Boot.onesReset) (by decide) (by decide)
  have hc := harrived.atKmain_self
  obtain ⟨m, hk⟩ := onesLd.kmain_alone c.mem
  obtain ⟨hrep, hrun⟩ := Boot.onesText.kmain_enters_user (by decide) (ones_imageAt onesLd.symbols) hc hk
  have huser := (hrun (firstCall m) rfl rfl rfl).2
  refine ⟨c, m, hc, hk, hrep, huser, fun d hd => ?_⟩
  obtain ⟨pa, htr, hbyte⟩ := huser.window d (by omega) .execute
  refine ⟨pa, htr, hbyte.trans ?_⟩
  interval_cases d <;> decide

end CortexAOS
