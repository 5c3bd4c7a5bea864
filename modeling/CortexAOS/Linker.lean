import CortexAOS.Entry
import CortexAOS.Images

/-!
# kernel_qemu.ld and kernel_bbb.ld

What the rest of the development takes for granted about addresses, from what the scripts say. The
one thing that no script checks is that the kernel ends below the first user slot.
-/

namespace CortexAOS

variable {cfg : Config}

/-- board.h -/
def Board.KERNEL_PHYS_BASE (b : Board) : Word :=
  if b.RAM_BASE = 0x70000000#32 then 0x70100000#32 else 0x80000000#32

/-- ORIGIN(VIRT). -/
def Board.ORIGIN (b : Board) : Nat := (b.KERNEL_PHYS_BASE + b.PHYS_OFFSET).toNat

/-- sizeof(thread_t). -/
def TCB_SIZE : Nat := 100

def Beside (a n b k : Nat) : Prop := a + n ≤ b ∨ b + k ≤ a

/-- One run of the linker: where it has put the sections and, in `.bss`, the variables. It may leave
gaps for the alignment of an input section wherever one begins. -/
structure KernelLd (cfg : Config) where
  _text_start : Nat
  _vectors_start : Nat
  _text_end : Nat
  user_binaries : Nat
  user_binaries_end : Nat
  _data_start : Nat
  _data_end : Nat
  _bss_start : Nat
  _bss_end : Nat
  stack : Nat
  processes : Word
  threads : Word
  /-- `img->start` and `img->name` of `user_images`. -/
  img_start : Pid cfg → Word
  img_name : Pid cfg → Word
  board : cfg.board = qemu ∨ cfg.board = bbb
  text : _text_start = cfg.board.ORIGIN
  vectors : _text_start ≤ _vectors_start ∧ _vectors_start % 32 = 0 ∧ _vectors_start + 60 ≤ _text_end
  binaries : _text_end ≤ user_binaries ∧ user_binaries ≤ user_binaries_end ∧
    user_binaries_end ≤ _data_start
  data : _data_start ≤ _data_end ∧ _data_end ≤ _bss_start
  bss_aligned : _bss_start % 8 = 0 ∧ _bss_end % 8 = 0
  boot_pgd : _bss_start ≤ cfg.boot_pgd.toNat ∧ cfg.boot_pgd.toNat % 16384 = 0
  proc_pgd : cfg.boot_pgd.toNat + 16384 ≤ cfg.proc_pgd.toNat ∧ cfg.proc_pgd.toNat % 16384 = 0
  kstack : cfg.proc_pgd.toNat + cfg.NUM_PROCESSES * 16384 ≤ cfg.thread_kstack.toNat ∧
    cfg.thread_kstack.toNat + cfg.NUM_THREADS * 8192 ≤ _bss_end ∧ cfg.thread_kstack.toNat % 8 = 0
  pcbs : cfg.proc_pgd.toNat + cfg.NUM_PROCESSES * 16384 ≤ processes.toNat ∧
    processes.toNat + cfg.NUM_PROCESSES * PCB_SIZE cfg ≤ _bss_end ∧ processes.toNat % 4 = 0
  tcbs : cfg.proc_pgd.toNat + cfg.NUM_PROCESSES * 16384 ≤ threads.toNat ∧
    threads.toNat + cfg.NUM_THREADS * TCB_SIZE ≤ _bss_end ∧ threads.toNat % 4 = 0
  pcbs_tcbs :
    Beside processes.toNat (cfg.NUM_PROCESSES * PCB_SIZE cfg) threads.toNat (cfg.NUM_THREADS * TCB_SIZE)
  pcbs_kstack : Beside processes.toNat (cfg.NUM_PROCESSES * PCB_SIZE cfg) cfg.thread_kstack.toNat
    (cfg.NUM_THREADS * 8192)
  tcbs_kstack :
    Beside threads.toNat (cfg.NUM_THREADS * TCB_SIZE) cfg.thread_kstack.toNat (cfg.NUM_THREADS * 8192)
  images : ∀ i, user_binaries ≤ (img_start i).toNat ∧
    (img_start i).toNat + (cfg.user_images i).image.length ≤ user_binaries_end
  stack_after : _bss_end ≤ stack ∧ stack % 8 = 0
  /-- Not in the scripts. -/
  fits : stack + 0x2E00 ≤ 0xC0200000

namespace KernelLd

def _fiq_stack_top (l : KernelLd cfg) : Nat := l.stack + 0x200
def _irq_stack_top (l : KernelLd cfg) : Nat := l._fiq_stack_top + 0x400
def _abt_stack_top (l : KernelLd cfg) : Nat := l._irq_stack_top + 0x400
def _und_stack_top (l : KernelLd cfg) : Nat := l._abt_stack_top + 0x400
def _svc_stack_top (l : KernelLd cfg) : Nat := l._und_stack_top + 0x2000

/-- What `process.c` refers to. -/
def symbols (l : KernelLd cfg) : Symbols cfg := ⟨l.processes, l.img_start, l.img_name⟩

variable (l : KernelLd cfg)

theorem und_top : l._und_stack_top = l.stack + 0xE00 := by
  unfold _und_stack_top _abt_stack_top _irq_stack_top _fiq_stack_top
  omega

theorem svc_top : l._svc_stack_top = l.stack + 0x2E00 := by
  have hund := l.und_top
  unfold _svc_stack_top
  omega

include l

theorem origin_ge : 0xC0000000 ≤ l._text_start := by
  rw [l.text]
  rcases l.board with hb | hb <;> rw [hb] <;> decide

theorem bss_order : l._text_start ≤ l._bss_start ∧ l._bss_start ≤ l._bss_end := by
  have h1 := l.vectors
  have h2 := l.binaries
  have h3 := l.data
  have h4 := l.boot_pgd
  have h5 := l.proc_pgd
  have h6 := l.kstack
  omega

theorem image_length (i : Pid cfg) : (cfg.user_images i).image.length ≤ USER_REGION_SIZE.toNat * 2 := by
  have h1 := l.images i
  have h2 := l.binaries
  have h3 := l.data
  have h4 := l.bss_order
  have h5 := l.stack_after
  have h6 := l.fits
  have h7 := l.origin_ge
  have h8 := l.vectors
  rw [USER_REGION_SIZE_toNat]
  omega

/-- The assumptions about the page tables. -/
theorem linked : Linked cfg := by
  have h1 := l.origin_ge
  have h2 := l.bss_order
  have h3 := l.boot_pgd
  have h4 := l.proc_pgd
  have h5 := l.kstack
  have h6 := l.stack_after
  have h7 := l.fits
  refine ⟨l.board, h3.2, h4.2, by omega, h4.1, by omega, fun i => ?_⟩
  have h8 := l.image_length i
  rw [USER_REGION_SIZE_toNat] at h8
  omega

/-- Addresses of the kernel, as the tables map them. -/
theorem pa_toNat {va : Word} (hlo : 0xC0000000 ≤ va.toNat) :
    (cfg.board.pa va).toNat = va.toNat - 0xC0000000 + cfg.board.RAM_BASE.toNat := by
  have h1 := l.linked.placed.offset_toNat
  have h2 := l.linked.placed.ram_lt
  have h3 := va.isLt
  unfold Board.pa
  rw [BitVec.toNat_sub, h1]
  omega

theorem pcb_words (i : Pid cfg) {j : Nat} (hj : l.symbols.pcbWords i j) :
    l.processes.toNat - 0xC0000000 + cfg.board.RAM_BASE.toNat ≤ 4 * j ∧
      4 * j + 4 ≤
        l.processes.toNat + cfg.NUM_PROCESSES * PCB_SIZE
          cfg - 0xC0000000 + cfg.board.RAM_BASE.toNat := by
  have h1 := l.origin_ge
  have h2 := l.bss_order
  have h3 := l.boot_pgd
  have h4 := l.proc_pgd
  have h5 := l.pcbs
  have h6 := l.stack_after
  have h7 := l.fits
  have h8 := l.linked.placed.ram_aligned
  have hroom := pcb_room i
  have hmul : (BitVec.ofNat 32 i.val * BitVec.ofNat 32 (PCB_SIZE cfg)).toNat = i.val * PCB_SIZE cfg := by
    rw [← BitVec.ofNat_mul, BitVec.toNat_ofNat]
    exact Nat.mod_eq_of_lt (by omega)
  have hva : (l.processes + BitVec.ofNat 32 i.val * BitVec.ofNat 32 (PCB_SIZE cfg)).toNat =
      l.processes.toNat + i.val * PCB_SIZE cfg := by
    rw [BitVec.toNat_add, hmul]
    omega
  have hpcb : (l.symbols.pcb i).toNat = l.processes.toNat + i.val * PCB_SIZE cfg - 0xC0000000 +
      cfg.board.RAM_BASE.toNat := by
    rw [show l.symbols.pcb i = cfg.board.pa
      (l.processes + BitVec.ofNat 32 i.val * BitVec.ofNat 32 (PCB_SIZE cfg)) from rfl,
      l.pa_toNat (by omega), hva]
  have halign : i.val * PCB_SIZE cfg % 4 = 0 := by
    rw [PCB_SIZE_eq, Nat.mul_left_comm]
    exact Nat.mul_mod_right _ _
  have hsize := PCB_SIZE_eq cfg
  obtain ⟨hj1, hj2⟩ := hj
  rw [hpcb] at hj1 hj2
  omega

theorem table_words (q : Pid cfg) {j : Nat} (hj : InTable (process_init cfg q).pgd_pa j) :
    cfg.proc_pgd.toNat - 0xC0000000 + cfg.board.RAM_BASE.toNat ≤ 4 * j ∧
      4 * j + 4 ≤
        cfg.proc_pgd.toNat + cfg.NUM_PROCESSES * 16384 - 0xC0000000 + cfg.board.RAM_BASE.toNat := by
  have h1 := l.linked.placed.pgd_pa_toNat q
  have h2 := l.linked.placed.proc_lo
  have h3 := l.linked.placed.ram_aligned
  have h4 := l.proc_pgd
  have hq := q.isLt
  have hle : (q.val + 1) * 16384 ≤ cfg.NUM_PROCESSES * 16384 := by omega
  obtain ⟨hj1, hj2⟩ := hj
  unfold PGD_ENTRIES at hj2
  omega

theorem boot_words {j : Nat} (hj : InTable cfg.boot_pgd_pa j) :
    cfg.boot_pgd.toNat - 0xC0000000 + cfg.board.RAM_BASE.toNat ≤ 4 * j ∧
      4 * j + 4 ≤ cfg.boot_pgd.toNat + 16384 - 0xC0000000 + cfg.board.RAM_BASE.toNat := by
  have h1 := l.linked.placed.boot_pgd_toNat
  have h2 := l.linked.placed.boot_lo
  have h3 := l.linked.placed.ram_aligned
  have h4 := l.boot_pgd
  obtain ⟨hj1, hj2⟩ := hj
  unfold PGD_ENTRIES at hj2
  omega

theorem slot_words (q : Pid cfg) {j : Nat} (hj : slotWords q j) :
    cfg.board.RAM_BASE.toNat + 0x200000 ≤ 4 * j := by
  have h1 := l.linked.placed.slot_toNat q
  have h2 := l.linked.placed.ram_aligned
  have hj1 := hj.1
  rw [h1] at hj1
  omega

theorem image_words (i : Pid cfg) {d : Nat} (hd : d < (cfg.user_images i).image.length) :
    4 * ((cfg.board.pa (l.symbols.start i) + BitVec.ofNat 32 d).toNat / 4) <
      l.user_binaries_end - 0xC0000000 + cfg.board.RAM_BASE.toNat := by
  have h1 := l.images i
  have h2 := l.binaries
  have h3 := l.data
  have h4 := l.bss_order
  have h5 := l.stack_after
  have h6 := l.fits
  have h7 := l.origin_ge
  have h8 := l.vectors
  have h9 := l.linked.placed.ram_lt
  rw [show l.symbols.start i = l.img_start i from rfl, BitVec.toNat_add, BitVec.toNat_ofNat,
    l.pa_toNat (by omega)]
  omega

/-- The assumptions of `process_init_all`. `user.ld` rules out an image larger than the window. -/
theorem separate (hsize : ∀ i, (cfg.user_images i).image.length ≤ USER_REGION_SIZE.toNat) :
    l.symbols.Separate := by
  have h1 := l.origin_ge
  have h2 := l.bss_order
  have h3 := l.boot_pgd
  have h4 := l.proc_pgd
  have h5 := l.pcbs
  have h6 := l.stack_after
  have h7 := l.fits
  have h8 := l.binaries
  have h9 := l.data
  refine ⟨l.linked.placed, h5.2.2, by show _ ≤ l.processes.toNat; omega,
    by show l.processes.toNat + _ ≤ _; omega, hsize, ?_, ?_, ?_, ?_, ?_, ?_⟩
  · intro i j hp hb
    have hp' := l.pcb_words i hp
    have hb' := l.boot_words hb
    omega
  · intro i q j hp ht
    have hp' := l.pcb_words i hp
    have ht' := l.table_words q ht
    omega
  · intro i q j hp hs
    have hp' := l.pcb_words i hp
    have hs' := l.slot_words q hs
    omega
  · intro i q j ht hs
    have ht' := l.table_words i ht
    have hs' := l.slot_words q hs
    have hk := l.kstack
    omega
  · intro q j hb hs
    have hb' := l.boot_words hb
    have hs' := l.slot_words q hs
    have hk := l.kstack
    omega
  · rintro i q d hd hr
    have hd' := l.image_words i hd
    rcases hr with hs | hp | ht
    · have := l.slot_words q hs
      have hk := l.kstack
      omega
    · have := l.pcb_words q hp
      omega
    · have := l.table_words q ht
      omega

end KernelLd

/-- A small kernel for QEMU. -/
def onesLd : KernelLd ones where
  _text_start := 0xC0100000
  _vectors_start := 0xC0100200
  _text_end := 0xC0110000
  user_binaries := 0xC0110000
  user_binaries_end := 0xC0111000
  _data_start := 0xC0111000
  _data_end := 0xC0112000
  _bss_start := 0xC0112000
  _bss_end := 0xC0132000
  stack := 0xC0132000
  processes := 0xC0124000#32
  threads := 0xC0124100#32
  img_start := fun i => 0xC0110000#32 + BitVec.ofNat 32 i.val * 16#32
  img_name := fun _ => 0xC0111000#32
  board := Or.inl rfl
  text := by decide
  vectors := by decide
  binaries := by decide
  data := by decide
  bss_aligned := by decide
  boot_pgd := by decide
  proc_pgd := by decide
  kstack := by decide
  pcbs := by decide
  tcbs := by decide
  pcbs_tcbs := Or.inl (by decide)
  pcbs_kstack := Or.inl (by decide)
  tcbs_kstack := Or.inl (by decide)
  images := by decide
  stack_after := by decide
  fits := by decide

end CortexAOS
