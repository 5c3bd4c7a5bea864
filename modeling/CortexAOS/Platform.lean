import Mathlib.Data.Fin.Basic
import Mathlib.Data.List.Basic
import Mathlib.Order.Fin.Basic

/-!
# Build-time constants

`platform.h` and the two `board.h`, with what the linker and `user_binaries.S` supply.
-/

namespace CortexAOS

abbrev Word := BitVec 32
abbrev Byte := BitVec 8

/-- A C string, without its terminator. -/
abbrev CStr := List Byte

def ascii (s : String) : CStr := s.toList.map fun c => BitVec.ofNat 8 c.toNat

def chr (c : Char) : Byte := BitVec.ofNat 8 c.toNat

def digit (i : Nat) : Byte := chr (Nat.digitChar i)

theorem digit_eq {i : Nat} (h : i < 10) : 0x30#8 + BitVec.ofNat 8 i = digit i := by
  have hall : ∀ j : Fin 10, 0x30#8 + BitVec.ofNat 8 j.val = digit j.val := by decide
  exact hall ⟨i, h⟩

/-! ## platform.h -/

def KERNEL_VIRT_BASE : Word := 0xC0000000#32
def USER_VIRT_BASE : Word := 0x40000000#32
def USER_REGION_SIZE : Word := 0x00100000#32
def USER_STACK_TOP : Word := USER_VIRT_BASE + USER_REGION_SIZE
def KSTACK_SIZE : Word := 8192#32
def USER_STACK_SIZE : Word := 0x00010000#32

theorem KSTACK_SIZE_toNat : KSTACK_SIZE.toNat = 8192 := by decide

/-! ## board.h -/

structure Board where
  RAM_BASE : Word
  RAM_SIZE : Word
  /-- The ranges that `platform_map_peripherals` maps, each as its address and its size. -/
  periph : List (Word × Word)

def Board.PHYS_OFFSET (b : Board) : Word := KERNEL_VIRT_BASE - b.RAM_BASE
def Board.USER_PHYS_BASE (b : Board) : Word := b.RAM_BASE + 0x00200000#32
def USER_PHYS_STRIDE : Word := 0x00100000#32

def qemu : Board where
  RAM_BASE := 0x70000000#32
  RAM_SIZE := 0x08000000#32
  periph := [(0x10000000#32, 0x00200000#32), (0x1E000000#32, 0x00100000#32)]

def bbb : Board where
  RAM_BASE := 0x80000000#32
  RAM_SIZE := 0x20000000#32
  periph := [(0x44E00000#32, 0x00100000#32), (0x48000000#32, 0x01000000#32)]

/-! ## One build of the kernel -/

structure user_image_t where
  name : CStr
  image : List Byte

/-- The table sizes, the embedded programs and the addresses that the linker chose. -/
structure Config where
  board : Board
  NUM_PROCESSES : Nat
  THREADS_PER_PROC : Nat
  user_images : Fin NUM_PROCESSES → user_image_t
  boot_pgd : Word
  proc_pgd : Word
  thread_kstack : Word
  ret_from_first_entry : Word
  processes_pos : 0 < NUM_PROCESSES
  threads_pos : 0 < THREADS_PER_PROC

variable (cfg : Config)

abbrev Config.NUM_THREADS : Nat := cfg.NUM_PROCESSES * cfg.THREADS_PER_PROC

/-- A non-null `process_t *`. -/
abbrev Pid := Fin cfg.NUM_PROCESSES

/-- A non-null `thread_t *`. -/
abbrev Tid := Fin cfg.NUM_THREADS

variable {cfg}

theorem Config.num_threads_pos : 0 < cfg.NUM_THREADS := Nat.mul_pos cfg.processes_pos cfg.threads_pos

/-- `&threads[i % NUM_THREADS]`. -/
def wrap (i : Nat) : Tid cfg := ⟨i % cfg.NUM_THREADS, Nat.mod_lt _ cfg.num_threads_pos⟩

/-- `tid / THREADS_PER_PROC`, the process that `thread_init_all` gives a thread to. -/
def pidOf (t : Tid cfg) : Pid cfg :=
  ⟨t.val / cfg.THREADS_PER_PROC, Nat.div_lt_of_lt_mul (by rw [Nat.mul_comm]; exact t.isLt)⟩

def indexOf (t : Tid cfg) : Fin cfg.THREADS_PER_PROC :=
  ⟨t.val % cfg.THREADS_PER_PROC, Nat.mod_lt _ cfg.threads_pos⟩

def tidOf (p : Pid cfg) (i : Fin cfg.THREADS_PER_PROC) : Tid cfg :=
  ⟨p.val * cfg.THREADS_PER_PROC + i.val, by
    calc p.val * cfg.THREADS_PER_PROC + i.val
        < p.val * cfg.THREADS_PER_PROC + cfg.THREADS_PER_PROC := by omega
      _ = (p.val + 1) * cfg.THREADS_PER_PROC := by rw [Nat.add_mul, Nat.one_mul]
      _ ≤ cfg.NUM_THREADS := Nat.mul_le_mul_right _ p.isLt⟩

@[simp] theorem pidOf_tidOf (p : Pid cfg) (i : Fin cfg.THREADS_PER_PROC) : pidOf (tidOf p i) = p := by
  apply Fin.ext
  simp only [pidOf, tidOf]
  rw [Nat.add_comm, Nat.add_mul_div_right _ _ cfg.threads_pos, Nat.div_eq_of_lt i.isLt, Nat.zero_add]

@[simp] theorem indexOf_tidOf (p : Pid cfg) (i : Fin cfg.THREADS_PER_PROC) :
    indexOf (tidOf p i) = i := by
  apply Fin.ext
  simp only [indexOf, tidOf]
  rw [Nat.add_comm, Nat.add_mul_mod_self_right, Nat.mod_eq_of_lt i.isLt]

@[simp] theorem tidOf_pidOf (t : Tid cfg) : tidOf (pidOf t) (indexOf t) = t := by
  apply Fin.ext
  exact Nat.div_add_mod' t.val cfg.THREADS_PER_PROC

/-- The sizes and programs of the repository, on either board. -/
def shipped (b : Board) (images : Fin 3 → List Byte)
    (boot_pgd proc_pgd thread_kstack ret_from_first_entry : Word) : Config where
  board := b
  NUM_PROCESSES := 3
  THREADS_PER_PROC := 2
  user_images := fun i => ⟨ascii (["counter", "runaway", "shell"].getD i.val ""), images i⟩
  boot_pgd := boot_pgd
  proc_pgd := proc_pgd
  thread_kstack := thread_kstack
  ret_from_first_entry := ret_from_first_entry
  processes_pos := by decide
  threads_pos := by decide

def demo : Config :=
  shipped qemu (fun _ => []) 0xC0114000#32 0xC0118000#32 0xC0126000#32 0xC0100400#32

end CortexAOS
