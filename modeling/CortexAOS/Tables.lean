import CortexAOS.Platform

/-!
# The kernel's variables

The PCB and TCB tables of `proc.h` and `thread.h`, the static variables of the scheduler, the
console and the timer, and the boot code that fills the tables.
-/

namespace CortexAOS

inductive task_state_t where
  | TASK_READY | TASK_RUNNING | TASK_BLOCKED | TASK_DEAD
  deriving DecidableEq, Repr

open task_state_t

variable (cfg : Config)

structure process_t where
  pid : Nat
  name : Option CStr
  pgd : Word
  pgd_pa : Word
  user_entry : Word
  user_phys_base : Word
  threads : Fin cfg.THREADS_PER_PROC → Option (Tid cfg)
  img_size : Word

/-- `ctx`, which only `context_switch.S` and the first frame use, is part of the machine. -/
structure thread_t where
  proc : Pid cfg
  tid : Nat
  index : Nat
  state : task_state_t
  kstack_base : Word
  kstack_size : Word
  user_stack_top : Word

/-- `current` is not null once `thread_init_all` has run, and only `perform_switch` writes it. -/
structure Kernel where
  processes : Pid cfg → process_t cfg
  threads : Tid cfg → thread_t cfg
  current : Tid cfg
  need_reschedule : Bool
  switch_count : Word
  uart_waitq : Nat → Option (Tid cfg)
  waitq_head : Nat
  waitq_count : Nat
  wake_hint : Option (Tid cfg)
  rx_buf : Nat → Byte
  rx_head : Word
  rx_tail : Word
  tick_count : Word

variable {cfg}

namespace Kernel

def state (k : Kernel cfg) (t : Tid cfg) : task_state_t := (k.threads t).state

def setState (k : Kernel cfg) (t : Tid cfg) (st : task_state_t) : Kernel cfg :=
  { k with threads := Function.update k.threads t { k.threads t with state := st } }

def first : Tid cfg := ⟨0, cfg.num_threads_pos⟩

end Kernel

/-! ## What the kernel is seen to do -/

/-- A null string is `none`. -/
inductive PrintArg where
  | str (s : Option CStr)
  | u32 (w : Word)

/-- One visible action of kernel code, in the order of execution within a step. -/
inductive Obs (cfg : Config) where
  | printf (fmt : String) (args : List PrintArg)
  /-- A byte handed to the console chip by `uart_putc`. -/
  | putc (c : Byte)
  | accepted (c : Byte)
  | rejected (c : Byte)
  /-- A byte of user memory read or written through a user pointer. -/
  | load (va : Word)
  | store (va : Word) (c : Byte)
  | queued (t : Tid cfg)
  | switched (prev next : Tid cfg)
  /-- A `sys_read` with a valid buffer and `len > 0` has returned these bytes. -/
  | readDone (t : Tid cfg) (len : Word) (bytes : List Byte)
  /-- `syscall_dispatch` has stored the result in the saved `r0`. -/
  | sysret (t : Tid cfg) (ret : Word)

/-! ## Boot -/

/-- Static storage as `start.S` leaves it. -/
def bss : Kernel cfg where
  processes := fun _ => ⟨0, none, 0, 0, 0, 0, fun _ => none, 0⟩
  threads := fun _ => ⟨⟨0, cfg.processes_pos⟩, 0, 0, TASK_READY, 0, 0, 0⟩
  current := Kernel.first
  need_reschedule := false
  switch_count := 0
  uart_waitq := fun _ => none
  waitq_head := 0
  waitq_count := 0
  wake_hint := none
  rx_buf := fun _ => 0
  rx_head := 0
  rx_tail := 0
  tick_count := 0

def PGD_SIZE : Word := 16384#32

def process_init (cfg : Config) (i : Pid cfg) : process_t cfg where
  pid := i.val
  name := some (cfg.user_images i).name
  pgd := cfg.proc_pgd + BitVec.ofNat 32 i.val * PGD_SIZE
  pgd_pa := cfg.proc_pgd + BitVec.ofNat 32 i.val * PGD_SIZE - cfg.board.PHYS_OFFSET
  user_entry := USER_VIRT_BASE
  user_phys_base := cfg.board.USER_PHYS_BASE + BitVec.ofNat 32 i.val * USER_PHYS_STRIDE
  threads := fun _ => none
  img_size := BitVec.ofNat 32 (cfg.user_images i).image.length

def process_round (k : Kernel cfg) (i : Pid cfg) : Kernel cfg :=
  { k with processes := Function.update k.processes i (process_init cfg i) }

def process_init_all (k : Kernel cfg) : Kernel cfg :=
  (List.finRange cfg.NUM_PROCESSES).foldl process_round k

def thread_init (cfg : Config) (tid : Tid cfg) : thread_t cfg where
  proc := pidOf tid
  tid := tid.val
  index := (indexOf tid).val
  state := TASK_READY
  kstack_base := cfg.thread_kstack + BitVec.ofNat 32 tid.val * KSTACK_SIZE
  kstack_size := KSTACK_SIZE
  user_stack_top := USER_STACK_TOP - BitVec.ofNat 32 (indexOf tid).val * USER_STACK_SIZE

def process_t.setThread (p : process_t cfg) (i : Fin cfg.THREADS_PER_PROC) (t : Tid cfg) :
    process_t cfg :=
  { p with threads := Function.update p.threads i (some t) }

def thread_round (k : Kernel cfg) (tid : Tid cfg) : Kernel cfg :=
  { k with
    threads := Function.update k.threads tid (thread_init cfg tid)
    processes := Function.update k.processes (pidOf tid)
      ((k.processes (pidOf tid)).setThread (indexOf tid) tid) }

def thread_init_all (k : Kernel cfg) : Kernel cfg :=
  { (List.finRange cfg.NUM_THREADS).foldl thread_round k with current := Kernel.first }

/-- The variables when `kmain` calls `thread_first_run`. -/
def boot (cfg : Config) : Kernel cfg := thread_init_all (process_init_all bss)

/-! ## What the two loops leave -/

theorem process_loop (l : List (Pid cfg)) (k : Kernel cfg) :
    l.foldl process_round k =
      { k with processes := fun p => if p ∈ l then process_init cfg p else k.processes p } := by
  induction l generalizing k with
  | nil => simp
  | cons i l ih =>
    rw [List.foldl_cons, ih, process_round]
    congr 1
    funext p
    by_cases hp : p ∈ l
    · simp [hp]
    · by_cases hi : p = i
      · subst hi; simp [hp]
      · simp [hp, hi]

theorem tidOf_eq_iff (p : Pid cfg) (i : Fin cfg.THREADS_PER_PROC) (t : Tid cfg) :
    tidOf p i = t ↔ p = pidOf t ∧ i = indexOf t := by
  constructor
  · rintro rfl; simp
  · rintro ⟨rfl, rfl⟩; simp

theorem thread_round_processes (k : Kernel cfg) (t : Tid cfg) (p : Pid cfg) :
    (thread_round k t).processes p = { k.processes p with
      threads := fun i => if tidOf p i = t then some t else (k.processes p).threads i } := by
  unfold thread_round
  by_cases hp : p = pidOf t
  · subst hp
    simp only [Function.update_self, process_t.setThread]
    congr 1
    funext i
    by_cases hi : i = indexOf t
    · subst hi; simp
    · simp [tidOf_eq_iff, hi]
  · simp [hp, tidOf_eq_iff]

theorem thread_loop (l : List (Tid cfg)) (k : Kernel cfg) :
    l.foldl thread_round k = { k with
      threads := fun t => if t ∈ l then thread_init cfg t else k.threads t
      processes := fun p => { k.processes p with
        threads := fun i =>
          if tidOf p i ∈ l then some (tidOf p i) else (k.processes p).threads i } } := by
  induction l generalizing k with
  | nil => simp
  | cons j l ih =>
    rw [List.foldl_cons, ih]
    simp only [thread_round_processes]
    unfold thread_round
    congr 1
    · funext p
      congr 1
      funext i
      by_cases hl : tidOf p i ∈ l
      · simp [hl]
      · by_cases hj : tidOf p i = j
        · subst hj; simp [hl]
        · simp [hl, hj]
    · funext t
      by_cases hl : t ∈ l
      · simp [hl]
      · by_cases hj : t = j
        · subst hj; simp [hl]
        · simp [hl, hj]

theorem boot_eq : boot cfg = { bss with
    processes := fun p => { process_init cfg p with threads := fun i => some (tidOf p i) }
    threads := thread_init cfg
    current := Kernel.first } := by
  simp [boot, thread_init_all, process_init_all, thread_loop, process_loop]

/-- The tables agree with each other and with the layout by `tid`. No code changes them after boot. -/
structure Kernel.TablesOk (k : Kernel cfg) : Prop where
  tid : ∀ t, (k.threads t).tid = t.val
  proc : ∀ t, (k.threads t).proc = pidOf t
  pid : ∀ p, (k.processes p).pid = p.val
  slots : ∀ p i, (k.processes p).threads i = some (tidOf p i)
  pgd_pa : ∀ p, (k.processes p).pgd_pa = (process_init cfg p).pgd_pa
  kstack_base : ∀ t, (k.threads t).kstack_base = (thread_init cfg t).kstack_base
  kstack_size : ∀ t, (k.threads t).kstack_size = KSTACK_SIZE

theorem Kernel.TablesOk.frame {k k' : Kernel cfg} (h : k.TablesOk) (hp : k'.processes = k.processes)
    (ht : ∀ t, ∃ st, k'.threads t = { k.threads t with state := st }) : k'.TablesOk := by
  refine ⟨?_, ?_, ?_, ?_, ?_, ?_, ?_⟩
  · intro t; obtain ⟨st, he⟩ := ht t; rw [he]; exact h.tid t
  · intro t; obtain ⟨st, he⟩ := ht t; rw [he]; exact h.proc t
  · intro p; rw [hp]; exact h.pid p
  · intro p i; rw [hp]; exact h.slots p i
  · intro p; rw [hp]; exact h.pgd_pa p
  · intro t; obtain ⟨st, he⟩ := ht t; rw [he]; exact h.kstack_base t
  · intro t; obtain ⟨st, he⟩ := ht t; rw [he]; exact h.kstack_size t

theorem boot_tables_ok : (boot cfg).TablesOk := by
  rw [boot_eq]
  exact ⟨fun _ => rfl, fun _ => rfl, fun _ => rfl, fun _ _ => rfl, fun _ => rfl, fun _ => rfl,
    fun _ => rfl⟩

end CortexAOS
