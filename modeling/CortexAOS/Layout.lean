import CortexAOS.Tables
import CortexAOS.Lib.Bits
import Mathlib.Algebra.Ring.Nat
import Mathlib.Logic.Equiv.Defs

/-!
# The tables of process.c and thread.c against each other

Both loops run once, over whatever the tables held before.
-/

namespace CortexAOS

variable {cfg : Config}

/-! ## Threads and slots -/

def slotEquiv (cfg : Config) : Pid cfg × Fin cfg.THREADS_PER_PROC ≃ Tid cfg where
  toFun s := tidOf s.1 s.2
  invFun t := (pidOf t, indexOf t)
  left_inv s := by simp
  right_inv t := by simp

theorem init_processes (k : Kernel cfg) (p : Pid cfg) :
    (thread_init_all (process_init_all k)).processes p =
      { process_init cfg p with threads := fun i => some (tidOf p i) } := by
  simp [thread_init_all, process_init_all, thread_loop, process_loop]

theorem init_threads (k : Kernel cfg) (t : Tid cfg) :
    (thread_init_all (process_init_all k)).threads t = thread_init cfg t := by
  simp [thread_init_all, thread_loop]

/-! ## Stacks -/

def InKstack (k : Kernel cfg) (t : Tid cfg) (x : Word) : Prop :=
  x - (k.threads t).kstack_base < (k.threads t).kstack_size

def InUstack (k : Kernel cfg) (t : Tid cfg) (x : Word) : Prop :=
  (k.threads t).user_stack_top - USER_STACK_SIZE ≤ x ∧ x < (k.threads t).user_stack_top

/-- The array `thread_kstack` is no larger than the address space. -/
def KstackFits (cfg : Config) : Prop := cfg.NUM_THREADS * KSTACK_SIZE.toNat ≤ 2 ^ 32

theorem USER_STACK_SIZE_toNat : USER_STACK_SIZE.toNat = 0x10000 := by decide

theorem kstack_offset {n : Nat} {x : Word} (base : Word) (h : (n + 1) * 8192 ≤ 2 ^ 32)
    (hx : x - (base + BitVec.ofNat 32 n * KSTACK_SIZE) < KSTACK_SIZE) :
    n * 8192 ≤ (x - base).toNat ∧ (x - base).toNat < (n + 1) * 8192 := by
  have hmul : (BitVec.ofNat 32 n * KSTACK_SIZE).toNat = n * 8192 := by
    rw [Lib.Bits.toNat_ofNat_mul (by rw [KSTACK_SIZE_toNat]; omega), KSTACK_SIZE_toNat]
  have hlt := (x - base).isLt
  have hsub :
      x - (base + BitVec.ofNat 32 n * KSTACK_SIZE) = x - base - BitVec.ofNat 32 n * KSTACK_SIZE := by
    rw [BitVec.sub_eq_add_neg, BitVec.sub_eq_add_neg, BitVec.sub_eq_add_neg, BitVec.neg_add,
      BitVec.sub_eq_add_neg, BitVec.add_assoc]
  rw [hsub, BitVec.lt_def, BitVec.toNat_sub, hmul, KSTACK_SIZE_toNat] at hx
  omega

theorem kstacks_disjoint (hfit : KstackFits cfg) {t u : Tid cfg} {x : Word}
    (ht : x - (thread_init cfg t).kstack_base < KSTACK_SIZE)
    (hu : x - (thread_init cfg u).kstack_base < KSTACK_SIZE) : t = u := by
  unfold KstackFits at hfit
  rw [KSTACK_SIZE_toNat] at hfit
  have h1 := kstack_offset cfg.thread_kstack ((Nat.mul_le_mul_right 8192 t.isLt).trans hfit) ht
  have h2 := kstack_offset cfg.thread_kstack ((Nat.mul_le_mul_right 8192 u.isLt).trans hfit) hu
  apply Fin.ext
  omega

theorem ustack_bounds {i n : Nat} (hi : i < n)
    (hfit : n * USER_STACK_SIZE.toNat ≤ USER_REGION_SIZE.toNat) :
    (USER_STACK_TOP - BitVec.ofNat 32 i * USER_STACK_SIZE).toNat = 0x40100000 - i * 0x10000 ∧
      (USER_STACK_TOP - BitVec.ofNat 32 i * USER_STACK_SIZE - USER_STACK_SIZE).toNat =
        0x40100000 - (i + 1) * 0x10000 ∧
      (i + 1) * 0x10000 ≤ 0x100000 := by
  have htop : USER_STACK_TOP.toNat = 0x40100000 := by decide
  have hsize : USER_REGION_SIZE.toNat = 0x100000 := by decide
  rw [USER_STACK_SIZE_toNat, hsize] at hfit
  have hmul : (BitVec.ofNat 32 i * USER_STACK_SIZE).toNat = i * 0x10000 := by
    rw [Lib.Bits.toNat_ofNat_mul (by rw [USER_STACK_SIZE_toNat]; omega), USER_STACK_SIZE_toNat]
  refine ⟨?_, ?_, (Nat.mul_le_mul_right 0x10000 hi).trans hfit⟩
  · rw [BitVec.toNat_sub, hmul, htop]
    omega
  · rw [BitVec.toNat_sub, BitVec.toNat_sub, hmul, htop, USER_STACK_SIZE_toNat]
    omega

/-- Whatever the tables held before: the loops leave every thread in one slot and every slot with
one thread, and no two threads with a stack in common. -/
theorem init_all_consistent (k₀ : Kernel cfg)
    (hwindow : cfg.THREADS_PER_PROC * USER_STACK_SIZE.toNat ≤ USER_REGION_SIZE.toNat)
    (hfit : KstackFits cfg) :
    let k := thread_init_all (process_init_all k₀)
    (∀ t, (k.threads t).tid = t.val ∧ (k.threads t).proc.val = t.val / cfg.THREADS_PER_PROC ∧
      (k.threads t).index = t.val % cfg.THREADS_PER_PROC) ∧
    (∀ p i, ∃ t, (k.processes p).threads i = some t ∧ t.val = p.val * cfg.THREADS_PER_PROC + i.val) ∧
    (∃ e : Pid cfg × Fin cfg.THREADS_PER_PROC ≃ Tid cfg,
      (∀ p i, (k.processes p).threads i = some (e (p, i))) ∧
      ∀ t, (k.threads t).proc = (e.symm t).1 ∧ (k.threads t).index = (e.symm t).2.val) ∧
    (∀ t u, t ≠ u → ∀ x, ¬ (InKstack k t x ∧ InKstack k u x)) ∧
    (∀ t u, t ≠ u → (k.threads t).proc = (k.threads u).proc → ∀ x, ¬ (InUstack k t x ∧ InUstack k u x)) ∧
    ∀ t, ((k.threads t).user_stack_top - USER_STACK_SIZE).toNat + USER_STACK_SIZE.toNat =
        (k.threads t).user_stack_top.toNat ∧
      USER_VIRT_BASE ≤ (k.threads t).user_stack_top - USER_STACK_SIZE ∧
      (k.threads t).user_stack_top ≤ USER_VIRT_BASE + USER_REGION_SIZE := by
  have hbounds := fun t : Tid cfg => ustack_bounds (indexOf t).isLt hwindow
  simp only [InKstack, InUstack, init_processes, init_threads]
  refine ⟨fun t => ⟨rfl, rfl, rfl⟩, fun p i => ⟨_, rfl, rfl⟩,
    ⟨slotEquiv cfg, fun _ _ => rfl, fun _ => ⟨rfl, rfl⟩⟩, ?_, ?_, ?_⟩
  · rintro t u hne x ⟨ht, hu⟩
    exact hne (kstacks_disjoint hfit ht hu)
  · rintro t u hne hproc x ⟨⟨hlo, hhi⟩, hlo', hhi'⟩
    -- Threads of one process with the same slice have the same index.
    have h1 := hbounds t
    have h2 := hbounds u
    simp only [thread_init, BitVec.le_def, BitVec.lt_def] at hlo hhi hlo' hhi'
    have hindex : indexOf t = indexOf u := by
      apply Fin.ext
      omega
    apply hne
    rw [← tidOf_pidOf t, ← tidOf_pidOf u, hindex, show pidOf t = pidOf u from hproc]
  · intro t
    obtain ⟨h1, h2, h3⟩ := hbounds t
    have hbase : USER_VIRT_BASE.toNat = 0x40000000 := by decide
    have hend : (USER_VIRT_BASE + USER_REGION_SIZE).toNat = 0x40100000 := by decide
    simp only [thread_init, BitVec.le_def]
    rw [h1, h2, hbase, hend, USER_STACK_SIZE_toNat]
    omega

theorem init_all_consistent_shipped :
    demo.THREADS_PER_PROC * USER_STACK_SIZE.toNat ≤ USER_REGION_SIZE.toNat ∧ KstackFits demo ∧
      ∀ t u : Tid demo, t ≠ u → ∀ x, ¬ (InKstack (boot demo) t x ∧ InKstack (boot demo) u x) :=
  ⟨by decide, by unfold KstackFits; decide,
    (init_all_consistent bss (by decide) (by unfold KstackFits; decide)).2.2.2.1⟩

end CortexAOS
