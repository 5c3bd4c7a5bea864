import CortexAOS.Exception
import CortexAOS.Pgtable

/-!
# The kernel on a processor with an MMU

`mmu_enable.S` sets TTBCR to 0 and DACR to 1: one table for all addresses, domain 0 is a client and
the others have no access. The machine writes memory through its translations, and a TLB keeps
them until it is flushed.
-/

namespace CortexAOS

variable {cfg : Config}

/-! ## Sections -/

/-- A section, in a domain whose access bits are checked. -/
def clientSection (d : Word) : Bool := d &&& 0x40003#32 = PDE_TYPE_SECTION && d &&& 0x1E0#32 = 0#32

/-- `AP` is `0b011` for a store in user mode, and none of `0b000` and `0b1xx` in a privileged one. -/
def writable (user : Bool) (d : Word) : Bool :=
  clientSection d && d &&& 0x8000#32 = 0#32 &&
    if user then d &&& 0xC00#32 = 0xC00#32 else !(d &&& 0xC00#32 = 0#32)

def sectionAddress (d va : Word) : Word := (d &&& 0xFFF00000#32) ||| (va &&& 0xFFFFF#32)

/-- The descriptor that a table walk reads. -/
def walk (m : Mem) (ttbr0 : Word) (i : Nat) : Word := m.entry (ttbr0 &&& 0xFFFFC000#32) i

/-! ## The machine -/

structure Machine (cfg : Config) where
  sys : Sys cfg
  ttbr0 : Word
  tlb : Nat → Option Word
  mem : Mem

/-- On whose behalf a byte is written. -/
inductive Author (cfg : Config) where
  /-- A store instruction of the thread. -/
  | user (t : Tid cfg)
  /-- `sys_read` or `sys_ps`, through the pointer that the thread has passed. -/
  | copy (t : Tid cfg)
  /-- The kernel, to its own variables and stacks or to a device. -/
  | kernel
  deriving DecidableEq

structure Write (cfg : Config) where
  author : Author cfg
  pa : Word

namespace Machine

def descriptor (m : Machine cfg) (va : Word) : Word :=
  (m.tlb (va >>> 20).toNat).getD (walk m.mem m.ttbr0 (va >>> 20).toNat)

def translate (m : Machine cfg) (user : Bool) (va : Word) : Option Word :=
  if writable user (m.descriptor va) then some (sectionAddress (m.descriptor va) va) else none

def setByte (m : Machine cfg) (pa : Word) (c : Byte) : Machine cfg :=
  { m with mem := m.mem.setByte pa c }

/-- The MMU part of `context_switch`, up to `.Lload_next`. -/
def switch_mm (m : Machine cfg) (prev next : Tid cfg) : Machine cfg :=
  if (m.sys.k.threads prev).proc = (m.sys.k.threads next).proc then m
  else
    { m with
      ttbr0 := (m.sys.k.processes (m.sys.k.threads next).proc).pgd_pa ||| 0x4A#32
      tlb := fun _ => none }

/-- What a step of the kernel does to memory and to the MMU, on behalf of `t`. A store that is not
permitted is a data abort in the kernel, where it halts. -/
def effects (t : Tid cfg) : Machine cfg → List (Obs cfg) → Machine cfg × List (Write cfg)
  | m, [] => (m, [])
  | m, .store va c :: os =>
    match m.translate false va with
    | some pa => ((effects t (m.setByte pa c) os).1, ⟨.copy t, pa⟩ :: (effects t (m.setByte pa c) os).2)
    | none => ({ m with sys := { m.sys with ctl := .halted } }, [])
  | m, .switched prev next :: os => effects t (m.switch_mm prev next) os
  | m, _ :: os => effects t m os

end Machine

def DeviceMemory (cfg : Config) (pa : Word) : Prop :=
  ∃ p ∈ cfg.board.periph, p.1.toNat ≤ pa.toNat ∧ pa.toNat < p.1.toNat + p.2.toNat

/-- The kernel's own stores: to its image, its variables and stacks, which end below `0xC0200000`,
and to the devices, which are mapped where they are. Only boot code writes the page tables. -/
def KernelStore (cfg : Config) (va : Word) : Prop :=
  (0xC0000000 ≤ va.toNat ∧ va.toNat < 0xC0200000 ∧
    ¬ (cfg.proc_pgd.toNat ≤ va.toNat ∧ va.toNat < cfg.proc_pgd.toNat + cfg.NUM_PROCESSES * 16384)) ∨
  DeviceMemory cfg va

inductive MStep : Machine cfg → List (Write cfg) → Machine cfg → Prop
  /-- A walk may be made at any time, for any address. -/
  | walk {m : Machine cfg} (i : Nat) (hi : i < PGD_ENTRIES) :
      MStep m [] { m with tlb := Function.update m.tlb i (some (walk m.mem m.ttbr0 i)) }
  | evict {m : Machine cfg} (i : Nat) : MStep m [] { m with tlb := Function.update m.tlb i none }
  | userStore {m : Machine cfg} {va pa : Word} {c : Byte} (hu : m.sys.ctl = .user)
      (ht : m.translate true va = some pa) : MStep m [⟨.user m.sys.k.current, pa⟩] (m.setByte pa c)
  | kernelStore {m : Machine cfg} {va pa : Word} {c : Byte} (hk : KernelStore cfg va)
      (ht : m.translate false va = some pa) : MStep m [⟨.kernel, pa⟩] (m.setByte pa c)
  | code {m : Machine cfg} {l : Label cfg} {s' : Sys cfg} (hs : Step m.sys l s') :
      MStep m (Machine.effects m.sys.k.current { m with sys := s' } l.obs).2
        (Machine.effects m.sys.k.current { m with sys := s' } l.obs).1

/-- After `context_switch(NULL, &threads[0])`, which always takes the path through `ctxsw_switch_mm`. -/
def bootMachine (cfg : Config) (m : Mem) : Machine cfg where
  sys := start cfg
  ttbr0 := ((boot cfg).processes ((boot cfg).threads Kernel.first).proc).pgd_pa ||| 0x4A#32
  tlb := fun _ => none
  mem := boot_memory cfg m

/-- The attributes of TTBR0 are masked off an aligned table, and nothing else is. -/
theorem ttbr0_base {pgd : Word} (h : pgd.toNat % 16384 = 0) :
    (pgd ||| 0x4A#32) &&& 0xFFFFC000#32 = pgd := by
  have hmask : (0xFFFFC000#32 : Word) = ~~~0x3FFF#32 := by decide
  have halign : pgd &&& ~~~0x3FFF#32 = pgd := by
    apply BitVec.eq_of_toNat_eq
    rw [show (0x3FFF#32 : Word) = BitVec.ofNat 32 (2 ^ 14 - 1) from rfl, Lib.Bits.toNat_high (by decide)]
    omega
  rw [hmask, ← halign, Lib.Bits.join_high _ (by decide)]

/-! ## Sections of a process -/

theorem writable_section (user : Bool) (pa attrs : Word) :
    writable user ((pa &&& 0xFFF00000#32) ||| attrs) = writable user attrs := by
  have hmask : (0xFFF00000#32 : Word) = ~~~0xFFFFF#32 := by decide
  have hlow :
      ∀ k : Word, ~~~0xFFFFF#32 &&& k = 0#32 → ((pa &&& 0xFFF00000#32) ||| attrs) &&& k =
        attrs &&& k := by
    intro k hk
    rw [hmask]
    exact Lib.Bits.join_low pa attrs hk
  unfold writable clientSection
  rw [hlow 0x40003#32 (by decide), hlow 0x1E0#32 (by decide), hlow 0x8000#32 (by decide),
    hlow 0xC00#32 (by decide)]

theorem sectionAddress_toNat (pa attrs va : Word) (ha : attrs &&& 0xFFF00000#32 = 0#32) :
    (sectionAddress ((pa &&& 0xFFF00000#32) ||| attrs) va).toNat =
      pa.toNat / 0x100000 * 0x100000 + va.toNat % 0x100000 := by
  have hmask : (0xFFF00000#32 : Word) = ~~~0xFFFFF#32 := by decide
  unfold sectionAddress
  rw [hmask] at ha ⊢
  rw [Lib.Bits.join_high pa ha]
  exact Lib.Bits.toNat_join (n := 20) (by decide) pa va

/-- A section that only the kernel may write, or none. -/
def KernelOnly (d : Word) : Prop :=
  d = 0#32 ∨ ∃ pa, d = (pa &&& 0xFFF00000#32) ||| PDE_KERNEL_MEM ∨
    d = (pa &&& 0xFFF00000#32) ||| PDE_DEVICE

theorem KernelOnly.not_writable {d : Word} (h : KernelOnly d) : writable true d = false := by
  rcases h with rfl | ⟨pa, rfl | rfl⟩
  · decide
  · rw [writable_section]; decide
  · rw [writable_section]; decide

theorem rangeEntry_kernelOnly {va pa size attrs old : Word} (i : Nat)
    (ha : attrs = PDE_KERNEL_MEM ∨ attrs = PDE_DEVICE) (h : KernelOnly old) :
    KernelOnly (rangeEntry va pa size attrs old i) := by
  unfold rangeEntry
  split
  · rcases ha with rfl | rfl
    · exact Or.inr ⟨_, Or.inl rfl⟩
    · exact Or.inr ⟨_, Or.inr rfl⟩
  · exact h

theorem bootEntry_kernelOnly (b : Board) (i : Nat) : KernelOnly (bootEntry b i) := by
  have hfold : ∀ (l : List (Word × Word)) (old : Word), KernelOnly old →
      KernelOnly (l.foldl (fun old p => rangeEntry p.1 p.1 p.2 PDE_DEVICE old i) old) := by
    intro l
    induction l with
    | nil => exact fun old h => h
    | cons p l ih => exact fun old h => ih _ (rangeEntry_kernelOnly i (Or.inr rfl) h)
  apply hfold
  apply rangeEntry_kernelOnly i (Or.inl rfl)
  apply rangeEntry_kernelOnly i (Or.inl rfl)
  exact Or.inl rfl

theorem procEntry_writable {b : Board} {pa : Word} {i : Nat}
    (h : writable true (procEntry b pa i) = true) : i = 0x400 := by
  by_contra hne
  have hk : KernelOnly (procEntry b pa i) := by
    unfold procEntry
    rw [if_neg (show i ≠ (USER_VIRT_BASE >>> 20).toNat by simpa [USER_VIRT_BASE] using hne)]
    split
    · exact Or.inl rfl
    · exact bootEntry_kernelOnly b i
  rw [hk.not_writable] at h
  cases h

/-! ## Physical memory -/

def Slot (q : Pid cfg) (pa : Word) : Prop :=
  cfg.board.USER_PHYS_BASE.toNat + q.val * USER_PHYS_STRIDE.toNat ≤ pa.toNat ∧
    pa.toNat < cfg.board.USER_PHYS_BASE.toNat + q.val * USER_PHYS_STRIDE.toNat + USER_REGION_SIZE.toNat

def KernelMemory (cfg : Config) (pa : Word) : Prop :=
  cfg.board.RAM_BASE.toNat ≤ pa.toNat ∧ pa.toNat < cfg.board.USER_PHYS_BASE.toNat

theorem Slot.inj {q q' : Pid cfg} {pa : Word} (h : Slot q pa) (h' : Slot q' pa) : q = q' := by
  unfold Slot at h h'
  rw [USER_PHYS_STRIDE_toNat, USER_REGION_SIZE_toNat] at h h'
  apply Fin.ext
  omega

theorem Slot.above {q : Pid cfg} {pa : Word} (h : Slot q pa) :
    cfg.board.USER_PHYS_BASE.toNat ≤ pa.toNat :=
  Nat.le_trans (Nat.le_add_right _ _) h.1

theorem Slot.not_kernel {q : Pid cfg} {pa : Word} (h : Slot q pa) : ¬ KernelMemory cfg pa :=
  fun hk => Nat.not_lt.mpr h.above hk.2

/-- The devices of a board lie below its RAM and fill their sections. -/
structure Board.DevicesOk (b : Board) : Prop where
  base : ∀ p ∈ b.periph, p.1.toNat % 0x100000 = 0
  size : ∀ p ∈ b.periph, p.2.toNat % 0x100000 = 0
  below : ∀ p ∈ b.periph, p.1.toNat + p.2.toNat ≤ b.RAM_BASE.toNat

theorem procEntry_kernel {b : Board} (pa : Word) {i : Nat} (hu : i ≠ 0x400)
    (hi : ¬ (b.ident_lo ≤ i ∧ i < b.ident_hi)) : procEntry b pa i = bootEntry b i := by
  unfold procEntry
  rw [if_neg (show i ≠ (USER_VIRT_BASE >>> 20).toNat by simpa [USER_VIRT_BASE] using hu), if_neg hi]

def tableOf (q : Pid cfg) (i : Nat) : Word := procEntry cfg.board (process_init cfg q).user_phys_base i

theorem Placed.devicesOk (h : Placed cfg) : cfg.board.DevicesOk := by
  refine ⟨?_, ?_, ?_⟩
  · exact forall_periph (P := fun _ p => p.1.toNat % 0x100000 = 0) (by decide) (by decide)
      (by decide) (by decide) h.board
  · exact forall_periph (P := fun _ p => p.2.toNat % 0x100000 = 0) (by decide) (by decide)
      (by decide) (by decide) h.board
  · exact forall_periph (P := fun b p => p.1.toNat + p.2.toNat ≤ b.RAM_BASE.toNat) (by decide)
      (by decide) (by decide) (by decide) h.board

namespace Linked

variable (h : Linked cfg)

include h

theorem slot_iff (q : Pid cfg) (pa : Word) : Slot q pa ↔
    (process_init cfg q).user_phys_base.toNat ≤ pa.toNat ∧
      pa.toNat < (process_init cfg q).user_phys_base.toNat + 0x100000 := by
  unfold Slot
  rw [h.placed.slot_toNat, h.placed.user_base_toNat, USER_PHYS_STRIDE_toNat, USER_REGION_SIZE_toNat]

theorem slot_not_device {q : Pid cfg} {pa : Word} (hs : Slot q pa) : ¬ DeviceMemory cfg pa := by
  rintro ⟨p, hp, -, hlt⟩
  have h1 := hs.above
  have h2 := h.placed.devicesOk.below p hp
  have h3 := h.placed.user_base_toNat
  omega

theorem kernel_entry (q : Pid cfg) {j : Nat} (hj : j < 2) : tableOf q (0xC00 + j) =
    ((cfg.board.RAM_BASE + BitVec.ofNat 32 j <<< 20) &&& 0xFFF00000#32) ||| PDE_KERNEL_MEM := by
  have hident :
      ∀ b, b = qemu ∨ b = bbb → ∀ j < 2, ¬ (b.ident_lo ≤ 0xC00 + j ∧ 0xC00 + j < b.ident_hi) := by
    rintro b (rfl | rfl) <;> decide
  have hboot : ∀ b, b = qemu ∨ b = bbb → ∀ j < 2, bootEntry b (0xC00 + j) =
      ((b.RAM_BASE + BitVec.ofNat 32 j <<< 20) &&& 0xFFF00000#32) ||| PDE_KERNEL_MEM := by
    rintro b (rfl | rfl) <;> decide
  rw [tableOf, procEntry_kernel _ (by omega) (hident _ h.board j hj), hboot _ h.board j hj]

theorem device_entry (q : Pid cfg) {p : Word × Word} (hp : p ∈ cfg.board.periph) {j : Nat}
    (hj : j < (p.2 >>> 20).toNat) : tableOf q ((p.1 >>> 20).toNat + j) =
      ((p.1 + BitVec.ofNat 32 j <<< 20) &&& 0xFFF00000#32) ||| PDE_DEVICE := by
  have hident :=
    forall_periph (P := fun b p => ∀ j < (p.2 >>> 20).toNat, (p.1 >>> 20).toNat + j ≠ 0x400 ∧
    ¬ (b.ident_lo ≤ (p.1 >>> 20).toNat + j ∧ (p.1 >>> 20).toNat + j < b.ident_hi)) (by decide)
      (by decide) (by decide)
    (by decide) h.board p hp j hj
  have hboot :=
    forall_periph (P := fun b p => ∀ j < (p.2 >>> 20).toNat, bootEntry b ((p.1 >>> 20).toNat + j) =
    ((p.1 + BitVec.ofNat 32 j <<< 20) &&& 0xFFF00000#32) ||| PDE_DEVICE) (by decide)
      (by decide) (by decide)
    (by decide) h.board p hp j hj
  rw [tableOf, procEntry_kernel _ hident.1 hident.2, hboot]

theorem kernel_address (q : Pid cfg) {va : Word} (hlo : 0xC0000000 ≤ va.toNat)
    (hhi : va.toNat < 0xC0200000) :
    (sectionAddress (tableOf q (va >>> 20).toNat) va).toNat =
      va.toNat - 0xC0000000 + cfg.board.RAM_BASE.toNat := by
  have h1 := h.placed.ram_aligned
  have h2 := h.placed.ram_lt
  obtain ⟨j, hj, hidx⟩ : ∃ j < 2, va.toNat / 0x100000 = 0xC00 + j :=
    ⟨va.toNat / 0x100000 - 0xC00, by omega, by omega⟩
  have hram :
      (cfg.board.RAM_BASE + BitVec.ofNat 32 j <<< 20).toNat =
        cfg.board.RAM_BASE.toNat + j * 0x100000 := by
    rw [BitVec.toNat_add, BitVec.toNat_shiftLeft, BitVec.toNat_ofNat, Nat.shiftLeft_eq]
    omega
  rw [section_index, hidx, h.kernel_entry q hj, sectionAddress_toNat _ _ _ (by decide), hram]
  omega

theorem device_address (q : Pid cfg) {va : Word} (hd : DeviceMemory cfg va) :
    sectionAddress (tableOf q (va >>> 20).toNat) va = va := by
  obtain ⟨p, hp, hlo, hhi⟩ := hd
  have h1 := h.placed.devicesOk.base p hp
  have h2 := h.placed.devicesOk.size p hp
  obtain ⟨j, hj, hidx⟩ : ∃ j < p.2.toNat / 0x100000, va.toNat / 0x100000 = p.1.toNat / 0x100000 + j :=
    ⟨va.toNat / 0x100000 - p.1.toNat / 0x100000, by omega, by omega⟩
  have hdev : (p.1 + BitVec.ofNat 32 j <<< 20).toNat = p.1.toNat + j * 0x100000 := by
    rw [BitVec.toNat_add, BitVec.toNat_shiftLeft, BitVec.toNat_ofNat, Nat.shiftLeft_eq]
    omega
  apply BitVec.eq_of_toNat_eq
  rw [section_index, hidx, ← section_index, h.device_entry q hp (by rw [section_index]; exact hj),
    sectionAddress_toNat _ _ _ (by decide), hdev]
  omega

end Linked

end CortexAOS
