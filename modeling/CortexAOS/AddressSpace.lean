import CortexAOS.Mmu
import CortexAOS.UserPtr

/-!
# The address space of every process

Four writers make the tables: the identity map, the high alias, the devices and the copy for each
process. The copies are made before the identity map is dropped.
-/

namespace CortexAOS

variable {cfg : Config}

/-! ## Accesses -/

inductive Access
  | read
  | write
  | execute
  deriving DecidableEq

/-- `XN` and `AP[2:0]` of a section, with SCTLR.AFE clear. -/
def permitted (user : Bool) (a : Access) (d : Word) : Bool :=
  clientSection d && (a ≠ .execute || d &&& PDE_XN = 0#32) &&
    match d &&& 0x8C00#32 with
    | 0x0400#32 => !user
    | 0x0800#32 => !user || a ≠ .write
    | 0x0C00#32 => true
    | 0x8400#32 => !user && a ≠ .write
    | 0x8800#32 | 0x8C00#32 => a ≠ .write
    -- 0b000 and the reserved 0b100.
    | _ => false

/-- Where an access goes, by the table `pgd`; none if it faults. -/
def translation (m : Mem) (pgd : Word) (user : Bool) (a : Access) (va : Word) : Option Word :=
  let d := m.entry pgd (va >>> 20).toNat
  if permitted user a d then some (sectionAddress d va) else none

theorem permitted_section (user : Bool) (a : Access) (pa attrs : Word) :
    permitted user a ((pa &&& 0xFFF00000#32) ||| attrs) = permitted user a attrs := by
  have hmask : (0xFFF00000#32 : Word) = ~~~0xFFFFF#32 := by decide
  have hlow :
      ∀ k : Word, ~~~0xFFFFF#32 &&& k = 0#32 → ((pa &&& 0xFFF00000#32) ||| attrs) &&& k =
        attrs &&& k := by
    intro k hk
    rw [hmask]
    exact Lib.Bits.join_low pa attrs hk
  unfold permitted clientSection
  rw [hlow 0x40003#32 (by decide), hlow 0x1E0#32 (by decide), hlow PDE_XN (by decide),
    hlow 0x8C00#32 (by decide)]

theorem permitted_user (user : Bool) (a : Access) : permitted user a PDE_USER_TEXT = true := by
  cases user <;> cases a <;> decide

theorem permitted_kernel (user : Bool) (a : Access) : permitted user a PDE_KERNEL_MEM = !user := by
  cases user <;> cases a <;> decide

theorem permitted_device (user : Bool) (a : Access) :
    permitted user a PDE_DEVICE = (!user && a ≠ .execute) := by
  cases user <;> cases a <;> decide

theorem permitted_fault (user : Bool) (a : Access) : permitted user a 0#32 = false := by
  cases user <;> cases a <;> decide

/-! ## The final tables -/

def finalEntry (b : Board) (i : Nat) : Word :=
  if b.ident_lo ≤ i ∧ i < b.ident_hi then 0#32 else bootEntry b i

theorem mmu_drop_identity_holds {b : Board} {m : Mem} {pgd : Word} {f : Nat → Word} (h : Holds m pgd f) :
    Holds (mmu_drop_identity b m pgd) pgd
      (fun i => if b.ident_lo ≤ i ∧ i < b.ident_hi then 0#32 else f i) := by
  unfold mmu_drop_identity
  suffices hn : ∀ n, Holds ((List.range' b.ident_lo n).foldl (fun m i => m.setEntry pgd i 0#32) m) pgd
      (fun i => if b.ident_lo ≤ i ∧ i < b.ident_lo + n then 0#32 else f i) by
    intro i hi
    rw [hn _ i hi]
    have hiff : (b.ident_lo ≤ i ∧ i < b.ident_lo + (b.ident_hi - b.ident_lo)) ↔
        (b.ident_lo ≤ i ∧ i < b.ident_hi) := by
      omega
    simp only [hiff]
  intro n
  induction n with
  | zero =>
    intro i hi
    dsimp only
    rw [if_neg (by omega)]
    exact h i hi
  | succ n ih =>
    intro i hi
    rw [List.range'_1_concat, List.foldl_append, List.foldl_cons, List.foldl_nil,
      entry_setEntry, ih i hi]
    dsimp only
    by_cases hin : i = b.ident_lo + n
    · rw [if_pos hin, if_pos (by omega)]
    · have hiff : (b.ident_lo ≤ i ∧ i < b.ident_lo + (n + 1)) ↔
        (b.ident_lo ≤ i ∧ i < b.ident_lo + n) := by omega
      simp only [hin, hiff, if_false]

def Covers (p : Word × Word) (i : Nat) : Prop :=
  (p.1 >>> 20).toNat ≤ i ∧ i < (p.1 >>> 20).toNat + (p.2 >>> 20).toNat

theorem devices_skip {l : List (Word × Word)} {i : Nat} (hl : ∀ p ∈ l, ¬ Covers p i) (old : Word) :
    l.foldl (fun old p => rangeEntry p.1 p.1 p.2 PDE_DEVICE old i) old = old := by
  induction l generalizing old with
  | nil => rfl
  | cons p l ih =>
    rw [List.foldl_cons, ih (fun p' hp' => hl p' (by simp [hp'])), rangeEntry]
    exact if_neg (hl p (by simp))

section

variable {b : Board} (hb : b = qemu ∨ b = bbb) {i : Nat}

include hb

theorem finalEntry_kernel (hlo : 0xC00 ≤ i) (hhi : i < 0xC00 + (b.RAM_SIZE >>> 20).toNat) :
    finalEntry b i =
    ((b.RAM_BASE + BitVec.ofNat 32 (i - 0xC00) <<< 20) &&& 0xFFF00000#32) ||| PDE_KERNEL_MEM := by
  have hident : b.ident_hi ≤ 0xC00 := by rcases hb with rfl | rfl <;> decide
  have hskip : ∀ p ∈ b.periph, ¬ Covers p i := by
    have hbelow :=
      forall_periph (P := fun _ p => (p.1 >>> 20).toNat + (p.2 >>> 20).toNat ≤ 0xC00) (by decide)
      (by decide) (by decide) (by decide) hb
    intro p hp hc
    exact Nat.not_lt.mpr (Nat.le_trans (hbelow p hp) hlo) hc.2
  have hva : (VA_KERNEL_BASE >>> 20).toNat = 0xC00 := by decide
  rw [finalEntry, if_neg (by omega), bootEntry, devices_skip hskip, rangeEntry, hva, if_pos ⟨hlo, hhi⟩]

theorem finalEntry_device {p : Word × Word} (hp : p ∈ b.periph) {j : Nat} (hj : j < (p.2 >>> 20).toNat) :
    finalEntry b ((p.1 >>> 20).toNat + j) =
      ((p.1 + BitVec.ofNat 32 j <<< 20) &&& 0xFFF00000#32) ||| PDE_DEVICE :=
  forall_periph (P := fun b p => ∀ j < (p.2 >>> 20).toNat, finalEntry b ((p.1 >>> 20).toNat + j) =
    ((p.1 + BitVec.ofNat 32 j <<< 20) &&& 0xFFF00000#32) ||| PDE_DEVICE) (by decide)
      (by decide) (by decide)
    (by decide) hb p hp j hj

theorem finalEntry_fault (hk : ¬ (0xC00 ≤ i ∧ i < 0xC00 + (b.RAM_SIZE >>> 20).toNat))
    (hd : ∀ p ∈ b.periph, ¬ Covers p i) : finalEntry b i = 0#32 := by
  have hva : (VA_KERNEL_BASE >>> 20).toNat = 0xC00 := by decide
  have hident : b.ident_hi = (b.RAM_BASE >>> 20).toNat + (b.RAM_SIZE >>> 20).toNat := by
    rcases hb with rfl | rfl <;> decide
  unfold finalEntry bootEntry
  rw [devices_skip hd]
  unfold rangeEntry
  rw [hva, if_neg hk]
  split
  · rfl
  · rename_i hout
    exact if_neg (hident ▸ hout)

end

/-! ## The boot sequence -/

/-- What boot does to the tables, from a cleared boot table on. -/
def build_tables (cfg : Config) (m : Mem) : Mem :=
  let m := mmu_build_boot_pgd cfg.board m cfg.boot_pgd_pa
  let m := (List.finRange cfg.NUM_PROCESSES).foldl (fun m i =>
    pgtable_build_for_proc cfg.board cfg.boot_pgd_pa m (process_init cfg i).pgd_pa
      (process_init cfg i).user_phys_base) m
  mmu_drop_identity cfg.board m cfg.boot_pgd_pa

structure Built (cfg : Config) (m : Mem) : Prop where
  boot : Holds m cfg.boot_pgd_pa (finalEntry cfg.board)
  proc : ∀ q : Pid cfg, Holds m (process_init cfg q).pgd_pa (tableOf q)

theorem build_tables_built (h : Placed cfg) {m : Mem} (hz : Holds m cfg.boot_pgd_pa fun _ => 0#32) :
    Built cfg (build_tables cfg m) := by
  have hloop := fun q : Pid cfg => foldl_builds (q := q)
    (B := fun m => Holds m cfg.boot_pgd_pa (bootEntry cfg.board))
    (T := fun m => Holds m (process_init cfg q).pgd_pa (tableOf q))
    (fun _ i hm => hm.apart (pgtable_build_for_proc_within cfg.board cfg.boot_pgd_pa _ _
      (process_init cfg i).user_phys_base) (h.boot_apart i))
    (fun _ i hm hq => by
      by_cases hqi : q = i
      · subst hqi
        exact pgtable_build_for_proc_holds (h.boot_apart q) hm _
      · exact (hq.resolve_left hqi).apart (pgtable_build_for_proc_within _ _ _ _ _) (h.proc_apart hqi))
    (List.finRange cfg.NUM_PROCESSES) (mmu_build_boot_pgd_holds h.fits hz)
  refine ⟨mmu_drop_identity_holds (hloop ⟨0, cfg.processes_pos⟩).1, fun q => ?_⟩
  exact ((hloop q).2 (Or.inl (List.mem_finRange q))).apart (mmu_drop_identity_within _ _ _)
    (h.boot_apart q).symm

/-- Filling the slots, which `process_init_all` does in between, changes nothing of this. -/
theorem boot_memory_built (h : Linked cfg) (m : Mem) : Built cfg (boot_memory cfg m) := by
  have hboot := mmu_build_boot_pgd_holds h.placed.fits (zero_table_holds m cfg.boot_pgd_pa)
  refine ⟨mmu_drop_identity_holds ?_, h.boot_memory_table m⟩
  exact (foldl_builds (B := fun m => Holds m cfg.boot_pgd_pa _) (T := fun _ => True)
    (q := ⟨0, cfg.processes_pos⟩)
    (fun _ i hm => h.process_memory_boot hm i) (fun _ _ _ _ => trivial) _ hboot).1

/-! ## Every address -/

def KernelAlias (cfg : Config) (va : Word) : Prop :=
  0xC0000000 ≤ va.toNat ∧ va.toNat < 0xC0000000 + cfg.board.RAM_SIZE.toNat

def RamIdentity (cfg : Config) (va : Word) : Prop :=
  cfg.board.RAM_BASE.toNat ≤ va.toNat ∧ va.toNat < cfg.board.RAM_BASE.toNat + cfg.board.RAM_SIZE.toNat

section

variable (h : Placed cfg) {va : Word}

include h

theorem Placed.ram_size : cfg.board.RAM_SIZE.toNat % 0x100000 = 0 ∧
    cfg.board.RAM_BASE.toNat + cfg.board.RAM_SIZE.toNat ≤ 0xC0000000 ∧
    0x60000000 ≤ cfg.board.RAM_BASE.toNat := by
  rcases h.board with hb | hb <;> rw [hb] <;> decide

theorem Placed.alias_index (hk : KernelAlias cfg va) :
    0xC00 ≤ (va >>> 20).toNat ∧ (va >>> 20).toNat < 0xC00 + (cfg.board.RAM_SIZE >>> 20).toNat := by
  have h1 := h.ram_size.1
  obtain ⟨hlo, hhi⟩ := hk
  rw [section_index, section_index]
  omega

theorem Placed.device_covers {p : Word × Word} (hp : p ∈ cfg.board.periph) :
    Covers p (va >>> 20).toNat ↔ p.1.toNat ≤ va.toNat ∧ va.toNat < p.1.toNat + p.2.toNat := by
  have h1 := h.devicesOk.base p hp
  have h2 := h.devicesOk.size p hp
  unfold Covers
  rw [section_index, section_index, section_index]
  constructor <;> intro hc <;> omega

theorem Placed.alias_address (hk : KernelAlias cfg va) :
    sectionAddress (finalEntry cfg.board (va >>> 20).toNat) va = va - cfg.board.PHYS_OFFSET := by
  have h1 := h.ram_aligned
  have h2 := h.ram_size
  have h3 := h.offset_toNat
  have h4 := va.isLt
  obtain ⟨hlo, hhi⟩ := h.alias_index hk
  apply BitVec.eq_of_toNat_eq
  rw [finalEntry_kernel h.board hlo hhi, sectionAddress_toNat _ _ _ (by decide), BitVec.toNat_add,
    BitVec.toNat_shiftLeft,
    BitVec.toNat_ofNat, Nat.shiftLeft_eq, BitVec.toNat_sub, h3, section_index]
  obtain ⟨hlo', hhi'⟩ := hk
  omega

theorem Placed.device_index (hd : DeviceMemory cfg va) :
    ∃ p ∈ cfg.board.periph, ∃ j < (p.2 >>> 20).toNat,
    (va >>> 20).toNat = (p.1 >>> 20).toNat + j ∧
    va.toNat = (p.1 + BitVec.ofNat 32 j <<< 20).toNat + va.toNat % 0x100000 ∧
      (p.1 + BitVec.ofNat 32 j <<< 20).toNat % 0x100000 = 0 := by
  obtain ⟨p, hp, hrange⟩ := hd
  obtain ⟨hlo, hhi⟩ := (h.device_covers hp).mpr hrange
  have h1 := h.devicesOk.base p hp
  have h2 := va.isLt
  refine ⟨p, hp, (va >>> 20).toNat - (p.1 >>> 20).toNat, by omega, by omega, ?_⟩
  rw [BitVec.toNat_add, BitVec.toNat_shiftLeft, BitVec.toNat_ofNat, Nat.shiftLeft_eq]
  rw [section_index, section_index] at *
  omega

theorem Placed.device_address (hd : DeviceMemory cfg va) :
    sectionAddress (finalEntry cfg.board (va >>> 20).toNat) va = va := by
  obtain ⟨p, hp, j, hj, hidx, hva, hbase⟩ := h.device_index hd
  apply BitVec.eq_of_toNat_eq
  rw [hidx, finalEntry_device h.board hp hj, sectionAddress_toNat _ _ _ (by decide)]
  omega

theorem Placed.fault_entry (hk : ¬ KernelAlias cfg va) (hd : ¬ DeviceMemory cfg va) :
    finalEntry cfg.board (va >>> 20).toNat = 0#32 := by
  have h1 := h.ram_size.1
  apply finalEntry_fault h.board
  · rw [section_index, section_index]
    unfold KernelAlias at hk
    omega
  · intro p hp hc
    exact hd ⟨p, hp, (h.device_covers hp).mp hc⟩

theorem Placed.nowhere (hva : va.toNat < 0x100000 ∨ RamIdentity cfg va) :
    ¬ UserVa va ∧ ¬ KernelAlias cfg va ∧ ¬ DeviceMemory cfg va := by
  have h1 := h.ram_size
  have hlow :=
    forall_periph (P := fun _ p => 0x100000 ≤ p.1.toNat) (by decide) (by decide) (by decide)
      (by decide) h.board
  refine ⟨?_, ?_, ?_⟩
  · rintro ⟨hlo, hhi⟩
    rcases hva with hz | ⟨hr, -⟩ <;> omega
  · rintro ⟨hlo, -⟩
    rcases hva with hz | ⟨-, hr⟩ <;> omega
  · rintro ⟨p, hp, hlo, hhi⟩
    have h2 := h.devicesOk.below p hp
    have h3 := hlow p hp
    rcases hva with hz | ⟨hr, -⟩ <;> omega

theorem Placed.user_section (q : Pid cfg) (hu : UserVa va) :
    tableOf q (va >>> 20).toNat =
      ((process_init cfg q).user_phys_base &&& 0xFFF00000#32) ||| PDE_USER_TEXT ∧
      (sectionAddress (tableOf q (va >>> 20).toNat) va).toNat = cfg.board.USER_PHYS_BASE.toNat +
        q.val * USER_PHYS_STRIDE.toNat + (va.toNat - 0x40000000) := by
  have h1 := h.slot_toNat q
  have h2 := h.ram_aligned
  have h3 := h.user_base_toNat
  have hent : tableOf q (va >>> 20).toNat =
      ((process_init cfg q).user_phys_base &&& 0xFFF00000#32) ||| PDE_USER_TEXT := by
    rw [hu.index, tableOf, procEntry, if_pos (by decide)]
  refine ⟨hent, ?_⟩
  rw [hent, sectionAddress_toNat _ _ _ (by decide), USER_PHYS_STRIDE_toNat]
  unfold UserVa at hu
  omega

end

theorem tableOf_outside (q : Pid cfg) {va : Word} (hu : ¬ UserVa va) :
    tableOf q (va >>> 20).toNat = finalEntry cfg.board (va >>> 20).toNat := by
  have hidx : (va >>> 20).toNat ≠ (USER_VIRT_BASE >>> 20).toNat := by
    have huser : (USER_VIRT_BASE >>> 20).toNat = 0x400 := by decide
    rw [huser, section_index]
    unfold UserVa at hu
    omega
  rw [tableOf, procEntry, if_neg hidx, finalEntry]

section

variable {m : Mem} {va : Word}

theorem translation_of {pgd : Word} {f : Nat → Word} (hm : Holds m pgd f) (user : Bool) (a : Access) :
    translation m pgd user a va = if permitted user a (f (va >>> 20).toNat) then
      some (sectionAddress (f (va >>> 20).toNat) va) else none := by
  unfold translation
  rw [hm _ (section_index_lt va)]

variable (h : Placed cfg) (hm : Built cfg m) (q : Pid cfg)

include h hm

theorem Built.user_window (hu : UserVa va) (user : Bool) (a : Access) :
    (translation m (process_init cfg q).pgd_pa user a va).map BitVec.toNat =
      some (cfg.board.USER_PHYS_BASE.toNat + q.val * USER_PHYS_STRIDE.toNat +
        (va.toNat - 0x40000000)) := by
  obtain ⟨hent, haddr⟩ := h.user_section q hu
  rw [translation_of (hm.proc q), if_pos (by rw [hent, permitted_section, permitted_user]),
    Option.map_some, haddr]

theorem Built.kernel_alias (hu : ¬ UserVa va) (hk : KernelAlias cfg va) (user : Bool) (a : Access) :
    translation m (process_init cfg q).pgd_pa user a va =
      if user then none else some (va - cfg.board.PHYS_OFFSET) := by
  obtain ⟨hlo, hhi⟩ := h.alias_index hk
  have hperm : permitted user a (finalEntry cfg.board (va >>> 20).toNat) = !user := by
    rw [finalEntry_kernel h.board hlo hhi, permitted_section, permitted_kernel]
  rw [translation_of (hm.proc q), tableOf_outside q hu, hperm, h.alias_address hk]
  cases user <;> rfl

theorem Built.device (hu : ¬ UserVa va) (hd : DeviceMemory cfg va) (user : Bool) (a : Access) :
    translation m (process_init cfg q).pgd_pa user a va =
      if user ∨ a = .execute then none else some va := by
  obtain ⟨p, hp, j, hj, hidx, -⟩ := h.device_index hd
  have hperm : permitted user a (finalEntry cfg.board (va >>> 20).toNat) = (!user && a ≠ .execute) := by
    rw [hidx, finalEntry_device h.board hp hj, permitted_section, permitted_device]
  rw [translation_of (hm.proc q), tableOf_outside q hu, hperm, h.device_address hd]
  cases user <;> cases a <;> rfl

theorem Built.elsewhere (hu : ¬ UserVa va) (hk : ¬ KernelAlias cfg va) (hd : ¬ DeviceMemory cfg va)
    (user : Bool) (a : Access) : translation m (process_init cfg q).pgd_pa user a va = none := by
  rw [translation_of (hm.proc q), tableOf_outside q hu, h.fault_entry hk hd, permitted_fault]
  rfl

end

/-- The address space of process `q`, for every address and every access. -/
theorem address_spaces (h : Placed cfg) {m : Mem} (hz : Holds m cfg.boot_pgd_pa fun _ => 0#32)
    (q : Pid cfg) (va : Word) :
    (∀ a, (translation (build_tables cfg m) (process_init cfg q).pgd_pa true a va).isSome ↔ UserVa va) ∧
    (UserVa va → ∀ a,
      (translation (build_tables cfg m) (process_init cfg q).pgd_pa true a va).map BitVec.toNat =
        some (cfg.board.USER_PHYS_BASE.toNat + q.val * USER_PHYS_STRIDE.toNat +
          (va.toNat - 0x40000000))) ∧
    (¬ UserVa va →
      (∀ user a, translation (build_tables cfg m) (process_init cfg q).pgd_pa user a va =
        translation (build_tables cfg m) cfg.boot_pgd_pa user a va) ∧
      (KernelAlias cfg va →
        ∀ user a, translation (build_tables cfg m) (process_init cfg q).pgd_pa user a va =
        if user then none else some (va - cfg.board.PHYS_OFFSET)) ∧
      (DeviceMemory cfg va →
        ∀ user a, translation (build_tables cfg m) (process_init cfg q).pgd_pa user a va =
        if user ∨ a = .execute then none else some va) ∧
      (¬ KernelAlias cfg va → ¬ DeviceMemory cfg va → ∀ user a,
        translation (build_tables cfg m) (process_init cfg q).pgd_pa user a va = none)) ∧
    (va.toNat < 0x100000 ∨ RamIdentity cfg va → ¬ UserVa va ∧ ¬ KernelAlias cfg va ∧
      ¬ DeviceMemory cfg va) ∧
    ∀ q' : Pid cfg, q' ≠ q → ∀ va', UserVa va → UserVa va' → ∀ a a',
      translation (build_tables cfg m) (process_init cfg q).pgd_pa true a va ≠
        translation (build_tables cfg m) (process_init cfg q').pgd_pa true a' va' := by
  have hm := build_tables_built h hz
  refine ⟨fun a => ?_, fun hu => hm.user_window h q hu true, fun hu =>
    ⟨fun user a => ?_, hm.kernel_alias h q hu,
    hm.device h q hu, hm.elsewhere h q hu⟩, h.nowhere, fun q' hne va' hu hu' a a' heq => ?_⟩
  · by_cases hu : UserVa va
    · have hsome := congrArg Option.isSome (hm.user_window h q hu true a)
      rw [Option.isSome_map] at hsome
      simp [hsome, hu]
    · have hnone : translation (build_tables cfg m) (process_init cfg q).pgd_pa true a va = none := by
        by_cases hk : KernelAlias cfg va
        · exact hm.kernel_alias h q hu hk true a
        · by_cases hd : DeviceMemory cfg va
          · simpa using hm.device h q hu hd true a
          · exact hm.elsewhere h q hu hk hd true a
      simp [hnone, hu]
  · rw [translation_of (hm.proc q), translation_of hm.boot, tableOf_outside q hu]
  · have haddr := congrArg (Option.map BitVec.toNat) heq
    rw [hm.user_window h q hu, hm.user_window h q' hu', Option.some.injEq,
      USER_PHYS_STRIDE_toNat] at haddr
    have hval : q'.val ≠ q.val := fun he => hne (Fin.ext he)
    unfold UserVa at hu hu'
    omega

theorem address_spaces_second : Placed demo ∧ (Holds (fun _ => 0#32) demo.boot_pgd_pa fun _ => 0#32) ∧
    ∀ a,
      (translation (build_tables demo fun _ => 0#32) 0x7011C000#32 true a 0x40000123#32).map
        BitVec.toNat =
      some 0x70300123 := by
  have hz : Holds (fun _ => 0#32) demo.boot_pgd_pa fun _ => 0#32 := fun _ _ => rfl
  have hpgd : (process_init demo ⟨1, by decide⟩).pgd_pa = 0x7011C000#32 := rfl
  have haddr :
      demo.board.USER_PHYS_BASE.toNat + 1 * USER_PHYS_STRIDE.toNat +
        ((0x40000123#32).toNat - 0x40000000) =
      0x70300123 := by decide
  refine ⟨demo_linked.placed, hz, fun a => ?_⟩
  rw [← hpgd, ← haddr]
  exact (address_spaces demo_linked.placed hz ⟨1, by decide⟩ 0x40000123#32).2.1
    (by unfold UserVa; decide) a

end CortexAOS
