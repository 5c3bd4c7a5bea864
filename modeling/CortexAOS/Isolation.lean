import CortexAOS.Mmu
import CortexAOS.UserPtr
import CortexAOS.Invariant

/-!
# Physical isolation of processes

TTBR0 and the TLB always belong to the process of the current thread, and no table changes after
boot.
-/

namespace CortexAOS

variable {cfg : Config}

/-! ## What every state of the machine keeps -/

structure MInv (m : Machine cfg) : Prop where
  reach : Reachable m.sys
  ttbr0 : m.ttbr0 = (process_init cfg (pidOf m.sys.k.current)).pgd_pa ||| 0x4A#32
  tlb : ∀ i d, m.tlb i = some d → d = tableOf (pidOf m.sys.k.current) i
  tables : ∀ q : Pid cfg, Holds m.mem (process_init cfg q).pgd_pa (tableOf q)

section

variable {m : Machine cfg}

theorem MInv.walk_eq (h : Linked cfg) (hm : MInv m) {i : Nat} (hi : i < PGD_ENTRIES) :
    walk m.mem m.ttbr0 i = tableOf (pidOf m.sys.k.current) i := by
  have h1 := h.placed.pgd_pa_toNat (pidOf m.sys.k.current)
  have h2 := h.proc_aligned
  have h3 := h.placed.ram_aligned
  have h4 := h.boot_lo
  have h5 := h.boot_hi
  rw [walk, hm.ttbr0, ttbr0_base (by omega)]
  exact hm.tables _ i hi

theorem MInv.descriptor_eq (h : Linked cfg) (hm : MInv m) (va : Word) :
    m.descriptor va = tableOf (pidOf m.sys.k.current) (va >>> 20).toNat := by
  unfold Machine.descriptor
  cases ht : m.tlb (va >>> 20).toNat with
  | none => exact hm.walk_eq h (section_index_lt va)
  | some d => exact hm.tlb _ d ht

theorem translate_some {user : Bool} {va pa : Word} (ht : m.translate user va = some pa) :
    writable user (m.descriptor va) = true ∧ pa = sectionAddress (m.descriptor va) va := by
  unfold Machine.translate at ht
  split at ht
  · rename_i hw
    cases ht
    exact ⟨hw, rfl⟩
  · cases ht

theorem MInv.user_address (h : Linked cfg) (hm : MInv m) {va : Word} (hv : (va >>> 20).toNat = 0x400) :
    writable false (m.descriptor va) = true ∧
      Slot (pidOf m.sys.k.current) (sectionAddress (m.descriptor va) va) := by
  have hd : m.descriptor va =
      ((process_init cfg (pidOf m.sys.k.current)).user_phys_base &&& 0xFFF00000#32) |||
        PDE_USER_TEXT := by
    rw [hm.descriptor_eq h, hv, tableOf, procEntry, if_pos (by decide)]
  have hpa :=
    sectionAddress_toNat (process_init cfg (pidOf m.sys.k.current)).user_phys_base PDE_USER_TEXT va
    (by decide)
  have h1 := h.placed.slot_toNat (pidOf m.sys.k.current)
  have h2 := h.placed.ram_aligned
  rw [hd]
  refine ⟨by rw [writable_section]; decide, (h.slot_iff _ _).mpr ?_⟩
  rw [hpa]
  omega

theorem MInv.user_store (h : Linked cfg) (hm : MInv m) {va pa : Word}
    (ht : m.translate true va = some pa) : Slot (pidOf m.sys.k.current) pa := by
  obtain ⟨hw, rfl⟩ := translate_some ht
  rw [hm.descriptor_eq h] at hw
  exact (hm.user_address h (procEntry_writable hw)).2

theorem MInv.copy_store (h : Linked cfg) (hm : MInv m) {va : Word} (hv : UserVa va) :
    ∃ pa, m.translate false va = some pa ∧ Slot (pidOf m.sys.k.current) pa := by
  obtain ⟨hw, hs⟩ := hm.user_address h hv.index
  exact ⟨_, if_pos hw, hs⟩

theorem MInv.kernel_store (h : Linked cfg) (hm : MInv m) {va pa : Word} (hk : KernelStore cfg va)
    (ht : m.translate false va = some pa) : pa.toNat < cfg.board.USER_PHYS_BASE.toNat ∧
      ∀ (q : Pid cfg) i, i < PGD_ENTRIES → (process_init cfg q).pgd_pa.toNat / 4 + i ≠ pa.toNat / 4 := by
  obtain ⟨-, rfl⟩ := translate_some ht
  have h1 := h.placed.user_base_toNat
  have h2 := h.boot_lo
  have h3 := h.boot_hi
  rw [hm.descriptor_eq h]
  rcases hk with ⟨hlo, hhi, hout⟩ | hd
  · have h4 := h.proc_aligned
    have h5 := h.placed.ram_aligned
    rw [h.kernel_address _ hlo hhi]
    refine ⟨by omega, fun q i hi => ?_⟩
    have hq := q.isLt
    unfold PGD_ENTRIES at hi
    rw [h.placed.pgd_pa_toNat q]
    omega
  · rw [h.device_address _ hd]
    obtain ⟨p, hp, -, hlt⟩ := hd
    have h4 := h.placed.devicesOk.below p hp
    refine ⟨by omega, fun q i hi => ?_⟩
    rw [h.placed.pgd_pa_toNat q]
    omega

/-! ## One step -/

/-- Stores are the only visible actions that touch a slot, and every author keeps to its own. -/
structure Isolated (w : Write cfg) : Prop where
  slot : ∀ q, Slot q w.pa → ∃ t, pidOf t = q ∧ (w.author = .user t ∨ w.author = .copy t)
  user : ∀ t, w.author = .user t → ¬ KernelMemory cfg w.pa ∧ ¬ DeviceMemory cfg w.pa

theorem isolated_copy {t : Tid cfg} {pa : Word} (hs : Slot (pidOf t) pa) : Isolated ⟨.copy t, pa⟩ :=
  ⟨fun _ hq => ⟨t, hs.inj hq, Or.inr rfl⟩, fun _ hu => nomatch hu⟩

theorem isolated_user (h : Linked cfg) {t : Tid cfg} {pa : Word} (hs : Slot (pidOf t) pa) :
    Isolated ⟨.user t, pa⟩ :=
  ⟨fun _ hq => ⟨t, hs.inj hq, Or.inl rfl⟩, fun _ _ => ⟨hs.not_kernel, h.slot_not_device hs⟩⟩

theorem isolated_kernel {pa : Word} (hlt : pa.toNat < cfg.board.USER_PHYS_BASE.toNat) :
    Isolated (⟨.kernel, pa⟩ : Write cfg) :=
  ⟨fun _ hq => absurd hq.above (Nat.not_le.mpr hlt), fun _ hu => nomatch hu⟩

theorem MInv.setByte (hm : MInv m) {pa : Word} (c : Byte)
    (hpa : ∀ (q : Pid cfg) i, i < PGD_ENTRIES → (process_init cfg q).pgd_pa.toNat / 4 + i ≠
      pa.toNat / 4) :
    MInv (m.setByte pa c) := by
  refine ⟨hm.reach, hm.ttbr0, hm.tlb, fun q => ?_⟩
  exact (hm.tables q).within (setByte_within (P := (· = pa.toNat / 4)) m.mem pa c rfl) (hpa q)

theorem Slot.no_table (h : Linked cfg) {q : Pid cfg} {pa : Word} (hs : Slot q pa)
    (q' : Pid cfg) (i : Nat)
    (hi : i < PGD_ENTRIES) : (process_init cfg q').pgd_pa.toNat / 4 + i ≠ pa.toNat / 4 := by
  have h1 := h.table_low q' hi
  have h2 := hs.above
  omega

theorem effects_stores (h : Linked cfg) {t : Tid cfg} {os : List (Obs cfg)} (hin : ∀ o ∈ os, o.InUser)
    (hsw : ∀ p n, .switched p n ∉ os) (hm : MInv m) (hcur : m.sys.k.current = t) :
    MInv (m.effects t os).1 ∧ ∀ w ∈ (m.effects t os).2, Isolated w := by
  induction os generalizing m with
  | nil => exact ⟨hm, by simp [Machine.effects]⟩
  | cons o os ih =>
    obtain ⟨ho, hin'⟩ := List.forall_mem_cons.mp hin
    have hsw' : ∀ p n, .switched p n ∉ os := fun p n hmem => hsw p n (List.mem_cons_of_mem _ hmem)
    cases o with
    | store va c =>
      obtain ⟨pa, ht, hs⟩ := hm.copy_store h ho
      obtain ⟨h1, h2⟩ := ih hin' hsw' (hm.setByte c (hs.no_table h)) hcur
      rw [hcur] at hs
      simp only [Machine.effects, ht]
      exact ⟨h1, List.forall_mem_cons.mpr ⟨isolated_copy hs, h2⟩⟩
    | switched p n => exact absurd (List.mem_cons_self ..) (hsw p n)
    | printf | putc | accepted | rejected | load | queued | readDone | sysret =>
        exact ih hin' hsw' hm hcur

end

theorem MInv.switch {m : Machine cfg} (hm : MInv m) {l : Label cfg} {s' : Sys cfg}
    (hs : Step m.sys l s') :
    MInv (Machine.switch_mm { m with sys := s' } m.sys.k.current s'.k.current) := by
  have hr := hm.reach.step hs
  have htab := (reachable_rep hr).tables
  unfold Machine.switch_mm
  simp only [htab.proc, htab.pgd_pa]
  split
  · rename_i heq
    refine ⟨hr, ?_, ?_, hm.tables⟩
    · rw [hm.ttbr0, heq]
    · rw [← heq]; exact hm.tlb
  · exact ⟨hr, rfl, fun i d hd => (by cases hd), hm.tables⟩

theorem mstep_isolated (h : Linked cfg) {m m' : Machine cfg} {ws : List (Write cfg)} (hm : MInv m)
    (hs : MStep m ws m') : MInv m' ∧ ∀ w ∈ ws, Isolated w := by
  cases hs with
  | walk i hi =>
    refine ⟨⟨hm.reach, hm.ttbr0, fun j d hd => ?_, hm.tables⟩, by simp⟩
    by_cases hj : j = i
    · subst hj
      simp only [Function.update_self, Option.some.injEq] at hd
      rw [← hd]
      exact hm.walk_eq h hi
    · simp only [Function.update_of_ne hj] at hd
      exact hm.tlb j d hd
  | evict i =>
    refine ⟨⟨hm.reach, hm.ttbr0, fun j d hd => ?_, hm.tables⟩, by simp⟩
    by_cases hj : j = i
    · subst hj
      simp at hd
    · simp only [Function.update_of_ne hj] at hd
      exact hm.tlb j d hd
  | userStore hu ht =>
    have hslot := hm.user_store h ht
    exact ⟨hm.setByte _ (hslot.no_table h), by simpa using isolated_user h hslot⟩
  | kernelStore hk ht =>
    obtain ⟨hlt, htab⟩ := hm.kernel_store h hk ht
    exact ⟨hm.setByte _ htab, by simpa using isolated_kernel hlt⟩
  | @code l s' hstep =>
    have hrep := reachable_rep hm.reach
    rcases (step_refines hrep hstep).2.inv_current with ⟨hcur, hno⟩ | ⟨hsw, -⟩
    · have hcur' : s'.k.current = m.sys.k.current := hcur
      refine effects_stores h (step_inUser hrep hstep) hno ⟨hm.reach.step hstep, ?_, ?_, hm.tables⟩ hcur
      · exact hm.ttbr0.trans (by rw [hcur'])
      · intro i d hd
        exact (hm.tlb i d hd).trans (by rw [hcur'])
    · rw [hsw]
      exact ⟨hm.switch hstep, by simp [Machine.effects]⟩

theorem bootMachine_inv (h : Linked cfg) (m : Mem) : MInv (bootMachine cfg m) := by
  have htab : (boot cfg).TablesOk := boot_tables_ok
  refine ⟨⟨[], .refl⟩, ?_, fun i d hd => (by cases hd), h.boot_memory_table m⟩
  show ((boot cfg).processes _).pgd_pa ||| _ = _
  rw [htab.pgd_pa, htab.proc]
  rfl

/-- No write reaches another process's slot, and none of user mode the kernel or a device. -/
theorem physical_isolation (h : Linked cfg) (m₀ : Mem) {tr : List (List (Write cfg))} {m : Machine cfg}
    (hr : Lib.Run MStep (bootMachine cfg m₀) tr m) : ∀ ws ∈ tr, ∀ w ∈ ws,
      (∀ q, Slot q w.pa → ∃ t, pidOf t = q ∧ (w.author = .user t ∨ w.author = .copy t)) ∧
        ∀ t, w.author = .user t → ¬ KernelMemory cfg w.pa ∧ ¬ DeviceMemory cfg w.pa := by
  have hall : MInv m ∧ ∀ ws ∈ tr, ∀ w ∈ ws, Isolated w := by
    refine hr.history (I := fun tr m => MInv m ∧ ∀ ws ∈ tr, ∀ w ∈ ws, Isolated w) ?_
      ⟨bootMachine_inv h m₀, by simp⟩
    rintro tr m ws m' ⟨hm, hw⟩ hs
    obtain ⟨hm', hws⟩ := mstep_isolated h hm hs
    refine ⟨hm', fun ws' hmem => ?_⟩
    rcases List.mem_append.mp hmem with hmem | hmem
    · exact hw ws' hmem
    · rw [List.mem_singleton.mp hmem]
      exact hws
  exact fun ws hws w hw => ⟨(hall.2 ws hws w hw).slot, (hall.2 ws hws w hw).user⟩

theorem physical_isolation_store :
    Linked demo ∧ ∃ tr m, Lib.Run MStep (bootMachine demo fun _ => 0#32) tr m ∧
    [⟨.user Kernel.first, 0x70200000#32⟩] ∈ tr ∧ ∀ ws ∈ tr, ∀ w ∈ ws,
      (∀ q, Slot q w.pa → ∃ t, pidOf t = q ∧ (w.author = .user t ∨ w.author = .copy t)) ∧
        ∀ t, w.author = .user t → ¬ KernelMemory demo w.pa ∧ ¬ DeviceMemory demo w.pa := by
  have hfirst : Lib.Run MStep (bootMachine demo fun _ => 0#32) [[]]
      { bootMachine demo fun _ => 0#32 with sys := (kernelStep (start demo)).1 } := by
    refine .single (MStep.code (m := bootMachine demo fun _ => 0#32) (Step.kernel (s := start demo) ?_))
    decide
  have hm := (mstep_isolated demo_linked (bootMachine_inv demo_linked fun _ => 0#32) hfirst.of_single).1
  have ht :
      Machine.translate { bootMachine demo fun _ => 0#32 with sys := (kernelStep (start demo)).1 } true
      0x40000000#32 = some 0x70200000#32 := by
    have hd := hm.descriptor_eq demo_linked 0x40000000#32
    unfold Machine.translate
    rw [hd]
    decide
  have hr := hfirst.snoc (.userStore (c := 0#8) (by decide) ht)
  exact ⟨demo_linked, _, _, hr,
    by simp [show (kernelStep (start demo)).1.k.current = Kernel.first from rfl],
    physical_isolation demo_linked _ hr⟩

end CortexAOS
