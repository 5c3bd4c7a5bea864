import CortexAOS.Isolation

/-!
# The same-process shortcut of context_switch

Two threads of one process share a page table, and `context_switch` leaves TTBR0 and the TLB alone
between them. Here any thread may follow any other, and the TLB fills itself at any time.
-/

namespace CortexAOS

variable {cfg : Config}

/-! ## TTBR0 and the TLB -/

/-- `running` is the thread whose context is loaded: none while `kmain` runs on `boot_pgd`. -/
structure Mmu (cfg : Config) where
  ttbr0 : Word
  tlb : Nat → Option Word
  mem : Mem
  running : Option (Tid cfg)

namespace Mmu

/-- From the label `ctxsw_switch_mm` on. -/
def ctxsw_switch_mm (s : Mmu cfg) (next : Tid cfg) : Mmu cfg :=
  { s with
    ttbr0 := ((boot cfg).processes ((boot cfg).threads next).proc).pgd_pa ||| 0x4A#32
    tlb := fun _ => none
    running := some next }

/-- The MMU work of `context_switch(prev, next)`. -/
def context_switch (s : Mmu cfg) (prev : Option (Tid cfg)) (next : Tid cfg) : Mmu cfg :=
  match prev with
  | none => s.ctxsw_switch_mm next
  | some prev =>
    if ((boot cfg).threads prev).proc = ((boot cfg).threads next).proc then
      { s with running := some next }
    else s.ctxsw_switch_mm next

/-- A `context_switch` without the shortcut. -/
def always_switch (s : Mmu cfg) (_prev : Option (Tid cfg)) (next : Tid cfg) : Mmu cfg :=
  s.ctxsw_switch_mm next

def descriptor (s : Mmu cfg) (va : Word) : Word :=
  (s.tlb (va >>> 20).toNat).getD (walk s.mem s.ttbr0 (va >>> 20).toNat)

def translate (s : Mmu cfg) (user : Bool) (va : Word) : Option Word :=
  if writable user (s.descriptor va) then some (sectionAddress (s.descriptor va) va) else none

end Mmu

/-- The arguments of a call, or none for what happens between two. -/
abbrev Switch (cfg : Config) := Option (Option (Tid cfg) × Tid cfg)

/-- Runs of context switches, for one way to switch. No store reaches a page table. -/
inductive MmuStep (switch : Mmu cfg → Option (Tid cfg) → Tid cfg → Mmu cfg) :
  Mmu cfg → Switch cfg → Mmu cfg → Prop
  | walk {s : Mmu cfg} (i : Nat) (hi : i < PGD_ENTRIES) :
      MmuStep switch s none { s with tlb := Function.update s.tlb i (some (walk s.mem s.ttbr0 i)) }
  | evict {s : Mmu cfg} (i : Nat) : MmuStep switch s none { s with tlb := Function.update s.tlb i none }
  | store {s : Mmu cfg} (m : Mem)
      (hkeep : ∀ q : Pid cfg, ∀ i < PGD_ENTRIES,
        m.entry (process_init cfg q).pgd_pa i = s.mem.entry (process_init cfg q).pgd_pa i) :
      MmuStep switch s none { s with mem := m }
  | first {s : Mmu cfg} (hr : s.running = none) :
      MmuStep switch s (some (none, Kernel.first)) (switch s none Kernel.first)
  | switch {s : Mmu cfg} {prev : Tid cfg} (hr : s.running = some prev) (next : Tid cfg) :
      MmuStep switch s (some (some prev, next)) (switch s (some prev) next)

def calls (tr : List (Switch cfg)) : List (Option (Tid cfg) × Tid cfg) := tr.filterMap id

/-! ## What is loaded -/

/-- The tables hold `table`, and what TTBR0 and the TLB hold belongs to the running thread. -/
structure Loaded (table : Pid cfg → Nat → Word) (s : Mmu cfg) : Prop where
  tables : ∀ q : Pid cfg, Holds s.mem (process_init cfg q).pgd_pa (table q)
  ttbr0 : ∀ t, s.running = some t → s.ttbr0 = (process_init cfg (pidOf t)).pgd_pa ||| 0x4A#32
  tlb : ∀ t, s.running = some t → ∀ i d, s.tlb i = some d → i < PGD_ENTRIES ∧ d = table (pidOf t) i

section

variable {table : Pid cfg → Nat → Word} {s s' : Mmu cfg}

theorem boot_pgd_of (t : Tid cfg) :
    ((boot cfg).processes ((boot cfg).threads t).proc).pgd_pa = (process_init cfg (pidOf t)).pgd_pa := by
  have htab : (boot cfg).TablesOk := boot_tables_ok
  rw [htab.pgd_pa, htab.proc]

theorem Loaded.ctxsw_switch_mm (hl : Loaded table s) (next : Tid cfg) :
    Loaded table (s.ctxsw_switch_mm next) := by
  constructor
  · exact hl.tables
  · intro t ht
    cases ht
    exact congrArg (· ||| 0x4A#32) (boot_pgd_of next)
  · intro t _ i d hd
    cases hd

theorem Loaded.context_switch (hl : Loaded table s) {prev : Option (Tid cfg)} (hr : s.running = prev)
    (next : Tid cfg) : Loaded table (s.context_switch prev next) := by
  have htab : (boot cfg).TablesOk := boot_tables_ok
  unfold Mmu.context_switch
  split
  · exact hl.ctxsw_switch_mm next
  · rename_i prev
    split
    · rename_i heq
      rw [htab.proc, htab.proc] at heq
      constructor
      · exact hl.tables
      · intro t ht
        cases ht
        rw [← heq]
        exact hl.ttbr0 prev hr
      · intro t ht
        cases ht
        rw [← heq]
        exact hl.tlb prev hr
    · exact hl.ctxsw_switch_mm next

theorem pgd_pa_aligned (hb : cfg.board = qemu ∨ cfg.board = bbb)
    (ha : cfg.proc_pgd.toNat % 16384 = 0) (q : Pid cfg) :
    (process_init cfg q).pgd_pa.toNat % 16384 = 0 := by
  have hoff : cfg.board.PHYS_OFFSET.toNat % 16384 = 0 := by rcases hb with hb | hb <;> rw [hb] <;> decide
  have hpa : (process_init cfg q).pgd_pa =
      cfg.proc_pgd + BitVec.ofNat 32 q.val * PGD_SIZE - cfg.board.PHYS_OFFSET := rfl
  rw [hpa, BitVec.toNat_sub, BitVec.toNat_add, BitVec.toNat_mul, PGD_SIZE_toNat]
  omega

theorem Loaded.walk_eq (hl : Loaded table s)
    (hal : ∀ q, (process_init cfg q).pgd_pa.toNat % 16384 = 0) {t : Tid cfg}
    (hr : s.running = some t) {i : Nat} (hi : i < PGD_ENTRIES) :
    walk s.mem s.ttbr0 i = table (pidOf t) i := by
  rw [walk, hl.ttbr0 t hr, ttbr0_base (hal _)]
  exact hl.tables _ i hi

theorem Loaded.descriptor_eq (hl : Loaded table s)
    (hal : ∀ q, (process_init cfg q).pgd_pa.toNat % 16384 = 0)
    {t : Tid cfg} (hr : s.running = some t) (va : Word) :
    s.descriptor va = table (pidOf t) (va >>> 20).toNat := by
  unfold Mmu.descriptor
  rcases ht : s.tlb (va >>> 20).toNat with _ | d
  · exact hl.walk_eq hal hr (section_index_lt va)
  · exact (hl.tlb t hr _ d ht).2

/-! ## Runs -/

/-- A way to switch that loads the next thread and what belongs to it. -/
structure LoadsNext (switch : Mmu cfg → Option (Tid cfg) → Tid cfg → Mmu cfg) : Prop where
  running : ∀ s prev next, (switch s prev next).running = some next
  loaded : ∀ table s next, Loaded table s → Loaded table (switch s s.running next)

theorem context_switch_loads : LoadsNext (@Mmu.context_switch cfg) := by
  constructor
  · intro s prev next
    unfold Mmu.context_switch
    split
    · rfl
    · split <;> rfl
  · intro table s next hl
    exact hl.context_switch rfl next

theorem always_switch_loads : LoadsNext (@Mmu.always_switch cfg) :=
  ⟨fun _ _ _ => rfl, fun _ _ next hl => hl.ctxsw_switch_mm next⟩

variable {switch : Mmu cfg → Option (Tid cfg) → Tid cfg → Mmu cfg}

theorem Loaded.update (hl : Loaded table s) {i : Nat} {o : Option Word}
    (ho : ∀ t, s.running = some t → ∀ d, o = some d → i < PGD_ENTRIES ∧ d = table (pidOf t) i) :
    Loaded table { s with tlb := Function.update s.tlb i o } := by
  refine ⟨hl.tables, hl.ttbr0, fun t ht j d hd => ?_⟩
  rcases eq_or_ne j i with rfl | hj
  · simp only [Function.update_self] at hd
    exact ho t ht d hd
  · simp only [Function.update_of_ne hj] at hd
    exact hl.tlb t ht j d hd

theorem Loaded.step (hsw : LoadsNext switch) (hal : ∀ q, (process_init cfg q).pgd_pa.toNat % 16384 = 0)
    {a : Switch cfg} (hl : Loaded table s) (hs : MmuStep switch s a s') : Loaded table s' := by
  cases hs with
  | walk i hi =>
    apply hl.update
    rintro t ht d ⟨⟩
    exact ⟨hi, hl.walk_eq hal ht hi⟩
  | evict i =>
    apply hl.update
    rintro t ht d ⟨⟩
  | store m hkeep => exact ⟨fun q i hi => (hkeep q i hi).trans (hl.tables q i hi), hl.ttbr0, hl.tlb⟩
  | first hr =>
    have := hsw.loaded table s Kernel.first hl
    rwa [hr] at this
  | switch hr next =>
    have := hsw.loaded table s next hl
    rwa [hr] at this

theorem running_of_calls (hsw : LoadsNext switch) {s₀ : Mmu cfg} {tr : List (Switch cfg)}
    (hr : Lib.Run (MmuStep switch) s₀ tr s) (h0 : s₀.running = none) :
    s.running = (calls tr).getLast?.map Prod.snd := by
  refine hr.history (I := fun tr s => s.running = (calls tr).getLast?.map Prod.snd) ?_
    (by simpa [calls] using h0)
  intro tr s a s' ih hs
  unfold calls at ih ⊢
  rw [List.filterMap_append]
  cases hs with
  | walk | evict | store => simpa using ih
  | first | switch => simp [hsw.running]

end

def tablesIn (m : Mem) (q : Pid cfg) (i : Nat) : Word := m.entry (process_init cfg q).pgd_pa i

/-- After every switch TTBR0 and the TLB are those of the next thread's process, and addresses
translate as if every switch had reloaded them. -/
theorem same_process_shortcut (hb : cfg.board = qemu ∨ cfg.board = bbb)
    (ha : cfg.proc_pgd.toNat % 16384 = 0)
    {s₀ s : Mmu cfg} {tr : List (Switch cfg)} (h0 : s₀.running = none)
    (hr : Lib.Run (MmuStep Mmu.context_switch) s₀ tr s) {prev : Option (Tid cfg)} {next : Tid cfg}
    (hlast : (calls tr).getLast? = some (prev, next)) :
    s.ttbr0 = ((boot cfg).processes ((boot cfg).threads next).proc).pgd_pa ||| 0x4A#32 ∧
    (∀ i d, s.tlb i = some d →
      d = s.mem.entry ((boot cfg).processes ((boot cfg).threads next).proc).pgd_pa i) ∧
    ∀ (s₀' s' : Mmu cfg) (tr' : List (Switch cfg)), s₀'.running = none →
      (∀ q : Pid cfg, ∀ i < PGD_ENTRIES, tablesIn s₀'.mem q i = tablesIn s₀.mem q i) →
      Lib.Run (MmuStep Mmu.always_switch) s₀' tr' s' → calls tr' = calls tr →
      ∀ va, s.descriptor va = s'.descriptor va ∧ ∀ user, s.translate user va = s'.translate user va := by
  have hal := pgd_pa_aligned hb ha
  have hstart : ∀ s₁ : Mmu cfg, s₁.running = none →
      (∀ q : Pid cfg, ∀ i < PGD_ENTRIES, tablesIn s₁.mem q i = tablesIn s₀.mem q i) →
      Loaded (tablesIn s₀.mem) s₁ := by
    intro s₁ h1 htab
    have hnone : ∀ t, s₁.running ≠ some t := by simp [h1]
    exact ⟨htab, fun t ht => absurd ht (hnone t), fun t ht => absurd ht (hnone t)⟩
  have hl : Loaded (tablesIn s₀.mem) s :=
    hr.invariant (fun s a s' hl hs => hl.step context_switch_loads hal hs)
      (hstart s₀ h0 fun _ _ _ => rfl)
  have hrun : s.running = some next := by rw [running_of_calls context_switch_loads hr h0, hlast]; rfl
  rw [boot_pgd_of]
  refine ⟨hl.ttbr0 next hrun, fun i d hd => ?_, fun s₀' s' tr' h0' htab hr' hcalls va => ?_⟩
  · obtain ⟨hi, rfl⟩ := hl.tlb next hrun i d hd
    exact (hl.tables _ i hi).symm
  · have hl' : Loaded (tablesIn s₀.mem) s' :=
      hr'.invariant (fun s a s' hl hs => hl.step always_switch_loads hal hs) (hstart s₀' h0' htab)
    have hrun' : s'.running = some next := by
      rw [running_of_calls always_switch_loads hr' h0', hcalls, hlast]; rfl
    have hd : s.descriptor va = s'.descriptor va := by
      rw [hl.descriptor_eq hal hrun, hl'.descriptor_eq hal hrun']
    refine ⟨hd, fun user => ?_⟩
    rw [Mmu.translate, Mmu.translate, hd]

theorem same_process_shortcut_siblings :
    ∃ s : Mmu demo,
      Lib.Run (MmuStep Mmu.context_switch) ⟨0#32, fun _ => none, boot_memory demo fun _ => 0#32, none⟩
        [some (none, Kernel.first), none, some (some Kernel.first, ⟨1, by decide⟩)] s ∧
      s.ttbr0 = 0x7011804A#32 ∧ s.tlb 0x400 ≠ none ∧
      ∀ i d, s.tlb i = some d → d = s.mem.entry 0x70118000#32 i := by
  have hr :
      Lib.Run (MmuStep Mmu.context_switch)
        (⟨0#32, fun _ => none, boot_memory demo fun _ => 0#32, none⟩ : Mmu demo)
      [some (none, Kernel.first), none, some (some Kernel.first, ⟨1, by decide⟩)] _ :=
    ((Lib.Run.single (.first rfl)).snoc (.walk 0x400 (by decide))).snoc (.switch rfl ⟨1, by decide⟩)
  have hlast :
      (calls [some (none, Kernel.first), none, some (some Kernel.first, ⟨1, by decide⟩)]).getLast? =
      some (some (Kernel.first : Tid demo), (⟨1, by decide⟩ : Tid demo)) := rfl
  obtain ⟨h1, h2, -⟩ := same_process_shortcut (Or.inl rfl) (by decide) rfl hr hlast
  have hsame :
    ((boot demo).threads Kernel.first).proc = ((boot demo).threads ⟨1, by decide⟩).proc := by decide
  exact ⟨_, hr, h1, by simp [Mmu.context_switch, hsame], h2⟩

/-! ## The machine of the whole system -/

/-- What the machine of `Mmu.lean` shows of itself here. -/
def Machine.mmu (m : Machine cfg) : Mmu cfg := ⟨m.ttbr0, m.tlb, m.mem, some m.sys.k.current⟩

theorem effects_keep_mmu {t : Tid cfg} {os : List (Obs cfg)} (hsw : ∀ p n, .switched p n ∉ os)
    (m : Machine cfg) : (m.effects t os).1.ttbr0 = m.ttbr0 ∧ (m.effects t os).1.tlb = m.tlb ∧
      (m.effects t os).1.sys.k.current = m.sys.k.current := by
  induction os generalizing m with
  | nil => exact ⟨rfl, rfl, rfl⟩
  | cons o os ih =>
    have hsw' : ∀ p n, .switched p n ∉ os := fun p n hmem => hsw p n (List.mem_cons_of_mem _ hmem)
    cases o with
    | store va c =>
      unfold Machine.effects
      split
      · exact ih hsw' _
      · exact ⟨rfl, rfl, rfl⟩
    | switched p n => exact absurd (List.mem_cons_self ..) (hsw p n)
    | printf | putc | accepted | rejected | load | queued | readDone | sysret => exact ih hsw' m

theorem MInv.keeps_tables {m m' : Machine cfg} (hm : MInv m) (hm' : MInv m') (q : Pid cfg) (i : Nat)
    (hi : i < PGD_ENTRIES) :
    m'.mem.entry (process_init cfg q).pgd_pa i = m.mem.entry (process_init cfg q).pgd_pa i :=
  (hm'.tables q i hi).trans (hm.tables q i hi).symm

/-- Every step of the machine is one of these: `schedule` passes the thread that is running. -/
theorem mstep_mmu (h : Linked cfg) {m m' : Machine cfg} {ws : List (Write cfg)} (hm : MInv m)
    (hs : MStep m ws m') : ∃ a, MmuStep Mmu.context_switch m.mmu a m'.mmu := by
  have hm' := (mstep_isolated h hm hs).1
  have hkeep := hm.keeps_tables hm'
  cases hs with
  | walk i hi => exact ⟨_, .walk i hi⟩
  | evict i => exact ⟨_, .evict i⟩
  | userStore hu ht => exact ⟨_, .store (s := m.mmu) _ hkeep⟩
  | kernelStore hk ht => exact ⟨_, .store (s := m.mmu) _ hkeep⟩
  | @code l s' hstep =>
    have hrep := reachable_rep hm.reach
    rcases (step_refines hrep hstep).2.inv_current with ⟨hcur, hno⟩ | ⟨hsw, -⟩
    · have hcur' : s'.k.current = m.sys.k.current := hcur
      obtain ⟨h1, h2, h3⟩ := effects_keep_mmu (t := m.sys.k.current) hno { m with sys := s' }
      refine ⟨none, ?_⟩
      unfold Machine.mmu at *
      rw [h1, h2, h3, hcur']
      exact .store (s := m.mmu) _ hkeep
    · have htab := (reachable_rep (hm.reach.step hstep)).tables
      have htab' : (boot cfg).TablesOk := boot_tables_ok
      have hsw' : l.obs = [.switched m.sys.k.current s'.k.current] := hsw
      refine ⟨some (some m.sys.k.current, s'.k.current), ?_⟩
      have heq : (Machine.effects m.sys.k.current { m with sys := s' } l.obs).1.mmu =
          m.mmu.context_switch (some m.sys.k.current) s'.k.current := by
        rw [hsw']
        simp only [Machine.effects, Machine.switch_mm, Mmu.context_switch, Mmu.ctxsw_switch_mm,
          htab.proc, htab.pgd_pa, htab'.proc, htab'.pgd_pa]
        split <;> rfl
      rw [heq]
      exact .switch rfl _

end CortexAOS
