import CortexAOS.AddressSpace
import CortexAOS.Linker

/-!
# start.S and mmu_enable.S

From reset to `kmain`, one instruction at a time. An instruction is fetched through the MMU as it
stands, so the code has to be mapped where it runs at every moment: at its physical address when
the MMU goes on, at its virtual one from the trampoline on.
-/

namespace CortexAOS.Boot

variable {cfg : Config}

/-! ## The processor -/

structure Cpu where
  r : Fin 13 → Word
  /-- SP and LR are banked: one for each value of CPSR.M. -/
  sp : Word → Word
  lr : Word → Word
  pc : Word
  mode : Word
  /-- CPSR.I and CPSR.F, which are only written together here. -/
  masked : Bool
  carry : Bool
  sctlr : Word
  ttbr0 : Word
  ttbcr : Word
  dacr : Word
  tlb : Nat → Option Word
  mem : Mem

namespace Cpu

def setR (c : Cpu) (i : Fin 13) (v : Word) : Cpu := { c with r := Function.update c.r i v }

def setSp (c : Cpu) (v : Word) : Cpu := { c with sp := Function.update c.sp c.mode v }

def setLr (c : Cpu) (v : Word) : Cpu := { c with lr := Function.update c.lr c.mode v }

def next (c : Cpu) : Cpu := { c with pc := c.pc + 4#32 }

/-- SCTLR.M. -/
def mmu (c : Cpu) : Bool := c.sctlr.getLsbD 0

def descriptor (c : Cpu) (va : Word) : Word :=
  (c.tlb (va >>> 20).toNat).getD (walk c.mem c.ttbr0 (va >>> 20).toNat)

/-- Where a privileged access goes. With the MMU on this is for TTBCR 0 and DACR 1, and nothing is
said for other values. -/
def translate (c : Cpu) (a : Access) (va : Word) : Option Word :=
  if c.mmu = false then some va
  else if c.ttbcr = 0#32 ∧ c.dacr = 1#32 ∧ permitted false a (c.descriptor va) = true then
    some (sectionAddress (c.descriptor va) va)
  else none

end Cpu

/-! ## Instructions -/

/-- A branch and `adr` hold a distance, as the encoded ones do; `ldr` holds its literal. -/
inductive Instr where
  | b (d : Word)
  | blo (d : Word)
  | bl (d : Word)
  | bx_lr
  | cpsid_if
  | cps (mode : Word)
  | adr (rd : Fin 13) (d : Word)
  | ldr (rd : Fin 13) (v : Word)
  | ldr_sp (v : Word)
  | ldr_pc (v : Word)
  | sub (rd rn rm : Fin 13)
  | sub_sp (rn rm : Fin 13)
  | mov (rd rm : Fin 13)
  | mov_imm (rd : Fin 13) (v : Word)
  | orr (rd : Fin 13) (v : Word)
  | cmp (rn rm : Fin 13)
  /-- `strlo rt, [rn], #4` -/
  | strlo (rt rn : Fin 13)
  | dsb
  | isb
  | iciallu
  | mcr_ttbr0 (rt : Fin 13)
  | mcr_ttbcr (rt : Fin 13)
  | mcr_dacr (rt : Fin 13)
  | tlbiall
  | mrc_sctlr (rt : Fin 13)
  | mcr_sctlr (rt : Fin 13)
  | wfi
  /-- The prologue and the epilogue of `mmu_init`. -/
  | push_fp_lr
  | pop_fp_pc
  /-- `mmu_init` up to its second call: `mmu_build_boot_pgd(pgd)`, and `pgd_pa` back in r0. -/
  | build

/-- The code, where the linker has put it, and what compiled code leaves in the registers and in the
stack that it may use. -/
structure Text (l : KernelLd cfg) where
  mmu_init : Word
  mmu_enable : Word
  kmain : Word
  junk : Fin 13 → Word
  junkStack : Nat → Word
  start_room : l._text_start + 128 ≤ l._vectors_start
  init_in : l._vectors_start + 60 ≤ mmu_init.toNat ∧ mmu_init.toNat + 16 ≤ l._text_end ∧
    mmu_init.toNat % 4 = 0
  enable_in : l._vectors_start + 60 ≤ mmu_enable.toNat ∧ mmu_enable.toNat + 92 ≤ l._text_end ∧
    mmu_enable.toNat % 4 = 0
  kmain_in : l._vectors_start + 60 ≤ kmain.toNat ∧ kmain.toNat + 4 ≤ l._text_end ∧ kmain.toNat % 4 = 0
  init_enable : Beside mmu_init.toNat 16 mmu_enable.toNat 92
  init_kmain : Beside mmu_init.toNat 16 kmain.toNat 4
  enable_kmain : Beside mmu_enable.toNat 92 kmain.toNat 4

namespace Text

variable {l : KernelLd cfg} (t : Text l)

def _start (_ : Text l) : Word := BitVec.ofNat 32 l._text_start

/-- `_start + 4 * i`, the address of the instruction `i` of start.S. -/
def addr (i : Nat) : Word := t._start + BitVec.ofNat 32 (4 * i)

def startS : List Instr :=
  [ -- _start
    .b 4#32,
    -- _reset
    .cpsid_if,
    .adr 0 (-8#32),
    .ldr 4 t._start,
    .sub 4 4 0,
    .cps 0x13#32,
    .ldr 1 (BitVec.ofNat 32 l._svc_stack_top),
    .sub_sp 1 4,
    .ldr 1 (BitVec.ofNat 32 l._bss_start),
    .ldr 2 (BitVec.ofNat 32 l._bss_end),
    .sub 1 1 4,
    .sub 2 2 4,
    .mov_imm 3 0#32,
    -- .Lzero_bss
    .cmp 1 2,
    .strlo 3 1,
    .blo (-8#32),
    .mov 0 4,
    .bl (t.mmu_init - t.addr 17),
    .ldr_pc (t.addr 19),
    -- _start_va
    .cps 0x11#32,
    .ldr_sp (BitVec.ofNat 32 l._fiq_stack_top),
    .cps 0x12#32,
    .ldr_sp (BitVec.ofNat 32 l._irq_stack_top),
    .cps 0x17#32,
    .ldr_sp (BitVec.ofNat 32 l._abt_stack_top),
    .cps 0x1B#32,
    .ldr_sp (BitVec.ofNat 32 l._und_stack_top),
    .cps 0x13#32,
    .ldr_sp (BitVec.ofNat 32 l._svc_stack_top),
    .bl (t.kmain - t.addr 29),
    -- .Lhalt
    .wfi,
    .b (-4#32)]

/-- mmu.c -/
def mmuInit : List Instr :=
  [.push_fp_lr, .build, .bl (t.mmu_enable - (t.mmu_init + 8#32)), .pop_fp_pc]

end Text

def mmuEnable : List Instr :=
  [.dsb,
    .mov_imm 1 0#32, .iciallu, .dsb, .isb,
    .orr 0 0x4A#32, .mcr_ttbr0 0,
    .mov_imm 1 0#32, .mcr_ttbcr 1,
    .mov_imm 1 1#32, .mcr_dacr 1,
    .mov_imm 1 0#32, .tlbiall, .dsb, .isb,
    .mrc_sctlr 1,
    .orr 1 (1#32 <<< 0), .orr 1 (1#32 <<< 2), .orr 1 (1#32 <<< 11), .orr 1 (1#32 <<< 12),
    .mcr_sctlr 1, .isb,
    .bx_lr]

namespace Text

variable {l : KernelLd cfg} (t : Text l)

/-- A word of the SVC stack below `sp`. -/
def BelowSp (_ : Text l) (sp : Word) (j : Nat) : Prop :=
  (cfg.board.pa (BitVec.ofNat 32 l._und_stack_top)).toNat / 4 ≤ j ∧ j < sp.toNat / 4

instance (sp : Word) (j : Nat) : Decidable (t.BelowSp sp j) := inferInstanceAs (Decidable (_ ∧ _))

def exec (i : Instr) (c : Cpu) : Option Cpu :=
  match i with
  | .b d => some { c with pc := c.pc + d }
  | .blo d => some { c with pc := if c.carry then c.pc + 4#32 else c.pc + d }
  | .bl d => some { c.setLr (c.pc + 4#32) with pc := c.pc + d }
  | .bx_lr => some { c with pc := c.lr c.mode }
  | .cpsid_if => some { c.next with masked := true }
  | .cps m => some { c.next with mode := m }
  | .adr rd d => some (c.next.setR rd (c.pc + d))
  | .ldr rd v => some (c.next.setR rd v)
  | .ldr_sp v => some (c.next.setSp v)
  | .ldr_pc v => some { c with pc := v }
  | .sub rd rn rm => some (c.next.setR rd (c.r rn - c.r rm))
  | .sub_sp rn rm => some (c.next.setSp (c.r rn - c.r rm))
  | .mov rd rm => some (c.next.setR rd (c.r rm))
  | .mov_imm rd v => some (c.next.setR rd v)
  | .orr rd v => some (c.next.setR rd (c.r rd ||| v))
  | .cmp rn rm => some { c.next with carry := decide (c.r rm ≤ c.r rn) }
  | .strlo rt rn =>
    if c.carry then some c.next
    else do
      let pa ← c.translate .write (c.r rn)
      some { c.next.setR rn (c.r rn + 4#32) with mem := c.mem.str pa (c.r rt) }
  | .dsb | .isb | .iciallu => some c.next
  | .mcr_ttbr0 rt => some { c.next with ttbr0 := c.r rt }
  | .mcr_ttbcr rt => some { c.next with ttbcr := c.r rt }
  | .mcr_dacr rt => some { c.next with dacr := c.r rt }
  | .tlbiall => some { c.next with tlb := fun _ => none }
  | .mrc_sctlr rt => some (c.next.setR rt c.sctlr)
  | .mcr_sctlr rt => some { c.next with sctlr := c.r rt }
  | .wfi => none
  | .push_fp_lr => do
    let pa ← c.translate .write (c.sp c.mode - 8#32)
    let pa' ← c.translate .write (c.sp c.mode - 4#32)
    some { c.next.setSp (c.sp c.mode - 8#32) with mem := (c.mem.str pa (c.r 11)).str pa' (c.lr c.mode) }
  | .pop_fp_pc => do
    let pa ← c.translate .read (c.sp c.mode)
    let pa' ← c.translate .read (c.sp c.mode + 4#32)
    some { (c.setR 11 (c.mem.ldr pa)).setSp (c.sp c.mode + 8#32) with pc := c.mem.ldr pa' }
  | .build =>
    -- With the MMU off the pointers of `mmu_build_boot_pgd` are physical.
    if c.mmu then none
    else
      let pgd_pa := cfg.boot_pgd - c.r 0
      let m := mmu_build_boot_pgd cfg.board c.mem pgd_pa
      some { c.next with
        r := fun i => if i = 0 then pgd_pa else if i.val ≤ 3 ∨ i = 12 then t.junk i else c.r i
        mem := fun j => if t.BelowSp (c.sp c.mode) j then t.junkStack j else m j }

def lookup (base : Word) (code : List Instr) (pa : Word) : Option Instr :=
  if (pa - base).toNat % 4 = 0 then code[(pa - base).toNat / 4]? else none

/-- The instruction at a physical address. -/
def fetch (pa : Word) : Option Instr :=
  (lookup (cfg.board.pa t._start) t.startS pa).or
    ((lookup (cfg.board.pa t.mmu_init) t.mmuInit pa).or
      (lookup (cfg.board.pa t.mmu_enable) mmuEnable pa))

/-- The next instruction, with the address that it is fetched from. None is an abort or the end. -/
def step (c : Cpu) : Option (Word × Cpu) := do
  let pa ← c.translate .execute c.pc
  let i ← t.fetch pa
  let c' ← t.exec i c
  some (pa, c')

/-- Walks and evictions: an entry is kept, dropped, or read from the table if the MMU is on. -/
def Refill (c c' : Cpu) : Prop :=
  ∃ tlb, c' = { c with tlb := tlb } ∧
    ∀ i, tlb i = c.tlb i ∨ tlb i = none ∨ (c.mmu = true ∧ tlb i = some (walk c.mem c.ttbr0 i))

/-- One instruction, after whatever the table walker has done. -/
def Step (c : Cpu) (pa : Word) (c' : Cpu) : Prop := ∃ c₁, Refill c c₁ ∧ t.step c₁ = some (pa, c')

end Text

/-! ## The TLB does not show -/

/-- What an instruction leaves in the TLB. -/
def tlbAfter (i : Instr) (tlb : Nat → Option Word) : Nat → Option Word :=
  match i with
  | .tlbiall => fun _ => none
  | _ => tlb

/-- `d` is the processor with a TLB that only `tlbiall` changes. -/
structure Tracks (c d : Cpu) : Prop where
  like : c = { d with tlb := c.tlb }
  off : d.mmu = false → d.tlb = (fun _ => none) → c.tlb = fun _ => none
  on : d.mmu = true → d.tlb = (fun _ => none) ∧ ∀ i x, c.tlb i = some x → x = walk d.mem d.ttbr0 i

/-- The TLB is empty when the MMU goes on, and from then on the table does not change. -/
def Safe (d d' : Cpu) : Prop :=
  (d.mmu = true → d'.mmu = true ∧ d'.mem = d.mem ∧ d'.ttbr0 = d.ttbr0) ∧
    (d.mmu = false → d'.mmu = true → d'.tlb = fun _ => none)

namespace Tracks

variable {c d : Cpu}

theorem start (hoff : c.mmu = false) : Tracks c c := by
  refine ⟨rfl, fun _ h => h, fun hon => ?_⟩
  rw [hoff] at hon
  cases hon

theorem mmu (h : Tracks c d) : c.mmu = d.mmu := by rw [h.like]; rfl

theorem refill {c₁ : Cpu} (h : Tracks c d) (hr : Text.Refill c c₁) : Tracks c₁ d := by
  obtain ⟨tlb, rfl, htlb⟩ := hr
  refine ⟨?_, ?_, ?_⟩
  · rw [h.like]
  · intro hoff hnone
    funext i
    rcases htlb i with he | he | ⟨hon, -⟩
    · exact he.trans (congrFun (h.off hoff hnone) i)
    · exact he
    · rw [h.mmu, hoff] at hon
      cases hon
  · intro hon
    refine ⟨(h.on hon).1, fun i x (hx : tlb i = some x) => ?_⟩
    rcases htlb i with he | he | ⟨-, he⟩
    · exact (h.on hon).2 i x (he ▸ hx)
    · rw [he] at hx
      cases hx
    · rw [he] at hx
      cases hx
      rw [h.like]

theorem translate (h : Tracks c d) (a : Access) (va : Word) : c.translate a va = d.translate a va := by
  have hdesc : d.mmu = true → c.descriptor va = d.descriptor va := by
    intro hon
    obtain ⟨hnone, hwalk⟩ := h.on hon
    have hd : d.descriptor va = walk d.mem d.ttbr0 (va >>> 20).toNat := by
      rw [Cpu.descriptor, hnone, Option.getD_none]
    rw [hd]
    unfold Cpu.descriptor
    cases hx : c.tlb (va >>> 20).toNat with
    | none =>
      rw [h.like]
      rfl
    | some x => exact hwalk _ x hx
  have httbcr : c.ttbcr = d.ttbcr := by rw [h.like]
  have hdacr : c.dacr = d.dacr := by rw [h.like]
  unfold Cpu.translate
  rw [h.mmu, httbcr, hdacr]
  cases hon : d.mmu with
  | false => rfl
  | true => rw [hdesc hon]

end Tracks

namespace Text

variable {l : KernelLd cfg} (t : Text l)

/-- An instruction sees of the TLB only what translations show. -/
theorem exec_tlb (i : Instr) (d : Cpu) (tlb : Nat → Option Word)
    (htr : ∀ a va, ({ d with tlb := tlb } : Cpu).translate a va = d.translate a va) :
    t.exec i { d with tlb := tlb } = (t.exec i d).map fun d' => { d' with tlb := tlbAfter i tlb } := by
  cases i with
  | strlo rt rn =>
    simp only [exec, htr]
    by_cases hc : d.carry = true
    · rw [if_pos hc, if_pos hc]
      rfl
    · rw [if_neg hc, if_neg hc]
      cases d.translate .write (d.r rn) <;> rfl
  | push_fp_lr =>
    simp only [exec, htr]
    cases d.translate .write (d.sp d.mode - 8#32) with
    | none => rfl
    | some pa => cases d.translate .write (d.sp d.mode - 4#32) <;> rfl
  | pop_fp_pc =>
    simp only [exec, htr]
    cases d.translate .read (d.sp d.mode) with
    | none => rfl
    | some pa => cases d.translate .read (d.sp d.mode + 4#32) <;> rfl
  | build =>
    have hmmu : ({ d with tlb := tlb } : Cpu).mmu = d.mmu := rfl
    simp only [exec, hmmu]
    cases d.mmu <;> rfl
  | _ => rfl

theorem exec_tlbAfter {i : Instr} {d d' : Cpu} (h : t.exec i d = some d') :
    d'.tlb = tlbAfter i d.tlb := by
  cases i with
  | strlo rt rn =>
    simp only [exec] at h
    split at h
    · cases h
      rfl
    · obtain ⟨pa, -, h⟩ := Option.bind_eq_some_iff.mp h
      cases h
      rfl
  | push_fp_lr | pop_fp_pc =>
    obtain ⟨pa, -, h⟩ := Option.bind_eq_some_iff.mp h
    obtain ⟨pa', -, h⟩ := Option.bind_eq_some_iff.mp h
    cases h
    rfl
  | build =>
    simp only [exec] at h
    split at h
    · cases h
    · cases h
      rfl
  | wfi => cases h
  | _ =>
    cases h
    rfl

theorem step_of_tracks {c d d' : Cpu} {pa : Word} (h : Tracks c d) (hd : t.step d = some (pa, d')) :
    ∃ i, t.step c = some (pa, { d' with tlb := tlbAfter i c.tlb }) ∧ d'.tlb = tlbAfter i d.tlb := by
  obtain ⟨pa', htr, hd⟩ := Option.bind_eq_some_iff.mp hd
  obtain ⟨i, hi, hd⟩ := Option.bind_eq_some_iff.mp hd
  obtain ⟨d'', he, hd⟩ := Option.bind_eq_some_iff.mp hd
  cases hd
  refine ⟨i, ?_, t.exec_tlbAfter he⟩
  have hexec : t.exec i c = some { d' with tlb := tlbAfter i c.tlb } := by
    have hl := h.like
    rw [hl, t.exec_tlb i d c.tlb fun a va => by rw [← hl]; exact h.translate a va, he, Option.map_some]
  have hpc : c.pc = d.pc := by rw [h.like]
  unfold step
  rw [h.translate, hpc, htr, Option.bind_eq_bind, Option.bind_some, hi, Option.bind_eq_bind,
    Option.bind_some, hexec, Option.bind_eq_bind, Option.bind_some]

theorem step_none {c d : Cpu} (h : Tracks c d) (hd : t.step d = none) : t.step c = none := by
  have hl := h.like
  have hpc : c.pc = d.pc := by rw [hl]
  have hexec : ∀ i, t.exec i d = none → t.exec i c = none := by
    intro i hi
    rw [hl, t.exec_tlb i d c.tlb fun a va => by rw [← hl]; exact h.translate a va, hi]
    rfl
  unfold step at hd ⊢
  rw [h.translate, hpc]
  cases htr : d.translate .execute d.pc with
  | none => rfl
  | some pa =>
    rw [htr, Option.bind_eq_bind, Option.bind_some] at hd
    rw [Option.bind_eq_bind, Option.bind_some]
    cases hi : t.fetch pa with
    | none => rfl
    | some i =>
      rw [hi, Option.bind_eq_bind, Option.bind_some] at hd
      rw [Option.bind_eq_bind, Option.bind_some]
      cases he : t.exec i d with
      | none => rw [hexec i he]; rfl
      | some d' => rw [he] at hd; cases hd

theorem tlbAfter_cases (i : Instr) :
    (∀ tlb, tlbAfter i tlb = tlb) ∨ ∀ tlb, tlbAfter i tlb = fun _ => none := by
  cases i <;> first | exact Or.inl fun _ => rfl | exact Or.inr fun _ => rfl

/-- One instruction on both sides. -/
theorem tracks_step {c d d' : Cpu} {pa : Word} (h : Tracks c d) (hd : t.step d = some (pa, d'))
    (hsafe : Safe d d') : ∃ c', t.step c = some (pa, c') ∧ Tracks c' d' := by
  obtain ⟨i, hc, htlb⟩ := t.step_of_tracks h hd
  refine ⟨_, hc, rfl, ?_, ?_⟩
  · intro hoff' hnone
    have hoff : d.mmu = false := by
      by_contra hon
      rw [(hsafe.1 (by simpa using hon)).1] at hoff'
      cases hoff'
    rcases tlbAfter_cases i with hk | hk
    · rw [hk] at htlb
      exact (hk _).trans (h.off hoff (htlb.symm.trans hnone))
    · exact hk _
  · intro hon'
    cases hon : d.mmu with
    | true =>
      obtain ⟨-, hmem, httbr⟩ := hsafe.1 hon
      obtain ⟨hnone, hwalk⟩ := h.on hon
      rw [hmem, httbr]
      rcases tlbAfter_cases i with hk | hk
      · rw [hk] at htlb
        refine ⟨htlb.trans hnone, fun j x hx => hwalk j x ?_⟩
        rwa [show tlbAfter i c.tlb = c.tlb from hk _] at hx
      · refine ⟨htlb.trans (hk _), fun j x hx => ?_⟩
        rw [show tlbAfter i c.tlb = fun _ => none from hk _] at hx
        cases hx
    | false =>
      have hnone := hsafe.2 hon hon'
      refine ⟨hnone, fun j x hx => ?_⟩
      have hempty : tlbAfter i c.tlb = fun _ => none := by
        rcases tlbAfter_cases i with hk | hk
        · rw [hk] at htlb
          exact (hk _).trans (h.off hon (htlb.symm.trans hnone))
        · exact hk _
      rw [show ({ d' with tlb := tlbAfter i c.tlb } : Cpu).tlb = fun _ => none from hempty] at hx
      cases hx

/-- A step without the table walker. -/
def Det (d : Cpu) (pa : Word) (d' : Cpu) : Prop := t.step d = some (pa, d') ∧ Safe d d'

theorem Det.step {d d' : Cpu} {pa : Word} (h : t.Det d pa d') : t.Step d pa d' :=
  ⟨d, ⟨d.tlb, rfl, fun _ => Or.inl rfl⟩, h.1⟩

/-- Whatever the walker does, the run is the one without it, as far as it has come. -/
theorem tracks_run {c d e : Cpu} {full : List Word} (hdet : Lib.Run t.Det d full e)
    (hend : t.step e = none)
    (h : Tracks c d) {tr : List Word} {c' : Cpu} (hr : Lib.Run t.Step c tr c') :
    ∃ d' rest, full = tr ++ rest ∧ Lib.Run t.Det d' rest e ∧ Tracks c' d' := by
  induction hr with
  | refl => exact ⟨d, full, rfl, hdet, h⟩
  | snoc _ hs ih =>
    obtain ⟨d₁, rest, hfull, hrest, htr⟩ := ih
    obtain ⟨c₂, hrefill, hstep⟩ := hs
    have htr₂ := htr.refill hrefill
    cases rest with
    | nil =>
      rw [t.step_none htr₂ (hrest.of_nil ▸ hend)] at hstep
      cases hstep
    | cons pa rest =>
      obtain ⟨d₂, hd₂, hrest'⟩ := hrest.uncons
      obtain ⟨c₃, hc₃, htr₃⟩ := t.tracks_step htr₂ hd₂.1 hd₂.2
      rw [hc₃] at hstep
      cases hstep
      exact ⟨d₂, rest, by rw [hfull, List.append_assoc]; rfl, hrest', htr₃⟩

/-! ## Where the code is -/

theorem pa_add (b : Board) (va x : Word) : b.pa (va + x) = b.pa va + x := by
  unfold Board.pa
  rw [BitVec.sub_eq_add_neg, BitVec.sub_eq_add_neg, BitVec.add_assoc, BitVec.add_comm x,
    BitVec.add_assoc]

theorem offset_toNat (base : Word) {n : Nat} (hn : n < 2 ^ 32) :
    (base + BitVec.ofNat 32 n - base).toNat = n := by
  have hb := base.isLt
  rw [BitVec.toNat_sub, BitVec.toNat_add, BitVec.toNat_ofNat]
  omega

theorem lookup_at (base : Word) (code : List Instr) {i : Nat} (hi : 4 * i < 2 ^ 32) :
    lookup base code (base + BitVec.ofNat 32 (4 * i)) = code[i]? := by
  unfold lookup
  rw [offset_toNat base hi, if_pos (Nat.mul_mod_right 4 i), Nat.mul_div_cancel_left i (by decide)]

theorem lookup_far {base pa : Word} {code : List Instr} (h : 4 * code.length ≤ (pa - base).toNat) :
    lookup base code pa = none := by
  unfold lookup
  split
  · exact List.getElem?_eq_none (by omega)
  · rfl

theorem sub_toNat (a b : Word) : (a - b).toNat = if b.toNat ≤ a.toNat then a.toNat - b.toNat else
    2 ^ 32 - b.toNat + a.toNat := by
  have ha := a.isLt
  have hb := b.isLt
  rw [BitVec.toNat_sub]
  split <;> omega

/-- Instructions at physical addresses `base`, `base + 4`, ... -/
def CodeAt (base : Word) (code : List Instr) : Prop :=
  ∀ k < code.length, t.fetch (base + BitVec.ofNat 32 (4 * k)) = code[k]?

theorem start_toNat : t._start.toNat = l._text_start := by
  have h1 := t.start_room
  have h2 := l.vectors
  have h3 := l.binaries
  have h4 := l.data
  have h5 := l.bss_order
  have h6 := l.stack_after
  have h7 := l.fits
  unfold _start
  rw [BitVec.toNat_ofNat]
  omega

theorem text_below : l._text_end ≤ 0xC0200000 := by
  have h3 := l.binaries
  have h4 := l.data
  have h5 := l.bss_order
  have h6 := l.stack_after
  have h7 := l.fits
  omega

theorem start_code : t.CodeAt (cfg.board.pa t._start) t.startS := by
  intro k hk
  have hlen : t.startS.length = 32 := rfl
  unfold fetch
  rw [lookup_at _ _ (by omega), List.getElem?_eq_getElem hk]
  rfl

theorem pa_sub (b : Board) (va base : Word) : b.pa va - b.pa base = va - base := by
  unfold Board.pa
  apply BitVec.eq_of_toNat_eq
  have h1 := va.isLt
  have h2 := base.isLt
  have h3 := b.PHYS_OFFSET.isLt
  rw [BitVec.toNat_sub, BitVec.toNat_sub, BitVec.toNat_sub, BitVec.toNat_sub]
  omega

theorem ofNat_toNat_add {va : Word} {n : Nat} (h : va.toNat + n < 2 ^ 32) :
    (va + BitVec.ofNat 32 n).toNat = va.toNat + n := by
  rw [BitVec.toNat_add, BitVec.toNat_ofNat]
  omega

theorem init_code : t.CodeAt (cfg.board.pa t.mmu_init) t.mmuInit := by
  intro k hk
  have hlen : t.mmuInit.length = 4 := rfl
  have h1 := t.init_in
  have h2 := t.start_room
  have h3 := text_below (l := l)
  have hva := ofNat_toNat_add (show t.mmu_init.toNat + 4 * k < 2 ^ 32 by omega)
  have hfar :
      lookup (cfg.board.pa t._start) t.startS
        (cfg.board.pa t.mmu_init + BitVec.ofNat 32 (4 * k)) = none := by
    apply lookup_far
    rw [← pa_add, pa_sub, sub_toNat, t.start_toNat, hva, if_pos (by omega),
      show t.startS.length = 32 from rfl]
    omega
  unfold fetch
  rw [hfar, lookup_at _ _ (by omega), List.getElem?_eq_getElem hk]
  rfl

theorem enable_code : t.CodeAt (cfg.board.pa t.mmu_enable) mmuEnable := by
  intro k hk
  have hlen : mmuEnable.length = 23 := rfl
  have h1 := t.enable_in
  have h2 := t.start_room
  have h3 := text_below (l := l)
  have hva := ofNat_toNat_add (show t.mmu_enable.toNat + 4 * k < 2 ^ 32 by omega)
  have hfar :
      lookup (cfg.board.pa t._start) t.startS
        (cfg.board.pa t.mmu_enable + BitVec.ofNat 32 (4 * k)) = none := by
    apply lookup_far
    rw [← pa_add, pa_sub, sub_toNat, t.start_toNat, hva, if_pos (by omega),
      show t.startS.length = 32 from rfl]
    omega
  have hfar' :
      lookup (cfg.board.pa t.mmu_init) t.mmuInit (cfg.board.pa t.mmu_enable + BitVec.ofNat 32 (4 * k)) =
      none := by
    have h4 := t.init_enable
    have h5 := t.init_in
    unfold Beside at h4
    apply lookup_far
    rw [← pa_add, pa_sub, sub_toNat, hva, show t.mmuInit.length = 4 from rfl]
    split <;> omega
  unfold fetch
  rw [hfar, hfar', lookup_at _ _ (by omega)]
  rfl

/-- What follows at `kmain` is compiled code. -/
theorem kmain_no_code : t.fetch (cfg.board.pa t.kmain) = none := by
  have h1 := t.kmain_in
  have h2 := t.start_room
  have h3 := text_below (l := l)
  have h4 := t.init_in
  have h5 := t.enable_in
  have h6 := t.init_kmain
  have h7 := t.enable_kmain
  unfold Beside at h6 h7
  have hs : lookup (cfg.board.pa t._start) t.startS (cfg.board.pa t.kmain) = none := by
    apply lookup_far
    rw [pa_sub, sub_toNat, t.start_toNat, if_pos (by omega), show t.startS.length = 32 from rfl]
    omega
  have hi : lookup (cfg.board.pa t.mmu_init) t.mmuInit (cfg.board.pa t.kmain) = none := by
    apply lookup_far
    rw [pa_sub, sub_toNat, show t.mmuInit.length = 4 from rfl]
    split <;> omega
  have he : lookup (cfg.board.pa t.mmu_enable) mmuEnable (cfg.board.pa t.kmain) = none := by
    apply lookup_far
    rw [pa_sub, sub_toNat, show mmuEnable.length = 23 from rfl]
    split <;> omega
  unfold fetch
  rw [hs, hi, he]
  rfl

/-! ## Straight code -/

theorem step_eq {c c' : Cpu} {pa : Word} {i : Instr} (htr : c.translate .execute c.pc = some pa)
    (hf : t.fetch pa = some i) (he : t.exec i c = some c') : t.step c = some (pa, c') := by
  unfold step
  rw [htr, Option.bind_eq_bind, Option.bind_some, hf, Option.bind_eq_bind, Option.bind_some, he,
    Option.bind_eq_bind, Option.bind_some]

theorem translate_off {c : Cpu} (hm : c.mmu = false) (a : Access) (va : Word) :
    c.translate a va = some va := if_pos hm

def execAll : List Instr → Cpu → Option Cpu
  | [], c => some c
  | i :: is, c => (t.exec i c).bind (execAll is)

/-- It goes on behind the instruction, and SCTLR stays. -/
def Straight : Instr → Bool
  | .cpsid_if | .cps _ | .adr .. | .ldr .. | .ldr_sp _ | .sub .. | .sub_sp .. | .mov ..
  | .mov_imm .. | .orr .. | .dsb | .isb | .iciallu | .mcr_ttbr0 _ | .mcr_ttbcr _ | .mcr_dacr _
  | .tlbiall | .mrc_sctlr _ | .push_fp_lr | .build => true
  | _ => false

/-- Nor does it touch memory or the MMU. -/
def Quiet : Instr → Bool
  | .cps _ | .ldr_sp _ | .isb => true
  | _ => false

theorem exec_straight {i : Instr} {c c' : Cpu} (hi : Straight i = true) (h : t.exec i c = some c') :
    c'.pc = c.pc + 4#32 ∧ c'.sctlr = c.sctlr := by
  cases i with
  | push_fp_lr =>
    obtain ⟨pa, -, h⟩ := Option.bind_eq_some_iff.mp h
    obtain ⟨pa', -, h⟩ := Option.bind_eq_some_iff.mp h
    cases h
    exact ⟨rfl, rfl⟩
  | build =>
    simp only [exec] at h
    split at h
    · cases h
    · cases h
      exact ⟨rfl, rfl⟩
  | b | blo | bl | bx_lr | ldr_pc | cmp | strlo | mcr_sctlr | wfi | pop_fp_pc => cases hi
  | _ =>
    cases h
    exact ⟨rfl, rfl⟩

theorem Cpu.mmu_of_sctlr {c c' : Cpu} (h : c'.sctlr = c.sctlr) : c'.mmu = c.mmu := by
  unfold Cpu.mmu
  rw [h]

theorem safe_off {c c' : Cpu} (h : c.mmu = false) (h' : c'.mmu = false) : Safe c c' := by
  constructor
  · intro hon
    rw [h] at hon
    cases hon
  · intro _ hon
    rw [h'] at hon
    cases hon

/-- With the MMU off, what is there is executed. -/
theorem step_off {c c' : Cpu} {i : Instr} (hf : t.fetch c.pc = some i) (he : t.exec i c = some c')
    (hm : c.mmu = false) (hm' : c'.mmu = false) : t.Det c c.pc c' :=
  ⟨t.step_eq (translate_off hm .execute c.pc) hf he, safe_off hm hm'⟩

theorem run_off {is : List Instr} {c c' : Cpu} (hm : c.mmu = false)
    (hcode : ∀ k < is.length, t.fetch (c.pc + BitVec.ofNat 32 (4 * k)) = is[k]?)
    (hs : ∀ i ∈ is, Straight i = true) (he : t.execAll is c = some c') :
    (∃ tr, tr.length = is.length ∧ Lib.Run t.Det c tr c') ∧ c'.mmu = false ∧
      c'.pc = c.pc + BitVec.ofNat 32 (4 * is.length) := by
  induction is generalizing c with
  | nil =>
    cases he
    exact ⟨⟨[], rfl, .refl⟩, hm, (BitVec.add_zero _).symm⟩
  | cons i is ih =>
    obtain ⟨c₁, he₁, he'⟩ := Option.bind_eq_some_iff.mp he
    obtain ⟨hpc, hsctlr⟩ := t.exec_straight (hs i (by simp)) he₁
    have hm₁ : c₁.mmu = false := (Cpu.mmu_of_sctlr hsctlr).trans hm
    have hfetch : t.fetch c.pc = some i := by
      have h0 := hcode 0 (by simp)
      rwa [Nat.mul_zero, BitVec.add_zero] at h0
    have hnext : ∀ k < is.length, t.fetch (c₁.pc + BitVec.ofNat 32 (4 * k)) = is[k]? := by
      intro k hk
      have hk' := hcode (k + 1) (by simpa using hk)
      rw [List.getElem?_cons_succ] at hk'
      rw [← hk', hpc, BitVec.add_assoc, ← BitVec.ofNat_add, Nat.mul_add, Nat.mul_one, Nat.add_comm]
    obtain ⟨⟨tr, hlen, hrun⟩, hoff, hend⟩ := ih hm₁ hnext (fun j hj => hs j (by simp [hj])) he'
    refine ⟨⟨c.pc :: tr, by rw [List.length_cons, hlen, List.length_cons],
      .cons (t.step_off hfetch he₁ hm hm₁) hrun⟩, hoff, ?_⟩
    rw [hend, hpc, BitVec.add_assoc, ← BitVec.ofNat_add, List.length_cons, Nat.mul_add, Nat.mul_one,
      Nat.add_comm]

/-- A piece of a listing. -/
theorem piece {base : Word} {code : List Instr} (hcode : t.CodeAt base code) {c : Cpu} {i n : Nat}
    (hpc : c.pc = base + BitVec.ofNat 32 (4 * i)) (hfit : i + n ≤ code.length) :
    ∀ k < ((code.drop i).take n).length, t.fetch (c.pc + BitVec.ofNat 32 (4 * k)) =
      ((code.drop i).take n)[k]? := by
  intro k hk
  rw [List.length_take, List.length_drop] at hk
  rw [hpc, BitVec.add_assoc, ← BitVec.ofNat_add, ← Nat.mul_add, hcode (i + k) (by omega),
    List.getElem?_take, if_pos (by omega), List.getElem?_drop]

/-- `n` instructions of a listing, from number `i` on. -/
theorem block_off {base : Word} {code : List Instr} (hcode : t.CodeAt base code) {c c' : Cpu}
    {i : Nat} (n : Nat)
    (hm : c.mmu = false) (hpc : c.pc = base + BitVec.ofNat 32 (4 * i)) (hfit : i + n ≤ code.length)
    (hs : ∀ j ∈ (code.drop i).take n, Straight j = true)
    (he : t.execAll ((code.drop i).take n) c = some c') :
    (∃ tr, tr.length = n ∧ Lib.Run t.Det c tr c') ∧ c'.mmu = false ∧
    c'.pc = base + BitVec.ofNat 32 (4 * (i + n)) := by
  have hlen : ((code.drop i).take n).length = n := by
    rw [List.length_take, List.length_drop]
    omega
  have hrun := t.run_off hm (t.piece hcode hpc hfit) hs he
  rw [hlen, hpc, BitVec.add_assoc, ← BitVec.ofNat_add, ← Nat.mul_add] at hrun
  exact hrun

/-! ## .Lzero_bss -/

/-- The first word of `.bss`, and how many there are. -/
def bssWord (_ : Text l) : Nat := (cfg.board.pa (BitVec.ofNat 32 l._bss_start)).toNat / 4

def bssWords (_ : Text l) : Nat := (l._bss_end - l._bss_start) / 4

/-- Memory after `k` words of `.bss` have been cleared. -/
def zeroed (m : Mem) (k : Nat) : Mem := fun j => if t.bssWord ≤ j ∧ j < t.bssWord + k then 0#32 else m j

/-- At `.Lzero_bss`. -/
structure Zeroing (m : Mem) (k : Nat) (c : Cpu) : Prop where
  pc : c.pc = cfg.board.pa t._start + BitVec.ofNat 32 (4 * 13)
  off : c.mmu = false
  r1 : c.r 1 = cfg.board.pa (BitVec.ofNat 32 l._bss_start) + BitVec.ofNat 32 (4 * k)
  r2 : c.r 2 = cfg.board.pa (BitVec.ofNat 32 l._bss_end)
  r3 : c.r 3 = 0#32
  r4 : c.r 4 = cfg.board.PHYS_OFFSET
  mode : c.mode = 0x13#32
  masked : c.masked = true
  sp : c.sp 0x13#32 = cfg.board.pa (BitVec.ofNat 32 l._svc_stack_top)
  mem : c.mem = t.zeroed m k

/-- `adr r0, _start`, `ldr r4, =_start` and `sub r4, r4, r0`. -/
theorem phys_offset (va : Word) :
    va - (cfg.board.pa va + 4#32 + 4#32 + -8#32) = cfg.board.PHYS_OFFSET := by
  have hback : cfg.board.pa va + 4#32 + 4#32 + -8#32 = va - cfg.board.PHYS_OFFSET := by
    rw [BitVec.add_assoc, BitVec.add_assoc, show 4#32 + (4#32 + -8#32) = 0#32 by decide, BitVec.add_zero]
    rfl
  rw [hback, BitVec.sub_eq_iff_eq_add, BitVec.add_comm, BitVec.sub_add_cancel]

theorem reset_exec (c : Cpu) :
    ∃ c', t.execAll ((t.startS.drop 1).take 12) c = some c' ∧
      c'.r 1 = BitVec.ofNat 32 l._bss_start - (t._start - (c.pc + 4#32 + -8#32)) ∧
      c'.r 2 = BitVec.ofNat 32 l._bss_end - (t._start - (c.pc + 4#32 + -8#32)) ∧
      c'.r 3 = 0#32 ∧ c'.r 4 = t._start - (c.pc + 4#32 + -8#32) ∧ c'.mode = 0x13#32 ∧ c'.masked = true ∧
      c'.sp 0x13#32 = BitVec.ofNat 32 l._svc_stack_top - (t._start - (c.pc + 4#32 + -8#32)) ∧
      c'.mem = c.mem :=
  ⟨_, rfl, rfl, rfl, rfl, rfl, rfl, rfl, rfl, rfl⟩

theorem zeroed_zero (m : Mem) : t.zeroed m 0 = m := by
  funext j
  unfold zeroed
  exact if_neg (by omega)

theorem reset_run {c : Cpu} (hpc : c.pc = cfg.board.pa t._start) (hm : c.mmu = false) :
    ∃ tr c', tr.length = 13 ∧ Lib.Run t.Det c tr c' ∧ t.Zeroing c.mem 0 c' := by
  have hfetch : t.fetch c.pc = some (.b 4#32) := by
    have h0 := t.start_code 0 (show 0 < 32 by decide)
    rw [Nat.mul_zero, BitVec.add_zero] at h0
    rw [hpc, h0]
    rfl
  have hfirst : t.Det c c.pc { c with pc := c.pc + 4#32 } := t.step_off hfetch rfl hm hm
  obtain ⟨c', he, hr1, hr2, hr3, hr4, hmode, hmasked, hsp, hmem⟩ :=
    t.reset_exec { c with pc := c.pc + 4#32 }
  have hoff : t._start - (c.pc + 4#32 + 4#32 + -8#32) = cfg.board.PHYS_OFFSET := by rw [hpc, phys_offset]
  simp only [hoff] at hr1 hr2 hr4 hsp
  obtain ⟨⟨tr, hlen, hrun⟩, hm', hpc'⟩ := t.block_off t.start_code
    (c := { c with pc := c.pc + 4#32 }) (i := 1) 12 hm (by rw [hpc]) (show 13 ≤ 32 by decide)
    (by simp [startS, Straight]) he
  refine ⟨c.pc :: tr, c', by rw [List.length_cons, hlen], .cons hfirst hrun, hpc', hm', ?_, hr2,
    hr3, hr4, hmode, hmasked, hsp, ?_⟩
  · rw [hr1, Nat.mul_zero, BitVec.add_zero]
    rfl
  · rw [hmem, zeroed_zero]

theorem bss_bounds : 0xC0000000 ≤ l._bss_start ∧ l._bss_end ≤ 0xC0200000 := by
  have h1 := l.origin_ge
  have h2 := l.bss_order
  have h3 := l.stack_after
  have h4 := l.fits
  omega

theorem va_toNat {n : Nat} (h : n ≤ 0xC0200000) : (BitVec.ofNat 32 n).toNat = n := by
  rw [BitVec.toNat_ofNat]
  omega

/-- The addresses that the loop goes through, as numbers. -/
theorem bss_pa {k : Nat} (hk : k ≤ t.bssWords) :
    (cfg.board.pa (BitVec.ofNat 32 l._bss_start) + BitVec.ofNat 32 (4 * k)).toNat =
      l._bss_start - 0xC0000000 + cfg.board.RAM_BASE.toNat + 4 * k := by
  have h1 := bss_bounds (l := l)
  have h2 := l.linked.placed.ram_lt
  have hva : (BitVec.ofNat 32 l._bss_start).toNat = l._bss_start := by
    have := l.bss_order
    exact va_toNat (by omega)
  unfold bssWords at hk
  rw [BitVec.toNat_add, l.pa_toNat (by omega), hva, BitVec.toNat_ofNat]
  omega

theorem bssWord_eq : 4 * t.bssWord = l._bss_start - 0xC0000000 + cfg.board.RAM_BASE.toNat := by
  have h1 := t.bss_pa (Nat.zero_le _)
  have h2 := l.linked.placed.ram_aligned
  have h3 := l.bss_aligned
  have h4 := bss_bounds (l := l)
  rw [Nat.mul_zero, BitVec.add_zero] at h1
  unfold bssWord
  rw [h1]
  omega

theorem bss_end_pa : (cfg.board.pa (BitVec.ofNat 32 l._bss_end)).toNat =
    l._bss_start - 0xC0000000 + cfg.board.RAM_BASE.toNat + 4 * t.bssWords := by
  have h1 := bss_bounds (l := l)
  have h2 := l.bss_order
  have h3 := l.bss_aligned
  have hva : (BitVec.ofNat 32 l._bss_end).toNat = l._bss_end := va_toNat h1.2
  rw [l.pa_toNat (by omega), hva]
  unfold bssWords
  omega

theorem zeroed_succ (m : Mem) {k : Nat} (hk : k < t.bssWords) :
    (t.zeroed m k).str (cfg.board.pa (BitVec.ofNat 32 l._bss_start) + BitVec.ofNat 32 (4 * k)) 0#32 =
      t.zeroed m (k + 1) := by
  have hword :
      (cfg.board.pa (BitVec.ofNat 32 l._bss_start) + BitVec.ofNat 32 (4 * k)).toNat / 4 =
        t.bssWord + k := by
    rw [t.bss_pa (Nat.le_of_lt hk), ← t.bssWord_eq, ← Nat.mul_add, Nat.mul_div_cancel_left _ (by decide)]
  unfold Mem.str zeroed
  funext j
  rw [hword, Function.update_apply]
  by_cases hj : j = t.bssWord + k
  · rw [if_pos hj, if_pos (by omega)]
  · rw [if_neg hj]
    have hiff : (t.bssWord ≤ j ∧ j < t.bssWord + (k + 1)) ↔
      (t.bssWord ≤ j ∧ j < t.bssWord + k) := by omega
    simp only [hiff]

theorem fetch_at {base : Word} {code : List Instr} (hcode : t.CodeAt base code) {pc : Word}
    {i : Nat} {j : Instr}
    (hpc : pc = base + BitVec.ofNat 32 (4 * i)) (hi : i < code.length) (hj : code[i]? = some j) :
    t.fetch pc = some j := by
  rw [hpc, hcode i hi, hj]

theorem next_pc {base pc : Word} {i : Nat} (h : pc = base + BitVec.ofNat 32 (4 * i)) :
    pc + 4#32 = base + BitVec.ofNat 32 (4 * (i + 1)) := by
  rw [h, BitVec.add_assoc, Nat.mul_add, BitVec.ofNat_add]

theorem exec_cmp (c : Cpu) {rn rm : Fin 13} {b : Bool} (hb : decide (c.r rm ≤ c.r rn) = b) :
    t.exec (.cmp rn rm) c = some { c.next with carry := b } := by
  rw [← hb]
  rfl

theorem exec_strlo (c : Cpu) (rt rn : Fin 13) (hc : c.carry = false) (hm : c.mmu = false) :
    t.exec (.strlo rt rn) c =
      some { c.next.setR rn (c.r rn + 4#32) with mem := c.mem.str (c.r rn) (c.r rt) } := by
  simp only [exec, hc, translate_off hm, Bool.false_eq_true, if_false]
  rfl

/-- `cmp` and `strlo` with something left to clear. -/
theorem zero_word {m : Mem} {k : Nat} {c : Cpu} (h : t.Zeroing m k c) (hk : k < t.bssWords) :
    ∃ tr c', tr.length = 3 ∧ Lib.Run t.Det c tr c' ∧ t.Zeroing m (k + 1) c' := by
  have hlo : ¬ c.r 2 ≤ c.r 1 := by
    rw [h.r1, h.r2, BitVec.le_def, t.bss_pa (Nat.le_of_lt hk), t.bss_end_pa]
    omega
  have hf₀ := t.fetch_at t.start_code (j := .cmp 1 2) h.pc (show 13 < 32 by decide) rfl
  have hs₀ : t.Det c c.pc { c.next with carry := false } :=
    t.step_off hf₀ (t.exec_cmp c (decide_eq_false hlo)) h.off h.off
  have hpc₁ : ({ c.next with carry := false } : Cpu).pc = _ := next_pc h.pc
  have hf₁ := t.fetch_at t.start_code (j := .strlo 3 1) hpc₁ (show 14 < 32 by decide) rfl
  let c₂ : Cpu := { ({ c.next with carry := false } : Cpu).next.setR 1 (c.r 1 + 4#32) with
    mem := c.mem.str (c.r 1) (c.r 3) }
  have hs₁ : t.Det { c.next with carry := false } _ c₂ :=
    t.step_off hf₁ (t.exec_strlo _ 3 1 rfl h.off) h.off h.off
  have hpc₂ : c₂.pc = _ := next_pc hpc₁
  have hf₂ := t.fetch_at t.start_code (j := .blo (-8#32)) hpc₂ (show 15 < 32 by decide) rfl
  have hs₂ : t.Det c₂ _ { c₂ with pc := c₂.pc + -8#32 } := t.step_off hf₂ rfl h.off h.off
  refine ⟨_, _, ?_, .cons hs₀ (.cons hs₁ (.single hs₂)), ?_, h.off, ?_, ?_, ?_, ?_, h.mode,
    h.masked, h.sp, ?_⟩
  · rfl
  · show c₂.pc + -8#32 = _
    rw [hpc₂, BitVec.add_assoc]
    rfl
  · show c.r 1 + 4#32 = _
    exact next_pc h.r1
  · exact h.r2
  · exact h.r3
  · exact h.r4
  · show c.mem.str (c.r 1) (c.r 3) = _
    rw [h.mem, h.r1, h.r3, t.zeroed_succ m hk]

/-- All of it: three instructions a word. -/
theorem zero_bss {m : Mem} {c : Cpu} (h : t.Zeroing m 0 c) {k : Nat} (hk : k ≤ t.bssWords) :
    ∃ tr c', tr.length = 3 * k ∧ Lib.Run t.Det c tr c' ∧ t.Zeroing m k c' := by
  induction k with
  | zero => exact ⟨[], c, rfl, .refl, h⟩
  | succ k ih =>
    obtain ⟨tr, c₁, hlen, hrun, h₁⟩ := ih (by omega)
    obtain ⟨tr', c₂, hlen', hrun', h₂⟩ := t.zero_word h₁ (by omega)
    exact ⟨tr ++ tr', c₂, by rw [List.length_append, hlen, hlen', Nat.mul_add], hrun.trans hrun', h₂⟩

theorem exec_strlo_skip (c : Cpu) (rt rn : Fin 13) (hc : c.carry = true) :
    t.exec (.strlo rt rn) c = some c.next := by
  simp only [exec, hc, if_true]

/-- Behind the loop. -/
structure Cleared (m : Mem) (c : Cpu) : Prop where
  pc : c.pc = cfg.board.pa t._start + BitVec.ofNat 32 (4 * 16)
  off : c.mmu = false
  r4 : c.r 4 = cfg.board.PHYS_OFFSET
  mode : c.mode = 0x13#32
  masked : c.masked = true
  sp : c.sp 0x13#32 = cfg.board.pa (BitVec.ofNat 32 l._svc_stack_top)
  mem : c.mem = t.zeroed m t.bssWords

theorem zero_done {m : Mem} {c : Cpu} (h : t.Zeroing m t.bssWords c) :
    ∃ tr c', tr.length = 3 ∧ Lib.Run t.Det c tr c' ∧ t.Cleared m c' := by
  have hhs : c.r 2 ≤ c.r 1 := by
    rw [h.r1, h.r2, BitVec.le_def, t.bss_pa (Nat.le_refl _), t.bss_end_pa]
  have hf₀ := t.fetch_at t.start_code (j := .cmp 1 2) h.pc (show 13 < 32 by decide) rfl
  have hs₀ : t.Det c c.pc { c.next with carry := true } :=
    t.step_off hf₀ (t.exec_cmp c (decide_eq_true hhs)) h.off h.off
  have hpc₁ : ({ c.next with carry := true } : Cpu).pc = _ := next_pc h.pc
  have hf₁ := t.fetch_at t.start_code (j := .strlo 3 1) hpc₁ (show 14 < 32 by decide) rfl
  have hs₁ := t.step_off hf₁ (t.exec_strlo_skip _ 3 1 rfl) h.off h.off
  have hpc₂ : ({ c.next with carry := true } : Cpu).next.pc = _ := next_pc hpc₁
  have hf₂ := t.fetch_at t.start_code (j := .blo (-8#32)) hpc₂ (show 15 < 32 by decide) rfl
  have hs₂ := t.step_off hf₂ rfl h.off h.off
  exact ⟨_, _, rfl, .cons hs₀ (.cons hs₁ (.single hs₂)), next_pc hpc₂, h.off, h.r4, h.mode,
    h.masked, h.sp, h.mem⟩

/-! ## mmu_init -/

theorem branch_pa (b : Board) (va target : Word) : b.pa va + (target - va) = b.pa target := by
  rw [← pa_add, BitVec.add_comm, BitVec.sub_add_cancel]

/-- SP of `mmu_init`, above what it pushes. -/
def bootSp (_ : Text l) : Word := cfg.board.pa (BitVec.ofNat 32 l._svc_stack_top)

/-- Behind `bl mmu_init`, still at the physical address. -/
def ret (t : Text l) : Word := cfg.board.pa t._start + BitVec.ofNat 32 (4 * 18)

structure AtInit (m : Mem) (c : Cpu) : Prop where
  pc : c.pc = cfg.board.pa t.mmu_init
  off : c.mmu = false
  r0 : c.r 0 = cfg.board.PHYS_OFFSET
  mode : c.mode = 0x13#32
  masked : c.masked = true
  sp : c.sp 0x13#32 = t.bootSp
  lr : c.lr 0x13#32 = t.ret
  mem : c.mem = t.zeroed m t.bssWords

theorem call_init {m : Mem} {c : Cpu} (h : t.Cleared m c) :
    ∃ tr c', tr.length = 2 ∧ Lib.Run t.Det c tr c' ∧ t.AtInit m c' := by
  have hf₀ := t.fetch_at t.start_code (j := .mov 0 4) h.pc (show 16 < 32 by decide) rfl
  have hs₀ : t.Det c c.pc (c.next.setR 0 (c.r 4)) := t.step_off hf₀ rfl h.off h.off
  have hpc₁ : (c.next.setR 0 (c.r 4)).pc = cfg.board.pa t._start + BitVec.ofNat 32 (4 * 17) :=
    next_pc h.pc
  have hf₁ :=
    t.fetch_at t.start_code (j := .bl (t.mmu_init - t.addr 17)) hpc₁ (show 17 < 32 by decide) rfl
  have hs₁ := t.step_off hf₁ rfl h.off h.off
  refine ⟨_, _, rfl, .cons hs₀ (.single hs₁), ?_, h.off, h.r4, h.mode, h.masked, h.sp, ?_, h.mem⟩
  · show (c.next.setR 0 (c.r 4)).pc + (t.mmu_init - t.addr 17) = _
    rw [hpc₁, ← pa_add]
    exact branch_pa cfg.board (t.addr 17) t.mmu_init
  · show Function.update c.lr c.mode ((c.next.setR 0 (c.r 4)).pc + 4#32) 0x13#32 = _
    rw [h.mode, Function.update_self]
    exact next_pc hpc₁

/-- Memory when `mmu_enable` is called. -/
def initMem (m : Mem) (fp : Word) : Mem := fun j =>
  if t.BelowSp (t.bootSp - 8#32) j then t.junkStack j
  else mmu_build_boot_pgd cfg.board
    (((t.zeroed m t.bssWords).str (t.bootSp - 8#32) fp).str (t.bootSp - 4#32) t.ret) cfg.boot_pgd_pa j

theorem exec_push (c : Cpu) (hm : c.mmu = false) :
    t.exec .push_fp_lr c = some { c.next.setSp (c.sp c.mode - 8#32) with
      mem := (c.mem.str (c.sp c.mode - 8#32) (c.r 11)).str (c.sp c.mode - 4#32) (c.lr c.mode) } := by
  simp only [exec, translate_off hm]
  rfl

theorem exec_build (c : Cpu) (hm : c.mmu = false) :
    t.exec .build c = some { c.next with
      r := fun i =>
        if i = 0 then cfg.boot_pgd - c.r 0 else if i.val ≤ 3 ∨ i = 12 then t.junk i else c.r i
      mem := fun j => if t.BelowSp (c.sp c.mode) j then t.junkStack j
        else mmu_build_boot_pgd cfg.board c.mem (cfg.boot_pgd - c.r 0) j } := by
  simp only [exec, hm, Bool.false_eq_true, if_false]

structure AtEnable (m : Mem) (c : Cpu) : Prop where
  pc : c.pc = cfg.board.pa t.mmu_enable
  off : c.mmu = false
  r0 : c.r 0 = cfg.boot_pgd_pa
  mode : c.mode = 0x13#32
  masked : c.masked = true
  sp : c.sp 0x13#32 = t.bootSp - 8#32
  lr : c.lr 0x13#32 = cfg.board.pa t.mmu_init + BitVec.ofNat 32 (4 * 3)
  mem : ∃ fp, c.mem = t.initMem m fp

/-- Behind the prologue of `mmu_init`. -/
structure Pushed (m : Mem) (fp : Word) (c : Cpu) : Prop where
  pc : c.pc = cfg.board.pa t.mmu_init + BitVec.ofNat 32 (4 * 1)
  off : c.mmu = false
  r0 : c.r 0 = cfg.board.PHYS_OFFSET
  mode : c.mode = 0x13#32
  masked : c.masked = true
  sp : c.sp 0x13#32 = t.bootSp - 8#32
  mem : c.mem = ((t.zeroed m t.bssWords).str (t.bootSp - 8#32) fp).str (t.bootSp - 4#32) t.ret

theorem init_push {m : Mem} {c : Cpu} (h : t.AtInit m c) :
    ∃ c', t.Det c c.pc c' ∧ t.Pushed m (c.r 11) c' := by
  have hpc : c.pc = cfg.board.pa t.mmu_init + BitVec.ofNat 32 (4 * 0) := by
    rw [h.pc, Nat.mul_zero, BitVec.add_zero]
  have hf := t.fetch_at t.init_code hpc (show 0 < 4 by decide) rfl
  refine ⟨_, t.step_off hf (t.exec_push c h.off) h.off h.off, next_pc hpc, h.off, h.r0, h.mode,
    h.masked, ?_, ?_⟩
  · show Function.update c.sp c.mode (c.sp c.mode - 8#32) 0x13#32 = _
    rw [h.mode, Function.update_self, h.sp]
  · show (c.mem.str (c.sp c.mode - 8#32) (c.r 11)).str (c.sp c.mode - 4#32) (c.lr c.mode) = _
    rw [h.mode, h.sp, h.lr, h.mem]

/-- Before `bl mmu_enable`. -/
structure Tabled (m : Mem) (fp : Word) (c : Cpu) : Prop where
  pc : c.pc = cfg.board.pa t.mmu_init + BitVec.ofNat 32 (4 * 2)
  off : c.mmu = false
  r0 : c.r 0 = cfg.boot_pgd_pa
  mode : c.mode = 0x13#32
  masked : c.masked = true
  sp : c.sp 0x13#32 = t.bootSp - 8#32
  mem : c.mem = t.initMem m fp

theorem init_build {m : Mem} {fp : Word} {c : Cpu} (h : t.Pushed m fp c) :
    ∃ c', t.Det c c.pc c' ∧ t.Tabled m fp c' := by
  have hf := t.fetch_at t.init_code h.pc (show 1 < 4 by decide) rfl
  refine ⟨_, t.step_off hf (t.exec_build c h.off) h.off h.off, next_pc h.pc, h.off, ?_, h.mode,
    h.masked, h.sp, ?_⟩
  · show cfg.boot_pgd - c.r 0 = _
    rw [h.r0]
    rfl
  · show (fun j => if t.BelowSp (c.sp c.mode) j then t.junkStack j
        else mmu_build_boot_pgd cfg.board c.mem (cfg.boot_pgd - c.r 0) j) = _
    rw [h.mode, h.sp, h.mem, h.r0]
    rfl

theorem call_enable {m : Mem} {c : Cpu} (h : t.AtInit m c) :
    ∃ tr c', tr.length = 3 ∧ Lib.Run t.Det c tr c' ∧ t.AtEnable m c' := by
  obtain ⟨c₁, hs₀, h₁⟩ := t.init_push h
  obtain ⟨c₂, hs₁, h₂⟩ := t.init_build h₁
  have hf :=
    t.fetch_at t.init_code (j := .bl (t.mmu_enable - (t.mmu_init + 8#32))) h₂.pc
      (show 2 < 4 by decide) rfl
  refine ⟨_, _, rfl, .cons hs₀ (.cons hs₁ (.single (t.step_off hf rfl h₂.off h₂.off))), ?_, h₂.off,
    h₂.r0, h₂.mode, h₂.masked, h₂.sp, ?_, c.r 11, h₂.mem⟩
  · show c₂.pc + (t.mmu_enable - (t.mmu_init + 8#32)) = _
    rw [h₂.pc, ← pa_add]
    exact branch_pa cfg.board (t.mmu_init + 8#32) t.mmu_enable
  · show Function.update c₂.lr c₂.mode (c₂.pc + 4#32) 0x13#32 = _
    rw [h₂.mode, Function.update_self]
    exact next_pc h₂.pc

/-! ## What memory holds then -/

theorem mmu_build_boot_pgd_within (b : Board) (m : Mem) (pgd : Word) :
    Within (InTable pgd) m (mmu_build_boot_pgd b m pgd) := by
  have hrange :
      ∀ m va pa size attrs, Within (InTable pgd) m (pgtable_map_range m pgd va pa size attrs) := by
    intro m va pa size attrs
    rw [map_range_stores]
    exact storeAll_within m pgd _ (rangeStores_lt va pa size attrs)
  exact ((hrange _ _ _ _ _).trans (hrange _ _ _ _ _)).trans
    (Within.foldl (fun m p _ => hrange m p.1 p.1 p.2 PDE_DEVICE) _)

/-- `.bss`, and the SVC stack. -/
def Bss (j : Nat) : Prop := t.bssWord ≤ j ∧ j < t.bssWord + t.bssWords

def SvcStack (j : Nat) : Prop := t.BelowSp t.bootSp j

theorem bootSp_toNat : t.bootSp.toNat = l._svc_stack_top - 0xC0000000 + cfg.board.RAM_BASE.toNat := by
  have h1 := bss_bounds (l := l)
  have h2 := l.bss_order
  have h3 := l.stack_after
  have h4 := l.fits
  have htop := l.svc_top
  have hva : (BitVec.ofNat 32 l._svc_stack_top).toNat = l._svc_stack_top := va_toNat (by omega)
  unfold bootSp
  rw [l.pa_toNat (by omega), hva]

/-- A word of the frame that `mmu_init` pushes. -/
theorem frame_toNat {n : Nat} (hn : n ≤ 8) :
    (t.bootSp - BitVec.ofNat 32 n).toNat = t.bootSp.toNat - n := by
  have h1 := t.bootSp_toNat
  have h2 := bss_bounds (l := l)
  have h3 := l.bss_order
  have h4 := l.stack_after
  have htop := l.svc_top
  have hlt := t.bootSp.isLt
  rw [BitVec.toNat_sub, BitVec.toNat_ofNat]
  omega

theorem und_top_toNat (l : KernelLd cfg) : (cfg.board.pa (BitVec.ofNat 32 l._und_stack_top)).toNat =
    l._und_stack_top - 0xC0000000 + cfg.board.RAM_BASE.toNat := by
  have h1 := bss_bounds (l := l)
  have h2 := l.bss_order
  have h3 := l.stack_after
  have h4 := l.fits
  have htop := l.und_top
  have hva : (BitVec.ofNat 32 l._und_stack_top).toNat = l._und_stack_top := va_toNat (by omega)
  rw [l.pa_toNat (by omega), hva]

theorem svcStack_words {j : Nat} : t.SvcStack j ↔
    l.stack + 0xE00 - 0xC0000000 + cfg.board.RAM_BASE.toNat ≤ 4 * j ∧
      4 * j + 4 ≤ l.stack + 0x2E00 - 0xC0000000 + cfg.board.RAM_BASE.toNat := by
  have h1 := bss_bounds (l := l)
  have h2 := l.bss_order
  have h3 := l.stack_after
  have h4 := l.linked.placed.ram_aligned
  have htop := l.svc_top
  have hund := l.und_top
  unfold SvcStack BelowSp
  rw [und_top_toNat, t.bootSp_toNat, htop, hund]
  omega

theorem bss_words {j : Nat} : t.Bss j ↔ l._bss_start - 0xC0000000 + cfg.board.RAM_BASE.toNat ≤ 4 * j ∧
    4 * j + 4 ≤ l._bss_end - 0xC0000000 + cfg.board.RAM_BASE.toNat := by
  have h1 := t.bssWord_eq
  have h2 := l.bss_order
  have h3 := l.bss_aligned
  have h4 := bss_bounds (l := l)
  unfold Bss bssWords
  omega

theorem table_bss {j : Nat} (hj : InTable cfg.boot_pgd_pa j) : t.Bss j := by
  have hend : cfg.boot_pgd.toNat + 16384 ≤ l._bss_end := by
    have h1 := l.proc_pgd.1
    have h2 := l.kstack.1
    have h3 := l.kstack.2.1
    omega
  have hlo := l.boot_pgd.1
  have hbss := (bss_bounds (l := l)).1
  have hwords := l.boot_words hj
  rw [t.bss_words]
  exact ⟨by omega, by omega⟩

theorem bss_not_stack {j : Nat} (hb : t.Bss j) : ¬ t.SvcStack j := by
  have h1 := l.stack_after
  have h2 := bss_bounds (l := l)
  rw [bss_words] at hb
  rw [svcStack_words]
  omega

/-- The stores of the prologue, and of the compiled code below it. -/
theorem frame_stack {n : Nat} (hn : n = 4 ∨ n = 8) :
    t.SvcStack ((t.bootSp - BitVec.ofNat 32 n).toNat / 4) := by
  have h1 := t.bootSp_toNat
  have h2 := t.frame_toNat (n := n) (by omega)
  have h3 := bss_bounds (l := l)
  have h4 := l.stack_after
  have h5 := l.bss_order
  have h6 := l.linked.placed.ram_aligned
  have htop := l.svc_top
  rw [svcStack_words, h2, h1, htop]
  omega

theorem below_stack {j : Nat} (h : t.BelowSp (t.bootSp - 8#32) j) : t.SvcStack j ∧
    j ≠ (t.bootSp - 4#32).toNat / 4 := by
  have h1 : (t.bootSp - 8#32).toNat = _ := t.frame_toNat (n := 8) (by decide)
  have h2 : (t.bootSp - 4#32).toNat = _ := t.frame_toNat (n := 4) (by decide)
  obtain ⟨hlo, hhi⟩ := h
  rw [h1] at hhi
  rw [h2]
  exact ⟨⟨hlo, by omega⟩, by omega⟩

theorem str_within {P : Nat → Prop} (m : Mem) {pa : Word} (v : Word) (h : P (pa.toNat / 4)) :
    Within P m (m.str pa v) := by
  intro j hj
  have hne : j ≠ pa.toNat / 4 := by
    rintro rfl
    exact hj h
  exact Function.update_of_ne hne _ _

theorem pushed_within (m : Mem) (fp : Word) :
    Within t.SvcStack m ((m.str (t.bootSp - 8#32) fp).str (t.bootSp - 4#32) t.ret) :=
  (str_within m fp (t.frame_stack (n := 8) (Or.inr rfl))).trans
    (str_within _ t.ret (t.frame_stack (n := 4) (Or.inl rfl)))

theorem initMem_table (m : Mem) (fp : Word) :
    Holds (t.initMem m fp) cfg.boot_pgd_pa (bootEntry cfg.board) := by
  have hzero : Holds (t.zeroed m t.bssWords) cfg.boot_pgd_pa fun _ => 0#32 := by
    intro i hi
    exact if_pos (t.table_bss ⟨by omega, by omega⟩)
  have hpushed := hzero.within (t.pushed_within (t.zeroed m t.bssWords) fp)
    (fun i hi => t.bss_not_stack (t.table_bss ⟨by omega, by omega⟩))
  have hbuilt := mmu_build_boot_pgd_holds l.linked.placed.fits hpushed
  intro i hi
  have hout : ¬ t.BelowSp (t.bootSp - 8#32) (cfg.boot_pgd_pa.toNat / 4 + i) := fun hb =>
    t.bss_not_stack (t.table_bss ⟨by omega, by omega⟩) (t.below_stack hb).1
  rw [← hbuilt i hi]
  exact if_neg hout

theorem initMem_ret (m : Mem) (fp : Word) : (t.initMem m fp).ldr (t.bootSp - 4#32) = t.ret := by
  have hstack := t.frame_stack (n := 4) (Or.inl rfl)
  have hbelow : ¬ t.BelowSp (t.bootSp - 8#32) ((t.bootSp - 4#32).toNat / 4) :=
    fun hb => (t.below_stack hb).2 rfl
  have htable : ¬ InTable cfg.boot_pgd_pa ((t.bootSp - 4#32).toNat / 4) := fun hi =>
    t.bss_not_stack (t.table_bss hi) hstack
  have hldr : (t.initMem m fp).ldr (t.bootSp - 4#32) = mmu_build_boot_pgd cfg.board
      (((t.zeroed m t.bssWords).str (t.bootSp - 8#32) fp).str (t.bootSp - 4#32) t.ret) cfg.boot_pgd_pa
        ((t.bootSp - 4#32).toNat / 4) := if_neg hbelow
  rw [hldr, mmu_build_boot_pgd_within _ _ _ _ htable, Mem.str, Function.update_self]

/-- The rest of `.bss` is clear, and outside it only the stack has changed. -/
theorem initMem_else (m : Mem) (fp : Word) {j : Nat} (ht : ¬ InTable cfg.boot_pgd_pa j)
    (hs : ¬ t.SvcStack j) : t.initMem m fp j = t.zeroed m t.bssWords j := by
  have hbelow : ¬ t.BelowSp (t.bootSp - 8#32) j := fun hb => hs (t.below_stack hb).1
  have hmem : t.initMem m fp j = mmu_build_boot_pgd cfg.board
      (((t.zeroed m t.bssWords).str (t.bootSp - 8#32) fp).str (t.bootSp - 4#32) t.ret)
        cfg.boot_pgd_pa j := if_neg hbelow
  rw [hmem, mmu_build_boot_pgd_within _ _ _ _ ht, t.pushed_within _ fp j hs]

/-! ## mmu_enable -/

/-- With the MMU on, up to `kmain`. -/
structure Live (m : Mem) (c : Cpu) : Prop where
  sctlr : c.sctlr &&& 0x1805#32 = 0x1805#32
  tlb : c.tlb = fun _ => none
  ttbr0 : c.ttbr0 = cfg.boot_pgd_pa ||| 0x4A#32
  ttbcr : c.ttbcr = 0#32
  dacr : c.dacr = 1#32
  masked : c.masked = true
  mem : ∃ fp, c.mem = t.initMem m fp

theorem enable_exec (c : Cpu) :
    ∃ c', t.execAll ((mmuEnable.drop 0).take 20) c = some c' ∧
      c'.r 1 = (c.sctlr ||| 1#32 <<< 0 ||| 1#32 <<< 2 ||| 1#32 <<< 11 ||| 1#32 <<< 12) ∧
      (c'.tlb = fun _ => none) ∧ c'.ttbr0 = c.r 0 ||| 0x4A#32 ∧ c'.ttbcr = 0#32 ∧ c'.dacr = 1#32 ∧
      c'.mode = c.mode ∧ c'.masked = c.masked ∧ c'.sp = c.sp ∧ c'.lr = c.lr ∧ c'.mem = c.mem :=
  ⟨_, rfl, rfl, rfl, rfl, rfl, rfl, rfl, rfl, rfl, rfl, rfl⟩

/-- M, C, Z and I. -/
theorem sctlr_bits (x : Word) :
    (x ||| 1#32 <<< 0 ||| 1#32 <<< 2 ||| 1#32 <<< 11 ||| 1#32 <<< 12) &&& 0x1805#32 = 0x1805#32 := by
  rw [BitVec.or_assoc, BitVec.or_assoc, BitVec.or_assoc,
    show (1#32 <<< 0 ||| (1#32 <<< 2 ||| (1#32 <<< 11 ||| 1#32 <<< 12)) : Word) = 0x1805#32 by
      decide, BitVec.and_comm,
    BitVec.and_or_distrib_left, BitVec.and_self, BitVec.or_comm]
  ext i hi
  simp
  tauto

theorem mmu_on {c : Cpu} (h : c.sctlr &&& 0x1805#32 = 0x1805#32) : c.mmu = true := by
  have hbit : (c.sctlr &&& 0x1805#32).getLsbD 0 = true := by rw [h]; rfl
  rw [BitVec.getLsbD_and, Bool.and_eq_true] at hbit
  exact hbit.1

/-- Behind the write of SCTLR, at the physical address. -/
structure AtOn (m : Mem) (c : Cpu) : Prop extends t.Live m c where
  pc : c.pc = cfg.board.pa t.mmu_enable + BitVec.ofNat 32 (4 * 21)
  mode : c.mode = 0x13#32
  sp : c.sp 0x13#32 = t.bootSp - 8#32
  lr : c.lr 0x13#32 = cfg.board.pa t.mmu_init + BitVec.ofNat 32 (4 * 3)

theorem enable_run {m : Mem} {c : Cpu} (h : t.AtEnable m c) :
    ∃ tr c', tr.length = 21 ∧ Lib.Run t.Det c tr c' ∧ t.AtOn m c' := by
  obtain ⟨c₁, he, hr1, htlb, httbr0, httbcr, hdacr, hmode, hmasked, hsp, hlr, hmem⟩ := t.enable_exec c
  obtain ⟨⟨tr, hlen, hrun⟩, hoff, hpc⟩ := t.block_off t.enable_code (i := 0) 20 h.off
    (by rw [h.pc, Nat.mul_zero, BitVec.add_zero]) (show 20 ≤ 23 by decide) (by decide) he
  have hf := t.fetch_at t.enable_code (j := .mcr_sctlr 1) hpc (show 20 < 23 by decide) rfl
  have hstep : t.step c₁ = some (c₁.pc, { c₁.next with sctlr := c₁.r 1 }) :=
    t.step_eq (translate_off hoff .execute c₁.pc) hf rfl
  have hsafe : Safe c₁ { c₁.next with sctlr := c₁.r 1 } := by
    refine ⟨fun hon => ?_, fun _ _ => htlb⟩
    rw [hoff] at hon
    cases hon
  refine ⟨tr ++ [c₁.pc], _, by rw [List.length_append, hlen]; rfl, hrun.snoc ⟨hstep, hsafe⟩,
    ⟨?_, htlb, ?_, httbcr, hdacr, hmasked.trans h.masked, ?_⟩, next_pc hpc, hmode.trans h.mode, ?_, ?_⟩
  · show c₁.r 1 &&& 0x1805#32 = 0x1805#32
    rw [hr1, sctlr_bits]
  · show c₁.ttbr0 = _
    rw [httbr0, h.r0]
  · obtain ⟨fp, hfp⟩ := h.mem
    exact ⟨fp, hmem.trans hfp⟩
  · show c₁.sp 0x13#32 = _
    rw [hsp, h.sp]
  · show c₁.lr 0x13#32 = _
    rw [hlr, h.lr]

/-! ## Through the table -/

/-- The first two sections of RAM are mapped twice. -/
theorem bootEntry_ident {b : Board} (hb : b = qemu ∨ b = bbb) :
    ∀ j < 2, bootEntry b (b.RAM_BASE.toNat / 0x100000 + j) =
    ((b.RAM_BASE + BitVec.ofNat 32 j <<< 20) &&& 0xFFF00000#32) ||| PDE_KERNEL_MEM := by
  rcases hb with rfl | rfl <;> decide

theorem bootEntry_high {b : Board} (hb : b = qemu ∨ b = bbb) : ∀ j < 2, bootEntry b (0xC00 + j) =
    ((b.RAM_BASE + BitVec.ofNat 32 j <<< 20) &&& 0xFFF00000#32) ||| PDE_KERNEL_MEM := by
  rcases hb with rfl | rfl <;> decide

theorem boot_pgd_pa_aligned (l : KernelLd cfg) : cfg.boot_pgd_pa.toNat % 16384 = 0 := by
  have h1 := l.linked.placed.boot_pgd_toNat
  have h2 := l.linked.placed.boot_aligned
  have h3 := l.linked.placed.ram_aligned
  have h4 := l.linked.placed.boot_lo
  omega

theorem Live.translate_section {m : Mem} {c : Cpu} (h : t.Live m c) {base : Nat}
    (hent : ∀ j < 2, bootEntry cfg.board (base + j) =
      ((cfg.board.RAM_BASE + BitVec.ofNat 32 j <<< 20) &&& 0xFFF00000#32) ||| PDE_KERNEL_MEM) {va : Word}
    (hlo : base * 0x100000 ≤ va.toNat) (hhi : va.toNat < base * 0x100000 + 0x200000) (a : Access) :
    ∃ pa, c.translate a va = some pa ∧
      pa.toNat = va.toNat - base * 0x100000 + cfg.board.RAM_BASE.toNat := by
  have h1 := l.linked.placed.ram_aligned
  have h2 := l.linked.placed.ram_lt
  obtain ⟨j, hj, hidx⟩ : ∃ j < 2, va.toNat / 0x100000 = base + j :=
    ⟨va.toNat / 0x100000 - base, by omega, by omega⟩
  have hram :
      (cfg.board.RAM_BASE + BitVec.ofNat 32 j <<< 20).toNat =
        cfg.board.RAM_BASE.toNat + j * 0x100000 := by
    rw [BitVec.toNat_add, BitVec.toNat_shiftLeft, BitVec.toNat_ofNat, Nat.shiftLeft_eq]
    omega
  have hdesc : c.descriptor va =
      ((cfg.board.RAM_BASE + BitVec.ofNat 32 j <<< 20) &&& 0xFFF00000#32) ||| PDE_KERNEL_MEM := by
    obtain ⟨fp, hfp⟩ := h.mem
    unfold Cpu.descriptor walk
    rw [h.tlb, Option.getD_none, h.ttbr0, ttbr0_base (boot_pgd_pa_aligned l), hfp,
      t.initMem_table m fp _ (section_index_lt va), section_index, hidx, hent j hj]
  have hperm : permitted false a (c.descriptor va) = true := by
    rw [hdesc, permitted_section, permitted_kernel]
    rfl
  refine ⟨sectionAddress (c.descriptor va) va, ?_, ?_⟩
  · unfold Cpu.translate
    rw [if_neg (by rw [mmu_on h.sctlr]; decide), if_pos ⟨h.ttbcr, h.dacr, hperm⟩]
  · rw [hdesc, sectionAddress_toNat _ _ _ (by decide), hram]
    omega

/-- At its physical address the kernel sees itself. -/
theorem Live.translate_ident {m : Mem} {c : Cpu} (h : t.Live m c) {va : Word}
    (hlo : 0xC0000000 ≤ va.toNat) (hhi : va.toNat < 0xC0200000) (a : Access) :
    c.translate a (cfg.board.pa va) = some (cfg.board.pa va) := by
  have h1 := l.linked.placed.ram_aligned
  have hpa := l.pa_toNat hlo
  obtain ⟨pa, htr, heq⟩ := h.translate_section t (bootEntry_ident l.board)
    (show _ ≤ (cfg.board.pa va).toNat by omega) (by omega) a
  rw [htr]
  congr 1
  apply BitVec.eq_of_toNat_eq
  omega

theorem Live.translate_high {m : Mem} {c : Cpu} (h : t.Live m c) {va : Word}
    (hlo : 0xC0000000 ≤ va.toNat) (hhi : va.toNat < 0xC0200000) (a : Access) :
    c.translate a va = some (cfg.board.pa va) := by
  have hpa := l.pa_toNat hlo
  obtain ⟨pa, htr, heq⟩ := h.translate_section t (bootEntry_high l.board) hlo hhi a
  rw [htr]
  congr 1
  apply BitVec.eq_of_toNat_eq
  omega

/-- Neither the tables nor what leads to them change any more. -/
theorem step_on {m : Mem} {c c' : Cpu} {i : Instr} {pa : Word}
    (htr : c.translate .execute c.pc = some pa)
    (hf : t.fetch pa = some i) (he : t.exec i c = some c') (h : t.Live m c) (h' : t.Live m c')
    (hmem : c'.mem = c.mem) : t.Det c pa c' := by
  refine ⟨t.step_eq htr hf he, fun _ => ⟨mmu_on h'.sctlr, hmem, h'.ttbr0.trans h.ttbr0.symm⟩,
    fun hoff => ?_⟩
  rw [mmu_on h.sctlr] at hoff
  cases hoff

/-- Code of the kernel, by its address in the image. -/
def InText (_ : Text l) (va : Word) : Prop := l._text_start ≤ va.toNat ∧ va.toNat < l._text_end

theorem InText.bounds {va : Word} (h : t.InText va) : 0xC0000000 ≤ va.toNat ∧ va.toNat < 0xC0200000 := by
  have h1 := l.origin_ge
  have h2 := text_below (l := l)
  unfold InText at h
  omega

theorem enable_text {k : Nat} (hk : k < 23) : t.InText (t.mmu_enable + BitVec.ofNat 32 (4 * k)) := by
  have h1 := t.enable_in
  have h2 := l.vectors
  have h3 := text_below (l := l)
  unfold InText
  rw [ofNat_toNat_add (by omega)]
  omega

theorem init_text {k : Nat} (hk : k < 4) : t.InText (t.mmu_init + BitVec.ofNat 32 (4 * k)) := by
  have h1 := t.init_in
  have h2 := l.vectors
  have h3 := text_below (l := l)
  unfold InText
  rw [ofNat_toNat_add (by omega)]
  omega

theorem start_text {k : Nat} (hk : k < 32) : t.InText (t._start + BitVec.ofNat 32 (4 * k)) := by
  have h1 := t.start_room
  have h2 := l.vectors
  have h3 := text_below (l := l)
  have h4 := t.start_toNat
  unfold InText
  rw [ofNat_toNat_add (by omega)]
  omega

theorem kmain_text : t.InText t.kmain := by
  have h1 := t.kmain_in
  have h2 := l.vectors
  unfold InText
  omega

/-- The same, where the code still runs at its physical address. -/
theorem step_ident {m : Mem} {c c' : Cpu} {i : Instr} {va : Word} (hpc : c.pc = cfg.board.pa va)
    (hva : t.InText va)
    (hf : t.fetch (cfg.board.pa va) = some i) (he : t.exec i c = some c') (h : t.Live m c)
    (h' : t.Live m c') (hmem : c'.mem = c.mem) : t.Det c (cfg.board.pa va) c' := by
  refine t.step_on ?_ hf he h h' hmem
  rw [hpc]
  exact h.translate_ident t hva.bounds.1 hva.bounds.2 _

/-- And where it runs at its virtual one. -/
theorem step_high {m : Mem} {c c' : Cpu} {i : Instr} (hva : t.InText c.pc)
    (hf : t.fetch (cfg.board.pa c.pc) = some i) (he : t.exec i c = some c') (h : t.Live m c)
    (h' : t.Live m c') (hmem : c'.mem = c.mem) : t.Det c (cfg.board.pa c.pc) c' :=
  t.step_on (h.translate_high t hva.bounds.1 hva.bounds.2 _) hf he h h' hmem

/-- Back in `mmu_init`. -/
structure AtReturn (m : Mem) (c : Cpu) : Prop extends t.Live m c where
  pc : c.pc = cfg.board.pa (t.mmu_init + BitVec.ofNat 32 (4 * 3))
  mode : c.mode = 0x13#32
  sp : c.sp 0x13#32 = t.bootSp - 8#32

theorem enable_return {m : Mem} {c : Cpu} (h : t.AtOn m c) :
    ∃ tr c', tr.length = 2 ∧ Lib.Run t.Det c tr c' ∧ t.AtReturn m c' := by
  have hpc : c.pc = cfg.board.pa (t.mmu_enable + BitVec.ofNat 32 (4 * 21)) :=
    h.pc.trans (pa_add _ _ _).symm
  have hpc' : c.next.pc = cfg.board.pa (t.mmu_enable + BitVec.ofNat 32 (4 * 22)) :=
    (next_pc h.pc).trans (pa_add _ _ _).symm
  have hlive : t.Live m c.next := ⟨h.sctlr, h.tlb, h.ttbr0, h.ttbcr, h.dacr, h.masked, h.mem⟩
  have hlive' : t.Live m { c.next with pc := c.lr c.mode } :=
    ⟨h.sctlr, h.tlb, h.ttbr0, h.ttbcr, h.dacr, h.masked, h.mem⟩
  have hf₀ := t.fetch_at t.enable_code (j := .isb) (pa_add _ _ _) (show 21 < 23 by decide) rfl
  have hf₁ := t.fetch_at t.enable_code (j := .bx_lr) (pa_add _ _ _) (show 22 < 23 by decide) rfl
  have hs₀ := t.step_ident hpc (t.enable_text (by decide)) hf₀ rfl h.toLive hlive rfl
  have hs₁ := t.step_ident hpc' (t.enable_text (by decide)) hf₁ rfl hlive hlive' rfl
  refine ⟨_, _, rfl, .cons hs₀ (.single hs₁), hlive', ?_, h.mode, h.sp⟩
  show c.lr c.mode = _
  rw [h.mode, h.lr, pa_add]

/-- Behind the trampoline. -/
structure AtVa (m : Mem) (c : Cpu) : Prop extends t.Live m c where
  pc : c.pc = t.addr 19

/-- The frame of `mmu_init` is where it was. -/
theorem translate_frame {m : Mem} {c : Cpu} (h : t.Live m c) {n : Nat} (hn : n = 4 ∨ n = 8)
    (a : Access) :
    c.translate a (t.bootSp - BitVec.ofNat 32 n) = some (t.bootSp - BitVec.ofNat 32 n) := by
  have h1 := bss_bounds (l := l)
  have h2 := l.bss_order
  have h3 := l.stack_after
  have h4 := l.fits
  have htop := l.svc_top
  have hva : (BitVec.ofNat 32 l._svc_stack_top - BitVec.ofNat 32 n).toNat = l._svc_stack_top - n := by
    rw [BitVec.toNat_sub, BitVec.toNat_ofNat, BitVec.toNat_ofNat]
    omega
  have hpa :
      t.bootSp - BitVec.ofNat 32 n =
        cfg.board.pa (BitVec.ofNat 32 l._svc_stack_top - BitVec.ofNat 32 n) := by
    rw [BitVec.sub_eq_add_neg, BitVec.sub_eq_add_neg, pa_add]
    rfl
  rw [hpa]
  exact h.translate_ident t (by omega) (by omega) a

theorem exec_pop {m : Mem} {c : Cpu} (h : t.AtReturn m c) :
    t.exec .pop_fp_pc c =
      some
        { (c.setR 11 (c.mem.ldr (t.bootSp - 8#32))).setSp (c.sp c.mode + 8#32) with pc := t.ret } := by
  have hup : t.bootSp - 8#32 + 4#32 = t.bootSp - 4#32 := by
    rw [BitVec.sub_eq_add_neg, BitVec.sub_eq_add_neg, BitVec.add_assoc]
    rfl
  have hret : c.mem.ldr (t.bootSp - 4#32) = t.ret := by
    obtain ⟨fp, hfp⟩ := h.mem
    rw [hfp, initMem_ret]
  have htr : c.translate .read (c.sp c.mode) = some (t.bootSp - 8#32) := by
    rw [h.mode, h.sp]
    exact t.translate_frame h.toLive (n := 8) (Or.inr rfl) _
  have htr' : c.translate .read (c.sp c.mode + 4#32) = some (t.bootSp - 4#32) := by
    rw [h.mode, h.sp, hup]
    exact t.translate_frame h.toLive (n := 4) (Or.inl rfl) _
  rw [← hret]
  simp only [exec, htr, htr']
  rfl

theorem trampoline {m : Mem} {c : Cpu} (h : t.AtReturn m c) :
    ∃ tr c', tr.length = 2 ∧ Lib.Run t.Det c tr c' ∧ t.AtVa m c' := by
  have hf₀ := t.fetch_at t.init_code (j := .pop_fp_pc) (pa_add _ _ _) (show 3 < 4 by decide) rfl
  let c₁ : Cpu :=
    { (c.setR 11 (c.mem.ldr (t.bootSp - 8#32))).setSp (c.sp c.mode + 8#32) with pc := t.ret }
  have hlive : t.Live m c₁ := ⟨h.sctlr, h.tlb, h.ttbr0, h.ttbcr, h.dacr, h.masked, h.mem⟩
  have hs₀ := t.step_ident h.pc (t.init_text (by decide)) hf₀ (t.exec_pop h) h.toLive hlive rfl
  have hpc₁ : c₁.pc = cfg.board.pa (t._start + BitVec.ofNat 32 (4 * 18)) := (pa_add _ _ _).symm
  have hf₁ :=
    t.fetch_at t.start_code (j := .ldr_pc (t.addr 19)) (pa_add _ _ _) (show 18 < 32 by decide) rfl
  have hlive' : t.Live m { c₁ with pc := t.addr 19 } :=
    ⟨h.sctlr, h.tlb, h.ttbr0, h.ttbcr, h.dacr, h.masked, h.mem⟩
  have hs₁ := t.step_ident hpc₁ (t.start_text (by decide)) hf₁ rfl hlive hlive' rfl
  exact ⟨_, _, rfl, .cons hs₀ (.single hs₁), hlive', rfl⟩

/-! ## Up to kmain -/

theorem exec_quiet {i : Instr} {c c' : Cpu} (hi : Quiet i = true) (h : t.exec i c = some c') :
    c'.pc = c.pc + 4#32 ∧ c'.mem = c.mem ∧ ∀ m, t.Live m c → t.Live m c' := by
  cases i with
  | cps | ldr_sp | isb =>
    cases h
    exact ⟨rfl, rfl, fun _ hl => ⟨hl.sctlr, hl.tlb, hl.ttbr0, hl.ttbcr, hl.dacr, hl.masked, hl.mem⟩⟩
  | _ => cases hi

theorem run_high {is : List Instr} {m : Mem} {c c' : Cpu} (h : t.Live m c)
    (hcode : ∀ k < is.length, t.fetch (cfg.board.pa (c.pc + BitVec.ofNat 32 (4 * k))) = is[k]?)
    (htext : ∀ k < is.length, t.InText (c.pc + BitVec.ofNat 32 (4 * k)))
    (hq : ∀ i ∈ is, Quiet i = true) (he : t.execAll is c = some c') :
    (∃ tr, tr.length = is.length ∧ Lib.Run t.Det c tr c') ∧ t.Live m c' ∧
      c'.pc = c.pc + BitVec.ofNat 32 (4 * is.length) := by
  induction is generalizing c with
  | nil =>
    cases he
    exact ⟨⟨[], rfl, .refl⟩, h, (BitVec.add_zero _).symm⟩
  | cons i is ih =>
    obtain ⟨c₁, he₁, he'⟩ := Option.bind_eq_some_iff.mp he
    obtain ⟨hpc, hmem, hlive⟩ := t.exec_quiet (hq i (by simp)) he₁
    have hfetch : t.fetch (cfg.board.pa c.pc) = some i := by
      have h0 := hcode 0 (by simp)
      rwa [Nat.mul_zero, BitVec.add_zero] at h0
    have hin : t.InText c.pc := by
      have h0 := htext 0 (by simp)
      rwa [Nat.mul_zero, BitVec.add_zero] at h0
    have hshift : ∀ k, c₁.pc + BitVec.ofNat 32 (4 * k) = c.pc + BitVec.ofNat 32 (4 * (k + 1)) := by
      intro k
      rw [hpc, BitVec.add_assoc, ← BitVec.ofNat_add, Nat.mul_add, Nat.mul_one, Nat.add_comm]
    obtain ⟨⟨tr, hlen, hrun⟩, hl, hend⟩ := ih (hlive m h)
      (fun k hk => by rw [hshift, hcode (k + 1) (by simpa using hk), List.getElem?_cons_succ])
      (fun k hk => by rw [hshift]; exact htext (k + 1) (by simpa using hk))
        (fun j hj => hq j (by simp [hj])) he'
    refine ⟨⟨_, ?_, .cons (t.step_high hin hfetch he₁ h (hlive m h) hmem) hrun⟩, hl, ?_⟩
    · rw [List.length_cons, hlen, List.length_cons]
    · rw [hend, hshift, List.length_cons]

/-- CPSR.M of the modes that have a stack. -/
def stackTops (_ : Text l) : List (Word × Nat) :=
  [(0x11#32, l._fiq_stack_top), (0x12#32, l._irq_stack_top), (0x17#32, l._abt_stack_top),
    (0x1B#32, l._und_stack_top), (0x13#32, l._svc_stack_top)]

theorem stacks_exec (c : Cpu) :
    ∃ c', t.execAll ((t.startS.drop 19).take 10) c = some c' ∧ c'.mode = 0x13#32 ∧
      ∀ p ∈ t.stackTops, c'.sp p.1 = BitVec.ofNat 32 p.2 := by
  refine ⟨_, rfl, rfl, ?_⟩
  intro p hp
  simp only [stackTops, List.mem_cons, List.not_mem_nil, or_false] at hp
  rcases hp with rfl | rfl | rfl | rfl | rfl <;> rfl

/-- What `kmain` can count on. -/
structure AtKmain (m : Mem) (c : Cpu) : Prop where
  pc : c.pc = t.kmain
  mode : c.mode = 0x13#32
  masked : c.masked = true
  sp : ∀ p ∈ t.stackTops, c.sp p.1 = BitVec.ofNat 32 p.2
  sctlr : c.sctlr &&& 0x1805#32 = 0x1805#32
  ttbr0 : c.ttbr0 = cfg.boot_pgd_pa ||| 0x4A#32
  ttbcr : c.ttbcr = 0#32
  dacr : c.dacr = 1#32
  tlb : ∀ i x, c.tlb i = some x → x = walk c.mem c.ttbr0 i
  table : Holds c.mem cfg.boot_pgd_pa (bootEntry cfg.board)
  bss : ∀ j, t.Bss j → ¬ InTable cfg.boot_pgd_pa j → c.mem j = 0#32
  same : ∀ j, ¬ t.Bss j → ¬ t.SvcStack j → c.mem j = m j

/-- Without the walker. -/
structure Arrived (m : Mem) (c : Cpu) : Prop extends t.Live m c where
  pc : c.pc = t.kmain
  mode : c.mode = 0x13#32
  sp : ∀ p ∈ t.stackTops, c.sp p.1 = BitVec.ofNat 32 p.2

theorem call_kmain {m : Mem} {c : Cpu} (h : t.AtVa m c) :
    ∃ tr c', tr.length = 11 ∧ Lib.Run t.Det c tr c' ∧ t.Arrived m c' := by
  obtain ⟨c₁, he, hmode, hsp⟩ := t.stacks_exec c
  have hshift : ∀ k, c.pc + BitVec.ofNat 32 (4 * k) = t._start + BitVec.ofNat 32 (4 * (19 + k)) := by
    intro k
    rw [h.pc, addr, BitVec.add_assoc, ← BitVec.ofNat_add, ← Nat.mul_add]
  obtain ⟨⟨tr, hlen, hrun⟩, hl, hpc⟩ := t.run_high h.toLive (by
      intro k hk
      have hk' : k < 10 := hk
      rw [hshift, pa_add, t.start_code (19 + k) (show 19 + k < 32 by omega),
        List.getElem?_take, if_pos hk', List.getElem?_drop])
    (fun k hk => by
      have hk' : k < 10 := hk
      rw [hshift]
      exact t.start_text (by omega)) (by simp [startS, Quiet]) he
  have hpc' : c₁.pc = t.addr 29 := hpc.trans (hshift 10)
  have hf : t.fetch (cfg.board.pa c₁.pc) = some (.bl (t.kmain - t.addr 29)) := by
    rw [hpc', addr, pa_add, t.start_code 29 (show 29 < 32 by decide)]
    rfl
  have hlive : t.Live m { c₁.setLr (c₁.pc + 4#32) with pc := c₁.pc + (t.kmain - t.addr 29) } :=
    ⟨hl.sctlr, hl.tlb, hl.ttbr0, hl.ttbcr, hl.dacr, hl.masked, hl.mem⟩
  have hin : t.InText c₁.pc := by
    rw [hpc']
    exact t.start_text (by decide)
  refine ⟨_, _, ?_, hrun.snoc (t.step_high hin hf rfl hl hlive rfl), hlive, ?_, hmode, hsp⟩
  · rw [List.length_append, hlen]
    rfl
  · show c₁.pc + (t.kmain - t.addr 29) = _
    rw [hpc', BitVec.add_comm, BitVec.sub_add_cancel]

/-- The steps of `exec` up to `kmain`. Each is one instruction, but for `build`, which is all of the
compiled `mmu_build_boot_pgd`. -/
def bootSteps : Nat := 57 + 3 * t.bssWords

theorem entry_pa : cfg.board.pa t._start = cfg.board.KERNEL_PHYS_BASE := by
  have hstart : t._start = cfg.board.KERNEL_PHYS_BASE + cfg.board.PHYS_OFFSET := by
    apply BitVec.eq_of_toNat_eq
    rw [t.start_toNat, l.text]
    rfl
  unfold Board.pa
  rw [hstart, BitVec.add_sub_cancel]

theorem boot_run {c : Cpu} (hpc : c.pc = cfg.board.KERNEL_PHYS_BASE) (hoff : c.mmu = false) :
    ∃ tr c', tr.length = t.bootSteps ∧ Lib.Run t.Det c tr c' ∧ t.Arrived c.mem c' := by
  obtain ⟨tr₀, c₀, hn₀, hr₀, h₀⟩ := t.reset_run (hpc.trans t.entry_pa.symm) hoff
  obtain ⟨tr₁, c₁, hn₁, hr₁, h₁⟩ := t.zero_bss h₀ (Nat.le_refl _)
  obtain ⟨tr₂, c₂, hn₂, hr₂, h₂⟩ := t.zero_done h₁
  obtain ⟨tr₃, c₃, hn₃, hr₃, h₃⟩ := t.call_init h₂
  obtain ⟨tr₄, c₄, hn₄, hr₄, h₄⟩ := t.call_enable h₃
  obtain ⟨tr₅, c₅, hn₅, hr₅, h₅⟩ := t.enable_run h₄
  obtain ⟨tr₆, c₆, hn₆, hr₆, h₆⟩ := t.enable_return h₅
  obtain ⟨tr₇, c₇, hn₇, hr₇, h₇⟩ := t.trampoline h₆
  obtain ⟨tr₈, c₈, hn₈, hr₈, h₈⟩ := t.call_kmain h₇
  have hrun := hr₀.trans (hr₁.trans (hr₂.trans (hr₃.trans (hr₄.trans (hr₅.trans (hr₆.trans
    (hr₇.trans hr₈)))))))
  refine ⟨_, c₈, ?_, hrun, h₈⟩
  unfold bootSteps
  simp only [List.length_append]
  omega

theorem Arrived.stops {m : Mem} {c : Cpu} (h : t.Arrived m c) : t.step c = none := by
  have hin := t.kmain_text
  unfold step
  rw [h.pc, h.toLive.translate_high t hin.bounds.1 hin.bounds.2, Option.bind_eq_bind,
    Option.bind_some, t.kmain_no_code]
  rfl

/-- Whatever the TLB holds by then is in the table. -/
theorem Arrived.atKmain {m : Mem} {c d : Cpu} (h : t.Arrived m d) (htr : Tracks c d) :
    t.AtKmain m c := by
  obtain ⟨fp, hfp⟩ := h.mem
  have hwalk := (htr.on (mmu_on h.sctlr)).2
  have hl := htr.like
  have hmem : c.mem = t.initMem m fp := by rw [hl, ← hfp]
  refine ⟨by rw [hl]; exact h.pc, by rw [hl]; exact h.mode, by rw [hl]; exact h.masked,
    by rw [hl]; exact h.sp,
    by rw [hl]; exact h.sctlr, by rw [hl]; exact h.ttbr0, by rw [hl]; exact h.ttbcr, by
      rw [hl]; exact h.dacr, ?_,
    by rw [hmem]; exact t.initMem_table m fp, ?_, ?_⟩
  · intro i x hx
    rw [hl]
    exact hwalk i x hx
  · intro j hb ht
    rw [hmem, t.initMem_else m fp ht (t.bss_not_stack hb)]
    exact if_pos hb
  · intro j hb hs
    rw [hmem, t.initMem_else m fp (fun ht => hb (t.table_bss ht)) hs]
    exact if_neg hb

/-- From reset, with anything in the registers, in RAM and in the TLB, and whatever the table walker
does: no step aborts, and the run comes to the call of `kmain`. -/
theorem reset_reaches_kmain {c : Cpu} (hpc : c.pc = cfg.board.KERNEL_PHYS_BASE) (hoff : c.mmu = false)
    {tr : List Word} {c' : Cpu} (hr : Lib.Run t.Step c tr c') :
    tr.length ≤ t.bootSteps ∧
      (tr.length < t.bootSteps → ∀ c₁, Refill c' c₁ → ∃ pa c₂, t.step c₁ = some (pa, c₂)) ∧
      (tr.length = t.bootSteps → t.AtKmain c.mem c') := by
  obtain ⟨full, e, hlen, hdet, he⟩ := t.boot_run hpc hoff
  obtain ⟨d, rest, hfull, hrest, htr⟩ := t.tracks_run hdet (he.stops t) (.start hoff) hr
  have hsum : tr.length + rest.length = t.bootSteps := by rw [← hlen, hfull, List.length_append]
  refine ⟨by omega, ?_, ?_⟩
  · intro hlt c₁ hrefill
    cases rest with
    | nil =>
      rw [List.length_nil] at hsum
      omega
    | cons pa rest =>
      obtain ⟨d₂, hd₂, -⟩ := hrest.uncons
      obtain ⟨c₂, hc₂, -⟩ := t.tracks_step (htr.refill hrefill) hd₂.1 hd₂.2
      exact ⟨pa, c₂, hc₂⟩
  · intro heq
    have hnil : rest = [] := List.length_eq_zero_iff.mp (by omega)
    subst hnil
    rw [hrest.of_nil] at htr
    exact he.atKmain t htr

end Text

def onesText : Text onesLd where
  mmu_init := 0xC0100800#32
  mmu_enable := 0xC0100900#32
  kmain := 0xC0100A00#32
  junk := fun _ => 0xDEADBEEF#32
  junkStack := fun _ => 0xDEADBEEF#32
  start_room := by decide
  init_in := by decide
  enable_in := by decide
  kmain_in := by decide
  init_enable := Or.inl (by decide)
  init_kmain := Or.inl (by decide)
  enable_kmain := Or.inl (by decide)

def onesReset : Cpu where
  r := fun _ => 0xDEADBEEF#32
  sp := fun _ => 0#32
  lr := fun _ => 0#32
  pc := 0x70100000#32
  mode := 0x1F#32
  masked := false
  carry := false
  sctlr := 0xC50078#32
  ttbr0 := 0#32
  ttbcr := 0#32
  dacr := 0#32
  tlb := fun _ => some 0xDEADBEEF#32
  mem := fun _ => 0x01010101#32

theorem reset_reaches_kmain_ones :
    ∃ tr c, Lib.Run onesText.Step onesReset tr c ∧ tr.length = onesText.bootSteps ∧
    onesText.AtKmain onesReset.mem c := by
  obtain ⟨tr, c, hlen, hdet, -⟩ := onesText.boot_run (c := onesReset) (by decide) (by decide)
  have hrun := hdet.mono fun _ _ _ h => h.step
  exact ⟨tr, c, hrun, hlen, (onesText.reset_reaches_kmain (by decide) (by decide) hrun).2.2 hlen⟩

end CortexAOS.Boot
