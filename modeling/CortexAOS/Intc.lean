import CortexAOS.Transmit
import CortexAOS.Gic
import CortexAOS.Lib.Bits

/-!
# Which lines can interrupt

`irq_init` and the calls of `irq_enable` in `kmain`, for the interrupt controller of each board,
whatever the boot loader has left in it.
-/

namespace CortexAOS.Drivers

open Lib Lib.Mmio Gic

/-! ## Banks of 32 lines -/

abbrev Banks := Nat → Word

namespace Banks

/-- The bit of line `n`. -/
def line (f : Banks) (n : Nat) : Bool := (f (n / 32)).getLsbD (n % 32)

/-- A write to a set register, and one to a clear register. -/
def set (f : Banks) (b : Nat) (v : Word) : Banks := Function.update f b (f b ||| v)

def clear (f : Banks) (b : Nat) (v : Word) : Banks := Function.update f b (f b &&& ~~~v)

theorem one_bit (n i : Nat) (hi : i < 32) : (1#32 <<< n).getLsbD i = decide (i = n) := by
  rw [BitVec.getLsbD_shiftLeft, BitVec.getLsbD_one]
  by_cases h : i < n
  · simp [h, Nat.ne_of_lt h]
  · simp only [hi, decide_true, Bool.true_and, h, decide_false, Bool.not_false, Nat.zero_lt_succ,
      decide_eq_decide]
    omega

theorem line_set (f : Banks) (irq n : Nat) :
    (f.set (irq / 32) (1#32 <<< (irq % 32))).line n = (f.line n || decide (n = irq)) := by
  unfold line set
  by_cases hb : n / 32 = irq / 32
  · rw [hb, Function.update_self, BitVec.getLsbD_or, one_bit _ _ (Nat.mod_lt _ (by decide))]
    congr 1
    rw [decide_eq_decide]
    omega
  · have hne : n ≠ irq := by rintro rfl; exact hb rfl
    rw [Function.update_of_ne hb, decide_eq_false hne, Bool.or_false]

theorem line_clear (f : Banks) (irq n : Nat) :
    (f.clear (irq / 32) (1#32 <<< (irq % 32))).line n = (f.line n && !decide (n = irq)) := by
  unfold line clear
  have hn : n % 32 < 32 := Nat.mod_lt _ (by decide)
  by_cases hb : n / 32 = irq / 32
  · rw [hb, Function.update_self, BitVec.getLsbD_and, BitVec.getLsbD_not, one_bit _ _ hn,
      decide_eq_true hn, Bool.true_and]
    congr 2
    rw [decide_eq_decide]
    omega
  · have hne : n ≠ irq := by rintro rfl; exact hb rfl
    rw [Function.update_of_ne hb, decide_eq_false hne, Bool.not_false, Bool.and_true]

end Banks

/-- `irq >> 5`, `irq / 32` and `irq & 0x1F` -/
theorem bank_toNat (irq : Word) :
    (irq >>> 5).toNat = irq.toNat / 32 ∧ (irq / 32#32).toNat = irq.toNat / 32 ∧
    (irq &&& 0x1F#32).toNat = irq.toNat % 32 := by
  refine ⟨?_, ?_, ?_⟩
  · rw [BitVec.toNat_ushiftRight, Nat.shiftRight_eq_div_pow]
  · rw [BitVec.toNat_udiv]
    rfl
  · exact Lib.Bits.toNat_low (n := 5) (by decide) irq

/-- The register `n` of an array. -/
theorem reg_toNat {a s n : Word} (h : a.toNat + n.toNat * s.toNat < 2 ^ 32) :
    (a + n * s).toNat = a.toNat + n.toNat * s.toNat := by
  rw [BitVec.toNat_add, BitVec.toNat_mul, Nat.add_mod_mod, Nat.mod_eq_of_lt h]

theorem ne_of_toNat {x y : Word} (h : x.toNat ≠ y.toNat) : x ≠ y := fun he => h (congrArg _ he)

theorem update_const {f : Nat → Word} {w : Word} {i j : Nat} (h : j ≠ i → f j = w) :
    Function.update f i w j = w := by
  by_cases he : j = i
  · rw [he, Function.update_self]
  · rw [Function.update_of_ne he, h he]

theorem mem_of_snoc {l : List Nat} {i j : Nat} (h : j ∈ l ++ [i]) (hne : j ≠ i) : j ∈ l := by
  rcases List.mem_append.mp h with h | h
  · exact h
  · exact absurd (List.mem_singleton.mp h) hne

/-! ## drivers/intc.h and intc_core.c -/

/-- `REG32(a)`, or a byte at `a`. -/
inductive Port where
  | word (a : Word)
  | byte (a : Word)

abbrev IrqDriver (α : Type) : Type := Mmio Port Word α

structure intc_device where
  base : Word
  cpu_base : Word
  dist_base : Word

structure intc_ops where
  init : intc_device → IrqDriver Unit
  enable_line : intc_device → Word → IrqDriver Unit
  disable_line : intc_device → Word → IrqDriver Unit
  get_active : intc_device → IrqDriver Word
  eoi : intc_device → Word → IrqDriver Unit

def irq_enable (ops : intc_ops) (active_intc : intc_device) (irq : Word) : IrqDriver Unit :=
  if irq.toNat < MAX_IRQS then ops.enable_line active_intc irq else pure ()

/-- The calls of `kmain` that concern the controller, with the table that they leave. -/
def kmain_irqs (ops : intc_ops) (active_intc : intc_device) (timer uart : Word) :
    IrqDriver IrqTable := do
  ops.init active_intc
  irq_enable ops active_intc timer
  irq_enable ops active_intc uart
  pure (irq_register (irq_register (fun _ => none) timer .timer_irq) uart .uart_rx_irq)

section

variable {σ : Type} {D : Device σ Port Word} {G : σ → Port → Word → Prop} {P : σ → Prop} {ops : intc_ops}
  {active_intc : intc_device}

/-- A controller that comes up with no line on, and turns on one line at a time. -/
theorem kmain_irqs_triple (Lines : (Nat → Prop) → σ → Prop) (hstable : ∀ on, Stable D (Lines on))
    (hinit : Triple D P G (ops.init active_intc) fun _ => Lines fun _ => False)
    (henable : ∀ irq : Word, irq.toNat < MAX_IRQS → ∀ on,
      Triple D (Lines on) G (ops.enable_line active_intc irq) fun _ =>
        Lines fun m => on m ∨ m = irq.toNat)
    {timer uart : Word} (ht : timer.toNat < MAX_IRQS) (hu : uart.toNat < MAX_IRQS) :
    Triple D P G (kmain_irqs ops active_intc timer uart) fun table d =>
      table = irq_register (irq_register (fun _ => none) timer .timer_irq) uart .uart_rx_irq ∧
        Lines (fun m => m = timer.toNat ∨ m = uart.toNat) d := by
  have h1 := henable timer ht fun _ => False
  have h2 := henable uart hu fun m => m = timer.toNat
  simp only [false_or] at h1
  unfold kmain_irqs irq_enable
  rw [if_pos ht, if_pos hu]
  exact hinit.seq (h1.seq (h2.seq (.ret (hstable _) fun d hd => ⟨rfl, hd⟩)))

end

/-! ## am335x_intc.c -/

def INTC_SYSCONFIG : Word := 0x010#32
def INTC_SYSSTATUS : Word := 0x014#32
def INTC_SIR_IRQ : Word := 0x040#32
def INTC_CONTROL : Word := 0x048#32
def INTC_THRESHOLD : Word := 0x068#32
def INTC_MIR_CLEAR (n : Word) : Word := 0x088#32 + n * 0x20#32
def INTC_MIR_SET (n : Word) : Word := 0x08C#32 + n * 0x20#32
def INTC_ILR (m : Word) : Word := 0x100#32 + m * 0x04#32

def INTC_SYSCONFIG_SOFTRESET : Word := 1#32 <<< 1
def INTC_SYSSTATUS_RESETDONE : Word := 1#32 <<< 0
def INTC_CONTROL_NEWIRQAGR : Word := 1#32 <<< 0
def INTC_SIR_SPURIOUS_MASK : Word := 0xFFFFFF80#32

/-- `for (i = 0; i < n; i++)` over words. -/
def forWords (n : Nat) (body : Word → IrqDriver Unit) : IrqDriver Unit :=
  (List.range n).forM fun i => body (BitVec.ofNat 32 i)

def am335x_intc_init (dev : intc_device) : IrqDriver Unit := do
  store (.word (dev.base + INTC_SYSCONFIG)) INTC_SYSCONFIG_SOFTRESET
  await (.word (dev.base + INTC_SYSSTATUS)) fun v => v &&& INTC_SYSSTATUS_RESETDONE != 0#32
  forWords 4 fun b => store (.word (dev.base + INTC_MIR_SET b)) 0xFFFFFFFF#32
  store (.word (dev.base + INTC_THRESHOLD)) 0xFF#32
  forWords MAX_IRQS fun m => store (.word (dev.base + INTC_ILR m)) 0#32
  store (.word (dev.base + INTC_CONTROL)) INTC_CONTROL_NEWIRQAGR

def am335x_intc_enable_line (dev : intc_device) (irq : Word) : IrqDriver Unit :=
  store (.word (dev.base + INTC_MIR_CLEAR (irq >>> 5))) (1#32 <<< (irq &&& 0x1F#32))

def am335x_intc_disable_line (dev : intc_device) (irq : Word) : IrqDriver Unit :=
  store (.word (dev.base + INTC_MIR_SET (irq >>> 5))) (1#32 <<< (irq &&& 0x1F#32))

/-- The line in SIR_IRQ, or `MAX_IRQS`. -/
def activeLine (sir : Word) : Word :=
  if sir &&& INTC_SIR_SPURIOUS_MASK ≠ 0#32 then BitVec.ofNat 32 MAX_IRQS else sir &&& 0x7F#32

def am335x_intc_get_active (dev : intc_device) : IrqDriver Word := do
  let sir ← load (.word (dev.base + INTC_SIR_IRQ))
  pure (activeLine sir)

def am335x_intc_eoi (dev : intc_device) (_irq : Word) : IrqDriver Unit :=
  store (.word (dev.base + INTC_CONTROL)) INTC_CONTROL_NEWIRQAGR

def am335x_intc_ops : intc_ops where
  init := am335x_intc_init
  enable_line := am335x_intc_enable_line
  disable_line := am335x_intc_disable_line
  get_active := am335x_intc_get_active
  eoi := am335x_intc_eoi

def bbb_intc : intc_device := ⟨0x48200000#32, 0#32, 0#32⟩

/-! ### The controller -/

structure IntcRegs where
  mir : Banks
  ilr : Nat → Word
  threshold : Word

namespace IntcRegs

def write (r : IntcRegs) (off v : Word) : IntcRegs :=
  let n := off.toNat
  if off = INTC_THRESHOLD then { r with threshold := v }
  else if 0x100 ≤ n ∧ n < 0x300 then { r with ilr := Function.update r.ilr ((n - 0x100) / 4) v }
  else if 0x80 ≤ n ∧ n < 0x100 then
    if n % 0x20 = 0x08 then { r with mir := r.mir.clear ((n - 0x80) / 0x20) v }
    else if n % 0x20 = 0x0C then { r with mir := r.mir.set ((n - 0x80) / 0x20) v }
    else r
  else r

theorem mir_clear_toNat {b : Word} (h : b.toNat < 4) :
    (INTC_MIR_CLEAR b).toNat = 0x88 + b.toNat * 0x20 :=
  reg_toNat (a := 0x088#32) (s := 0x20#32) (show 0x88 + b.toNat * 0x20 < 2 ^ 32 by omega)

theorem mir_set_toNat {b : Word} (h : b.toNat < 4) : (INTC_MIR_SET b).toNat = 0x8C + b.toNat * 0x20 :=
  reg_toNat (a := 0x08C#32) (s := 0x20#32) (show 0x8C + b.toNat * 0x20 < 2 ^ 32 by omega)

theorem ilr_toNat {m : Word} (h : m.toNat < 128) : (INTC_ILR m).toNat = 0x100 + m.toNat * 4 :=
  reg_toNat (a := 0x100#32) (s := 0x04#32) (show 0x100 + m.toNat * 4 < 2 ^ 32 by omega)

theorem write_clear (r : IntcRegs) {b : Word} (h : b.toNat < 4) (v : Word) :
    r.write (INTC_MIR_CLEAR b) v = { r with mir := r.mir.clear b.toNat v } := by
  have hn := mir_clear_toNat h
  have ht : INTC_THRESHOLD.toNat = 0x68 := rfl
  unfold write
  dsimp only
  rw [if_neg (ne_of_toNat (by omega)), if_neg (by omega), if_pos (by omega), if_pos (by omega)]
  congr 2
  omega

theorem write_set (r : IntcRegs) {b : Word} (h : b.toNat < 4) (v : Word) :
    r.write (INTC_MIR_SET b) v = { r with mir := r.mir.set b.toNat v } := by
  have hn := mir_set_toNat h
  have ht : INTC_THRESHOLD.toNat = 0x68 := rfl
  unfold write
  dsimp only
  rw [if_neg (ne_of_toNat (by omega)), if_neg (by omega), if_pos (by omega), if_neg (by omega),
    if_pos (by omega)]
  congr 2
  omega

theorem write_ilr (r : IntcRegs) {m : Word} (h : m.toNat < 128) (v : Word) :
    r.write (INTC_ILR m) v = { r with ilr := Function.update r.ilr m.toNat v } := by
  have hn := ilr_toNat h
  have ht : INTC_THRESHOLD.toNat = 0x68 := rfl
  unfold write
  dsimp only
  rw [if_neg (ne_of_toNat (by omega)), if_pos (by omega)]
  congr 2
  omega

end IntcRegs

/-- `done` is RESETDONE, and `sir` what SIR_IRQ shows. -/
structure Intc where
  regs : IntcRegs
  done : Bool
  sir : Word

/-- A soft reset leaves the registers as `reset`, after a while. -/
structure IntcPart where
  dev : intc_device
  reset : IntcRegs

namespace IntcPart

inductive Own : Intc → Intc → Prop
  | done {d : Intc} : Own d { d with done := true }
  | sir {d : Intc} (w : Word) : Own d { d with sir := w }

variable (p : IntcPart)

def device : Device Intc Port Word where
  read d
    | .word a =>
      if a - p.dev.base = INTC_SYSSTATUS then if d.done then INTC_SYSSTATUS_RESETDONE else 0#32
      else if a - p.dev.base = INTC_SIR_IRQ then d.sir
      else 0#32
    | .byte _ => 0#32
  after d _ := d
  write d
    | .word a, v =>
      if a - p.dev.base = INTC_SYSCONFIG then
        if v &&& INTC_SYSCONFIG_SOFTRESET ≠ 0#32 then { d with regs := p.reset, done := false } else d
      else { d with regs := d.regs.write (a - p.dev.base) v }
    | .byte _, _ => d
  own := Own

/-- Nothing is set up while the reset goes on. -/
def Allowed (d : Intc) : Port → Word → Prop
  | .word a, _ => a - p.dev.base = INTC_SYSCONFIG ∨ d.done = true
  | .byte _, _ => False

theorem stable_done (C : IntcRegs → Prop) : Stable p.device fun d => d.done = true ∧ C d.regs := by
  rintro d d' (_ | _) ⟨hd, hC⟩
  · exact ⟨rfl, hC⟩
  · exact ⟨hd, hC⟩

theorem store_triple {off v : Word} {C C' : IntcRegs → Prop} (hoff : off ≠ INTC_SYSCONFIG)
    (h : ∀ r, C r → C' (r.write off v)) :
    Triple p.device (fun d => d.done = true ∧ C d.regs) p.Allowed
      (store (.word (p.dev.base + off)) v) fun _ d =>
      d.done = true ∧ C' d.regs := by
  refine .store (p.stable_done C) (fun d hd => Or.inr hd.1) (fun d hd => ?_) (p.stable_done C')
  simp only [device, offset, if_neg hoff]
  exact ⟨hd.1, h _ hd.2⟩

/-- The lines of these banks are masked. -/
def BanksOff (l : List Nat) (r : IntcRegs) : Prop := ∀ b ∈ l, r.mir b = 0xFFFFFFFF#32

/-- All of them are, no priority is held back, and these lines are IRQs of the highest priority. -/
def Quiet (l : List Nat) (r : IntcRegs) : Prop :=
  BanksOff (List.range 4) r ∧ r.threshold = 0xFF#32 ∧ ∀ m ∈ l, r.ilr m = 0#32

theorem reset_triple : Triple p.device (fun _ => True) p.Allowed (do
    store (.word (p.dev.base + INTC_SYSCONFIG)) INTC_SYSCONFIG_SOFTRESET
    await (.word (p.dev.base + INTC_SYSSTATUS)) fun v =>
      v &&& INTC_SYSSTATUS_RESETDONE != 0#32) fun _ d =>
      d.done = true ∧ BanksOff [] d.regs := by
  have htrue : Stable p.device fun _ => True := fun _ _ _ h => h
  refine .seq (.store htrue (fun d _ => Or.inl (offset ..)) (fun _ _ => trivial) htrue)
    (.await htrue (fun _ h _ => h) (fun d _ hread => ?_) (fun d _ => ?_) (p.stable_done _))
  · refine ⟨?_, fun b hb => absurd hb List.not_mem_nil⟩
    rcases hd : d.done with _ | _
    · simp only [device, offset, hd, if_true, Bool.false_eq_true, if_false] at hread
      exact absurd hread (by decide)
    · exact hd
  · refine ⟨{ d with done := true }, .single .done, ?_⟩
    simp only [device, offset, if_true]
    decide

theorem mask_triple (l : List Nat) {b : Nat} (hb : b < 4) :
    Triple p.device (fun d => d.done = true ∧ BanksOff l d.regs) p.Allowed
      (store (.word (p.dev.base + INTC_MIR_SET (BitVec.ofNat 32 b))) 0xFFFFFFFF#32) fun _ d =>
        d.done = true ∧ BanksOff (l ++ [b]) d.regs := by
  have hb32 : (BitVec.ofNat 32 b).toNat = b := by rw [BitVec.toNat_ofNat]; omega
  have hoff := IntcRegs.mir_set_toNat (hb32.symm ▸ hb)
  have hcfg : INTC_SYSCONFIG.toNat = 0x10 := rfl
  refine p.store_triple (ne_of_toNat (by omega)) fun r hr b' hb' => ?_
  rw [IntcRegs.write_set r (hb32.symm ▸ hb), hb32]
  by_cases he : b' = b
  · subst he
    have hones (w : Word) : w ||| 0xFFFFFFFF#32 = 0xFFFFFFFF#32 := BitVec.or_allOnes
    simp only [Banks.set, Function.update_self, hones]
  · simp only [Banks.set, Function.update_of_ne he]
    exact hr b' (mem_of_snoc hb' he)

theorem threshold_triple :
    Triple p.device (fun d => d.done = true ∧ BanksOff (List.range 4) d.regs) p.Allowed
    (store (.word (p.dev.base + INTC_THRESHOLD)) 0xFF#32) fun _ d => d.done = true ∧ Quiet [] d.regs :=
  p.store_triple (by decide) fun _ hr => ⟨hr, rfl, fun m hm => absurd hm List.not_mem_nil⟩

theorem ilr_triple (l : List Nat) {m : Nat} (hm : m < MAX_IRQS) :
    Triple p.device (fun d => d.done = true ∧ Quiet l d.regs) p.Allowed
      (store (.word (p.dev.base + INTC_ILR (BitVec.ofNat 32 m))) 0#32) fun _ d =>
        d.done = true ∧ Quiet (l ++ [m]) d.regs := by
  have hm32 : (BitVec.ofNat 32 m).toNat = m := by
    have : MAX_IRQS = 128 := rfl
    rw [BitVec.toNat_ofNat]
    omega
  have hoff := IntcRegs.ilr_toNat (hm32.symm ▸ hm)
  have hcfg : INTC_SYSCONFIG.toNat = 0x10 := rfl
  refine p.store_triple (ne_of_toNat (by omega)) fun r hr => ?_
  rw [IntcRegs.write_ilr r (hm32.symm ▸ hm), hm32]
  exact ⟨hr.1, hr.2.1, fun m' hm' => update_const fun he => hr.2.2 m' (mem_of_snoc hm' he)⟩

theorem init_triple : Triple p.device (fun _ => True) p.Allowed (am335x_intc_init p.dev) fun _ d =>
    d.done = true ∧ Quiet (List.range MAX_IRQS) d.regs := by
  have hmask :=
    Triple.forM (fun l (d : Intc) => d.done = true ∧ BanksOff l d.regs) (fun l => p.stable_done _)
      (List.range 4)
    [] fun l b hb => p.mask_triple l (List.mem_range.mp hb)
  have hilr :=
    Triple.forM (fun l (d : Intc) => d.done = true ∧ Quiet l d.regs) (fun l => p.stable_done _)
    (List.range MAX_IRQS) [] fun l m hm => p.ilr_triple l (List.mem_range.mp hm)
  have hlast : Triple p.device (fun d => d.done = true ∧ Quiet (List.range MAX_IRQS) d.regs) p.Allowed
      (store (.word (p.dev.base + INTC_CONTROL)) INTC_CONTROL_NEWIRQAGR) fun _ d =>
        d.done = true ∧ Quiet (List.range MAX_IRQS) d.regs := p.store_triple (by decide) fun _ hr => hr
  exact p.reset_triple.seq (hmask.seq (p.threshold_triple.seq (hilr.seq hlast)))

/-- Set up, with exactly the lines of `on` let through. -/
def Open (on : Nat → Prop) (r : IntcRegs) : Prop :=
  r.threshold = 0xFF#32 ∧ ∀ m < MAX_IRQS, r.ilr m = 0#32 ∧ (r.mir.line m = false ↔ on m)

theorem quiet_open {r : IntcRegs} (h : Quiet (List.range MAX_IRQS) r) : Open (fun _ => False) r := by
  refine ⟨h.2.1, fun m hm => ⟨h.2.2 m (List.mem_range.mpr hm), ?_⟩⟩
  have hmax : MAX_IRQS = 128 := rfl
  have hbit : m % 32 < 32 := Nat.mod_lt _ (by decide)
  rw [Banks.line, h.1 (m / 32) (List.mem_range.mpr (by omega)),
    show (0xFFFFFFFF#32 : Word) = BitVec.allOnes 32 from rfl, BitVec.getLsbD_allOnes]
  simp [hbit]

theorem enable_triple {irq : Word} (hirq : irq.toNat < MAX_IRQS) (on : Nat → Prop) :
    Triple p.device (fun d => d.done = true ∧ Open on d.regs) p.Allowed
      (am335x_intc_enable_line p.dev irq) fun _ d =>
      d.done = true ∧ Open (fun m => on m ∨ m = irq.toNat) d.regs := by
  have hmax : MAX_IRQS = 128 := rfl
  obtain ⟨hbank, -, hbit⟩ := bank_toNat irq
  have hlt : (irq >>> 5).toNat < 4 := by omega
  have hoff := IntcRegs.mir_clear_toNat hlt
  have hcfg : INTC_SYSCONFIG.toNat = 0x10 := rfl
  refine p.store_triple (ne_of_toNat (by omega)) fun r hr => ?_
  rw [IntcRegs.write_clear r hlt, hbank, BitVec.shiftLeft_eq', hbit]
  refine ⟨hr.1, fun m hm => ⟨(hr.2 m hm).1, ?_⟩⟩
  rw [Banks.line_clear, Bool.and_eq_false_iff, (hr.2 m hm).2, Bool.not_eq_false', decide_eq_true_iff]

end IntcPart

/-! ## gicv1.c -/

def GICD_CTLR : Word := 0x000#32
def GICD_TYPER : Word := 0x004#32
def GICD_ISENABLER (n : Word) : Word := 0x100#32 + n * 4#32
def GICD_ICENABLER (n : Word) : Word := 0x180#32 + n * 4#32
def GICD_IPRIORITYR (n : Word) : Word := 0x400#32 + n
def GICD_ITARGETSR (n : Word) : Word := 0x800#32 + n

def GICC_CTLR : Word := 0x000#32
def GICC_PMR : Word := 0x004#32
def GICC_BPR : Word := 0x008#32
def GICC_IAR : Word := 0x00C#32
def GICC_EOIR : Word := 0x010#32

/-- The lines that `gicv1_init` goes through, from 32 up. -/
def gicLines (typer : Word) : Word :=
  let lines := ((typer &&& 0x1F#32) + 1#32) * 32#32
  if lines.toNat > MAX_IRQS then BitVec.ofNat 32 MAX_IRQS else lines

/-- `for (i = 32; i < lines; i += step)` -/
def forLines (lines : Word) (step : Nat) (body : Word → IrqDriver Unit) : IrqDriver Unit :=
  (List.range' 32 ((lines.toNat - 32 + (step - 1)) / step) step).forM fun i => body (BitVec.ofNat 32 i)

def gicv1_init (dev : intc_device) : IrqDriver Unit := do
  store (.word (dev.dist_base + GICD_CTLR)) 0#32
  let typer ← load (.word (dev.dist_base + GICD_TYPER))
  forLines (gicLines typer) 32 fun i =>
    store (.word (dev.dist_base + GICD_ICENABLER (i / 32#32))) 0xFFFFFFFF#32
  forLines (gicLines typer) 1 fun i => do
    store (.byte (dev.dist_base + GICD_IPRIORITYR i)) 0xA0#32
    store (.byte (dev.dist_base + GICD_ITARGETSR i)) 0x01#32
  store (.word (dev.dist_base + GICD_CTLR)) 1#32
  store (.word (dev.cpu_base + GICC_PMR)) 0xF0#32
  store (.word (dev.cpu_base + GICC_BPR)) 0x00#32
  store (.word (dev.cpu_base + GICC_CTLR)) 1#32

def gicv1_enable_line (dev : intc_device) (irq : Word) : IrqDriver Unit :=
  store (.word (dev.dist_base + GICD_ISENABLER (irq / 32#32))) (1#32 <<< (irq &&& 0x1F#32))

def gicv1_disable_line (dev : intc_device) (irq : Word) : IrqDriver Unit :=
  store (.word (dev.dist_base + GICD_ICENABLER (irq / 32#32))) (1#32 <<< (irq &&& 0x1F#32))

def gicv1_get_active (dev : intc_device) : IrqDriver Word := do
  let iar ← load (.word (dev.cpu_base + GICC_IAR))
  pure (Gic.gicv1_get_active iar)

def gicv1_eoi (dev : intc_device) (irq : Word) : IrqDriver Unit :=
  store (.word (dev.cpu_base + GICC_EOIR)) (Gic.gicv1_eoi irq)

def gicv1_ops : intc_ops where
  init := gicv1_init
  enable_line := gicv1_enable_line
  disable_line := gicv1_disable_line
  get_active := gicv1_get_active
  eoi := gicv1_eoi

def qemu_gic : intc_device := ⟨0#32, 0x1E000000#32, 0x1E001000#32⟩

/-! ### The controller -/

structure GicRegs where
  ctlr : Word
  enable : Banks
  priority : Nat → Word
  target : Nat → Word
  cpu_ctlr : Word
  pmr : Word
  bpr : Word

namespace GicRegs

def writeDist (r : GicRegs) (off v : Word) : GicRegs :=
  let n := off.toNat
  if off = GICD_CTLR then { r with ctlr := v }
  else if 0x100 ≤ n ∧ n < 0x180 then { r with enable := r.enable.set ((n - 0x100) / 4) v }
  else if 0x180 ≤ n ∧ n < 0x200 then { r with enable := r.enable.clear ((n - 0x180) / 4) v }
  else r

def writeByte (r : GicRegs) (off v : Word) : GicRegs :=
  let n := off.toNat
  if 0x400 ≤ n ∧ n < 0x800 then { r with priority := Function.update r.priority (n - 0x400) v }
  else if 0x800 ≤ n ∧ n < 0xC00 then { r with target := Function.update r.target (n - 0x800) v }
  else r

def writeCpu (r : GicRegs) (off v : Word) : GicRegs :=
  if off = GICC_CTLR then { r with cpu_ctlr := v }
  else if off = GICC_PMR then { r with pmr := v }
  else if off = GICC_BPR then { r with bpr := v }
  else r

theorem isenabler_toNat {b : Word} (h : b.toNat < 4) : (GICD_ISENABLER b).toNat = 0x100 + b.toNat * 4 :=
  reg_toNat (a := 0x100#32) (s := 4#32) (show 0x100 + b.toNat * 4 < 2 ^ 32 by omega)

theorem icenabler_toNat {b : Word} (h : b.toNat < 4) : (GICD_ICENABLER b).toNat = 0x180 + b.toNat * 4 :=
  reg_toNat (a := 0x180#32) (s := 4#32) (show 0x180 + b.toNat * 4 < 2 ^ 32 by omega)

theorem byte_toNat (a : Word) {n : Word} (h : a.toNat + n.toNat < 2 ^ 32) :
    (a + n).toNat = a.toNat + n.toNat := by
  rw [BitVec.toNat_add, Nat.mod_eq_of_lt h]

theorem priority_toNat {n : Word} (h : n.toNat < 128) : (GICD_IPRIORITYR n).toNat = 0x400 + n.toNat :=
  byte_toNat 0x400#32 (show 0x400 + n.toNat < 2 ^ 32 by omega)

theorem target_toNat {n : Word} (h : n.toNat < 128) : (GICD_ITARGETSR n).toNat = 0x800 + n.toNat :=
  byte_toNat 0x800#32 (show 0x800 + n.toNat < 2 ^ 32 by omega)

theorem write_set (r : GicRegs) {b : Word} (h : b.toNat < 4) (v : Word) :
    r.writeDist (GICD_ISENABLER b) v = { r with enable := r.enable.set b.toNat v } := by
  have hn := isenabler_toNat h
  have hctlr : GICD_CTLR.toNat = 0 := rfl
  unfold writeDist
  dsimp only
  rw [if_neg (ne_of_toNat (by omega)), if_pos (by omega)]
  congr 2
  omega

theorem write_clear (r : GicRegs) {b : Word} (h : b.toNat < 4) (v : Word) :
    r.writeDist (GICD_ICENABLER b) v = { r with enable := r.enable.clear b.toNat v } := by
  have hn := icenabler_toNat h
  have hctlr : GICD_CTLR.toNat = 0 := rfl
  unfold writeDist
  dsimp only
  rw [if_neg (ne_of_toNat (by omega)), if_neg (by omega), if_pos (by omega)]
  congr 2
  omega

theorem write_priority (r : GicRegs) {n : Word} (h : n.toNat < 128) (v : Word) :
    r.writeByte (GICD_IPRIORITYR n) v = { r with priority := Function.update r.priority n.toNat v } := by
  have hn := priority_toNat h
  unfold writeByte
  dsimp only
  rw [if_pos (by omega), hn, Nat.add_sub_cancel_left]

theorem write_target (r : GicRegs) {n : Word} (h : n.toNat < 128) (v : Word) :
    r.writeByte (GICD_ITARGETSR n) v = { r with target := Function.update r.target n.toNat v } := by
  have hn := target_toNat h
  unfold writeByte
  dsimp only
  rw [if_neg (by omega), if_pos (by omega), hn, Nat.add_sub_cancel_left]

end GicRegs

/-- `iar` is what IAR shows. -/
structure GicState where
  regs : GicRegs
  iar : Word

/-- The two register pages lie apart. -/
structure GicPart where
  dev : intc_device
  typer : Word
  apart : ∀ off : Word, off.toNat < 0x1000 → 0x1000 ≤ (dev.cpu_base + off - dev.dist_base).toNat

namespace GicPart

inductive Own : GicState → GicState → Prop
  | iar {d : GicState} (w : Word) : Own d { d with iar := w }

variable (p : GicPart)

def InDist (a : Word) : Prop := (a - p.dev.dist_base).toNat < 0x1000

instance (a : Word) : Decidable (p.InDist a) := inferInstanceAs (Decidable (_ < _))

def device : Device GicState Port Word where
  read d
    | .word a =>
      if a - p.dev.dist_base = GICD_TYPER then p.typer
      else if a - p.dev.cpu_base = GICC_IAR then d.iar
      else 0#32
    | .byte _ => 0#32
  after d _ := d
  write d
    | .word a, v =>
      if p.InDist a then { d with regs := d.regs.writeDist (a - p.dev.dist_base) v }
      else { d with regs := d.regs.writeCpu (a - p.dev.cpu_base) v }
    | .byte a, v => { d with regs := d.regs.writeByte (a - p.dev.dist_base) v }
  own := Own

/-- Inside the two pages, and priorities and targets only while nothing is forwarded. -/
def Allowed (d : GicState) : Port → Word → Prop
  | .word a, _ => p.InDist a ∨ (a - p.dev.cpu_base).toNat < 0x1000
  | .byte a, _ => p.InDist a ∧ d.regs.ctlr = 0#32

theorem stable (C : GicRegs → Prop) : Stable p.device fun d => C d.regs := by
  rintro d d' ⟨w⟩ h
  exact h

section

variable {off v : Word} (C C' : GicRegs → Prop)

theorem dist_triple (hoff : off.toNat < 0x1000) (h : ∀ r, C r → C' (r.writeDist off v)) :
    Triple p.device (fun d => C d.regs) p.Allowed
      (store (.word (p.dev.dist_base + off)) v) fun _ d => C' d.regs := by
  have hin : p.InDist (p.dev.dist_base + off) := by
    unfold InDist
    rw [offset]
    exact hoff
  refine .store (p.stable C) (fun d _ => Or.inl hin) (fun d hd => ?_) (p.stable C')
  simp only [device, offset, if_pos hin]
  exact h _ hd

theorem cpu_triple (hoff : off.toNat < 0x1000) (h : ∀ r, C r → C' (r.writeCpu off v)) :
    Triple p.device (fun d => C d.regs) p.Allowed
      (store (.word (p.dev.cpu_base + off)) v) fun _ d => C' d.regs := by
  have hout : ¬ p.InDist (p.dev.cpu_base + off) := Nat.not_lt.mpr (p.apart off hoff)
  refine .store (p.stable C) (fun d _ => Or.inr (by rw [offset]; exact hoff)) (fun d hd => ?_)
    (p.stable C')
  simp only [device, offset, if_neg hout]
  exact h _ hd

theorem byte_triple (hoff : off.toNat < 0x1000) (hquiet : ∀ r, C r → r.ctlr = 0#32)
    (h : ∀ r, C r → C' (r.writeByte off v)) :
    Triple p.device (fun d => C d.regs) p.Allowed
      (store (.byte (p.dev.dist_base + off)) v) fun _ d => C' d.regs := by
  refine .store (p.stable C) (fun d hd => ⟨?_, hquiet _ hd⟩) (fun d hd => ?_) (p.stable C')
  · unfold InDist
    rw [offset]
    exact hoff
  · simp only [device, offset]
    exact h _ hd

end

/-- How far `gicv1_init` goes. -/
def lines : Nat := (gicLines p.typer).toNat

theorem lines_bounds : p.lines % 32 = 0 ∧ 32 ≤ p.lines ∧ p.lines ≤ MAX_IRQS := by
  have hlow : (p.typer &&& 0x1F#32).toNat = p.typer.toNat % 32 := (bank_toNat p.typer).2.2
  have hraw : (((p.typer &&& 0x1F#32) + 1#32) * 32#32).toNat = (p.typer.toNat % 32 + 1) * 32 := by
    rw [BitVec.toNat_mul, BitVec.toNat_add, hlow]
    simp only [BitVec.toNat_ofNat]
    omega
  have hmax : MAX_IRQS = 128 := rfl
  unfold lines gicLines
  dsimp only
  rw [hraw]
  split
  · decide
  · rw [hraw]
    omega

/-- Nothing is forwarded, and the lines of these banks are off. -/
def BanksOff (l : List Nat) (r : GicRegs) : Prop := r.ctlr = 0#32 ∧ ∀ i ∈ l, r.enable (i / 32) = 0#32

/-- All the banks are, and these lines are ours, with one priority. -/
def Routed (l : List Nat) (r : GicRegs) : Prop :=
  BanksOff (List.range' 32 ((p.lines - 32 + 31) / 32) 32) r ∧ ∀ i ∈ l, r.priority i = 0xA0#32 ∧
    r.target i = 0x01#32

theorem clear_triple (l : List Nat) {i : Nat} (hi : i < MAX_IRQS) :
    Triple p.device (fun d => BanksOff l d.regs) p.Allowed
      (store (.word (p.dev.dist_base + GICD_ICENABLER (BitVec.ofNat 32 i / 32#32)))
        0xFFFFFFFF#32) fun _ d =>
        BanksOff (l ++ [i]) d.regs := by
  have hmax : MAX_IRQS = 128 := rfl
  have hi32 : (BitVec.ofNat 32 i).toNat = i := by rw [BitVec.toNat_ofNat]; omega
  have hbank : (BitVec.ofNat 32 i / 32#32).toNat = i / 32 := by rw [(bank_toNat _).2.1, hi32]
  have hlt : (BitVec.ofNat 32 i / 32#32).toNat < 4 := by omega
  have hn := GicRegs.icenabler_toNat hlt
  refine p.dist_triple (BanksOff l) (BanksOff (l ++ [i])) (by omega) fun r hr => ?_
  rw [GicRegs.write_clear r hlt, hbank]
  refine ⟨hr.1, fun j hj => ?_⟩
  by_cases he : j / 32 = i / 32
  · have hones (w : Word) : w &&& ~~~0xFFFFFFFF#32 = 0#32 := BitVec.and_zero
    simp only [Banks.clear, he, Function.update_self, hones]
  · simp only [Banks.clear, Function.update_of_ne he]
    exact hr.2 j (mem_of_snoc hj fun h => he (congrArg (· / 32) h))

theorem route_triple (l : List Nat) {i : Nat} (hi : i < MAX_IRQS) :
    Triple p.device (fun d => p.Routed l d.regs) p.Allowed (do
      store (.byte (p.dev.dist_base + GICD_IPRIORITYR (BitVec.ofNat 32 i))) 0xA0#32
      store (.byte (p.dev.dist_base + GICD_ITARGETSR (BitVec.ofNat 32 i))) 0x01#32) fun _ d =>
        p.Routed (l ++ [i]) d.regs := by
  have hmax : MAX_IRQS = 128 := rfl
  have hi32 : (BitVec.ofNat 32 i).toNat = i := by rw [BitVec.toNat_ofNat]; omega
  have hlt : (BitVec.ofNat 32 i).toNat < 128 := by omega
  have hp := GicRegs.priority_toNat hlt
  have ht := GicRegs.target_toNat hlt
  refine .seq
    (p.byte_triple (p.Routed l) (fun r => p.Routed l r ∧ r.priority i = 0xA0#32)
      (by omega) ?_ fun r hr => ?_)
    (p.byte_triple (fun r => p.Routed l r ∧ r.priority i = 0xA0#32) (p.Routed (l ++ [i]))
      (by omega) ?_ fun r hr => ?_)
  · exact fun r hr => hr.1.1
  · rw [GicRegs.write_priority r hlt, hi32]
    exact ⟨⟨hr.1, fun j hj => ⟨update_const fun _ => (hr.2 j hj).1, (hr.2 j hj).2⟩⟩,
      Function.update_self ..⟩
  · exact fun r hr => hr.1.1.1
  · rw [GicRegs.write_target r hlt, hi32]
    refine ⟨hr.1.1, fun j hj => ⟨?_, update_const fun he => (hr.1.2 j (mem_of_snoc hj he)).2⟩⟩
    by_cases he : j = i
    · exact he ▸ hr.2
    · exact (hr.1.2 j (mem_of_snoc hj he)).1

theorem clear_loop : Triple p.device (fun d => BanksOff [] d.regs) p.Allowed
    (forLines (gicLines p.typer) 32 fun i =>
      store (.word (p.dev.dist_base + GICD_ICENABLER (i / 32#32))) 0xFFFFFFFF#32)
    fun _ d => p.Routed [] d.regs := by
  obtain ⟨hmod, hlo, hhi⟩ := p.lines_bounds
  have hloop := Triple.forM (fun l (d : GicState) => BanksOff l d.regs) (fun l => p.stable _)
    (List.range' 32 ((p.lines - 32 + 31) / 32) 32) [] fun l i hi => p.clear_triple l (by
      obtain ⟨j, hj, rfl⟩ := List.mem_range'.mp hi
      omega)
  exact hloop.post fun _ d hd => ⟨hd, fun i hi => absurd hi List.not_mem_nil⟩

theorem route_loop : Triple p.device (fun d => p.Routed [] d.regs) p.Allowed
    (forLines (gicLines p.typer) 1 fun i => do
      store (.byte (p.dev.dist_base + GICD_IPRIORITYR i)) 0xA0#32
      store (.byte (p.dev.dist_base + GICD_ITARGETSR i)) 0x01#32) fun _ d =>
        p.Routed (List.range' 32 (p.lines - 32)) d.regs := by
  obtain ⟨hmod, hlo, hhi⟩ := p.lines_bounds
  have hloop := Triple.forM (fun l (d : GicState) => p.Routed l d.regs) (fun l => p.stable _)
    (List.range' 32 (p.lines - 32)) [] fun l i hi => p.route_triple l (by
      obtain ⟨j, hj, rfl⟩ := List.mem_range'.mp hi
      omega)
  unfold forLines
  rw [Nat.sub_self, Nat.add_zero, Nat.div_one]
  exact hloop

/-- Every line from 32 on is ours, and below the priority mask; exactly those of `on` are enabled. -/
def Lines (on : Nat → Prop) (r : GicRegs) : Prop := ∀ m, 32 ≤ m → m < p.lines →
  r.priority m = 0xA0#32 ∧ r.target m = 0x01#32 ∧ (r.enable.line m = true ↔ on m)

theorem routed_lines {r : GicRegs} (h : p.Routed (List.range' 32 (p.lines - 32)) r) :
    p.Lines (fun _ => False) r := by
  intro m hlo hhi
  obtain ⟨hmod, hlines, -⟩ := p.lines_bounds
  obtain ⟨hp, ht⟩ := h.2 m (List.mem_range'.mpr ⟨m - 32, by omega, by omega⟩)
  have hbank : r.enable (m / 32) = 0#32 := by
    have hoff := h.1.2 (m / 32 * 32) (List.mem_range'.mpr ⟨m / 32 - 1, by omega, by omega⟩)
    rwa [Nat.mul_div_cancel _ (by decide)] at hoff
  refine ⟨hp, ht, ?_⟩
  rw [Banks.line, hbank, BitVec.getLsbD_zero]
  exact Bool.false_eq_true.to_iff

/-- Both halves forward, with these lines. -/
structure Open (on : Nat → Prop) (r : GicRegs) : Prop where
  lines : p.Lines on r
  ctlr : r.ctlr = 1#32
  pmr : r.pmr = 0xF0#32
  bpr : r.bpr = 0x00#32
  cpu_ctlr : r.cpu_ctlr = 1#32

theorem open_triple :
    Triple p.device (fun d => p.Routed (List.range' 32 (p.lines - 32)) d.regs) p.Allowed (do
    store (.word (p.dev.dist_base + GICD_CTLR)) 1#32
    store (.word (p.dev.cpu_base + GICC_PMR)) 0xF0#32
    store (.word (p.dev.cpu_base + GICC_BPR)) 0x00#32
    store (.word (p.dev.cpu_base + GICC_CTLR)) 1#32) fun _ d => p.Open (fun _ => False) d.regs := by
  let C₁ (r : GicRegs) : Prop := p.Lines (fun _ => False) r ∧ r.ctlr = 1#32
  let C₂ (r : GicRegs) : Prop := C₁ r ∧ r.pmr = 0xF0#32
  let C₃ (r : GicRegs) : Prop := C₂ r ∧ r.bpr = 0x00#32
  exact .seq (p.dist_triple _ C₁ (by decide) fun r hr => ⟨have h := p.routed_lines hr; h, rfl⟩) <|
    .seq (p.cpu_triple C₁ C₂ (by decide) fun r hr => ⟨hr, rfl⟩) <|
    .seq (p.cpu_triple C₂ C₃ (by decide) fun r hr => ⟨hr, rfl⟩) <|
    p.cpu_triple C₃ (p.Open fun _ => False) (by decide) fun r hr =>
      ⟨hr.1.1.1, hr.1.1.2, hr.1.2, hr.2, rfl⟩

theorem init_triple : Triple p.device (fun _ => True) p.Allowed (gicv1_init p.dev) fun _ d =>
    p.Open (fun _ => False) d.regs := by
  have hoff :
    Triple p.device (fun _ => True) p.Allowed
      (store (.word (p.dev.dist_base + GICD_CTLR)) 0#32) fun _ d =>
      BanksOff [] d.regs :=
    p.dist_triple (fun _ => True) (BanksOff []) (by decide) fun _ _ =>
      ⟨rfl, fun i hi => absurd hi List.not_mem_nil⟩
  have htyper :
      Triple p.device (fun d => BanksOff [] d.regs) p.Allowed
        (load (.word (p.dev.dist_base + GICD_TYPER)))
      fun v d => v = p.typer ∧ BanksOff [] d.regs := by
    refine .load (p.stable _) (fun d hd => ⟨?_, hd⟩) fun v =>
      p.stable fun r => v = p.typer ∧ BanksOff [] r
    simp only [device, offset, if_true]
  refine hoff.seq (htyper.bind fun v => .given fun hv => ?_)
  subst hv
  exact p.clear_loop.seq (p.route_loop.seq p.open_triple)

theorem enable_triple {irq : Word} (hirq : irq.toNat < MAX_IRQS) (on : Nat → Prop) :
    Triple p.device (fun d => p.Open on d.regs) p.Allowed (gicv1_enable_line p.dev irq) fun _ d =>
      p.Open (fun m => on m ∨ m = irq.toNat) d.regs := by
  have hmax : MAX_IRQS = 128 := rfl
  obtain ⟨-, hbank, hbit⟩ := bank_toNat irq
  have hlt : (irq / 32#32).toNat < 4 := by omega
  have hn := GicRegs.isenabler_toNat hlt
  refine p.dist_triple (p.Open on) (p.Open fun m => on m ∨ m = irq.toNat) (by omega) fun r hr => ?_
  rw [GicRegs.write_set r hlt, hbank, BitVec.shiftLeft_eq', hbit]
  refine ⟨fun m hlo hhi => ?_, hr.ctlr, hr.pmr, hr.bpr, hr.cpu_ctlr⟩
  obtain ⟨hp, ht, hon⟩ := hr.lines m hlo hhi
  refine ⟨hp, ht, ?_⟩
  rw [Banks.line_set, Bool.or_eq_true, hon, decide_eq_true_iff]

end GicPart

/-! ## The boards -/

namespace Bbb

def IRQ_TIMER : Word := 68#32
def IRQ_UART0 : Word := 72#32

end Bbb

/-- Whatever the boot loader has left: after these calls of `kmain`, the timer and the console can
interrupt, on each board by the lines that the table has their handlers for, and no other line of
the table can. -/
theorem kmain_opens_two_lines :
    (∀ p : GicPart, p.dev = qemu_gic → Triple p.device (fun _ => True) p.Allowed
      (kmain_irqs gicv1_ops qemu_gic IRQ_TIMER IRQ_UART0) fun table d =>
        table = kmainTable ∧ p.Open (fun m => m = 36 ∨ m = 44) d.regs) ∧
    (∀ p : IntcPart, p.dev = bbb_intc → Triple p.device (fun _ => True) p.Allowed
      (kmain_irqs am335x_intc_ops bbb_intc Bbb.IRQ_TIMER Bbb.IRQ_UART0) fun table d =>
        table =
          irq_register (irq_register (fun _ => none) Bbb.IRQ_TIMER .timer_irq) Bbb.IRQ_UART0
            .uart_rx_irq ∧
          d.done = true ∧ IntcPart.Open (fun m => m = 68 ∨ m = 72) d.regs) := by
  constructor
  · intro p hp
    rw [← hp]
    exact kmain_irqs_triple (fun on (d : GicState) => p.Open on d.regs)
      (fun on => p.stable _) p.init_triple
      (fun irq hirq on => p.enable_triple hirq on) (by decide) (by decide)
  · intro p hp
    rw [← hp]
    refine kmain_irqs_triple (fun on (d : Intc) => d.done = true ∧ IntcPart.Open on d.regs)
      (fun on => p.stable_done _) ?_
      (fun irq hirq on => p.enable_triple hirq on) (by decide) (by decide)
    exact p.init_triple.post fun _ d hd => ⟨hd.1, IntcPart.quiet_open hd.2⟩

/-- With 96 lines. -/
def qemu_gic_part : GicPart where
  dev := qemu_gic
  typer := 2#32
  apart := by
    intro off hoff
    have hbase : (0x1E001000#32 : Word).toNat = 0x1E001000 := rfl
    have hcpu : (0x1E000000#32 : Word).toNat = 0x1E000000 := rfl
    show 0x1000 ≤ (0x1E000000#32 + off - 0x1E001000#32).toNat
    rw [BitVec.toNat_sub, BitVec.toNat_add, hbase, hcpu]
    omega

/-- As the boot loader may leave it: every line open, with any priority. -/
def bbb_intc_part : IntcPart := ⟨bbb_intc, ⟨fun _ => 0#32, fun _ => 0x7F#32, 0#32⟩⟩

/-- The line after the timer's stays off on both boards. -/
theorem kmain_opens_two_lines_both :
    (Triple qemu_gic_part.device (fun _ => True) qemu_gic_part.Allowed
      (kmain_irqs gicv1_ops qemu_gic 36#32 44#32)
      fun _ d => d.regs.enable.line 36 = true ∧ d.regs.enable.line 37 = false) ∧
    Triple bbb_intc_part.device (fun _ => True) bbb_intc_part.Allowed
      (kmain_irqs am335x_intc_ops bbb_intc 68#32 72#32) fun _ d =>
        d.regs.mir.line 68 = false ∧ d.regs.mir.line 69 = true := by
  have hlines : qemu_gic_part.lines = 96 := by decide
  constructor
  · refine (kmain_opens_two_lines.1 qemu_gic_part rfl).post fun _ d hd => ⟨?_, ?_⟩
    · exact (hd.2.lines 36 (by decide) (by omega)).2.2.mpr (by decide)
    · refine Bool.eq_false_of_not_eq_true fun h => ?_
      exact absurd ((hd.2.lines 37 (by decide) (by omega)).2.2.mp h) (by decide)
  · refine (kmain_opens_two_lines.2 bbb_intc_part rfl).post fun _ d hd => ⟨?_, ?_⟩
    · exact (hd.2.2.2 68 (by decide)).2.mpr (by decide)
    · refine Bool.eq_true_of_not_eq_false fun h => ?_
      exact absurd ((hd.2.2.2 69 (by decide)).2.mp h) (by decide)

end CortexAOS.Drivers
