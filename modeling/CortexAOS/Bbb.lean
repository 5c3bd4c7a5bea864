import CortexAOS.Intc
import CortexAOS.Console
import CortexAOS.Delay

/-!
# The BeagleBone, one register access at a time

`irq_dispatch` on this board, with the controller, the timer and the console chip: bytes come in and
the timer overflows between any two accesses. Each pass of it is one interrupt of `Exception.lean`.
-/

namespace CortexAOS.Drivers.Bbb

open Gic Lib

variable {cfg : Config}

/-! ## The machine -/

/-- The table that `kmain` leaves. -/
def irq_table : IrqTable :=
  irq_register (irq_register (fun _ => none) IRQ_TIMER .timer_irq) IRQ_UART0 .uart_rx_irq

def NS16550_LSR_DR : Word := 1#32 <<< 0

/-- The next access of `irq_dispatch`, or of a handler that it has called; `out` is outside of it. -/
inductive IrqPc where
  | out
  /-- `am335x_intc_get_active` -/
  | sir
  /-- `dmtimer_irq`, and its call of `timer_tick` -/
  | irqstatus
  | tick
  /-- `ns16550_rx_irq`, and its call of `scheduler_wake_reader` -/
  | lsr
  | rhr
  | wake
  /-- `am335x_intc_eoi` -/
  | eoi
  deriving DecidableEq

/-- `fifo` is the console chip's receive FIFO and `ovf` the timer's overflow flag. With `busy`, the
controller waits for NEWIRQAGR. -/
structure Machine (cfg : Config) where
  sys : Sys cfg
  fifo : List Byte
  ovf : Bool
  busy : Bool
  pc : IrqPc

namespace Machine

def line (m : Machine cfg) : Prop := m.ovf = true ∨ m.fifo ≠ []

/-- What SIR_IRQ may show: a line that is up, or the spurious flag if none is. -/
def ShowsSir (m : Machine cfg) (w : Word) : Prop :=
  (w = IRQ_TIMER ∧ m.ovf = true) ∨ (w = IRQ_UART0 ∧ m.fifo ≠ []) ∨
    (w &&& INTC_SIR_SPURIOUS_MASK ≠ 0#32 ∧ ¬ m.line)

def withKernel (m : Machine cfg) (k : Kernel cfg) : Machine cfg :=
  { m with sys := { m.sys with k := k } }

end Machine

/-- Where the call of the handler leads, if there is one. -/
def afterSir (w : Word) : IrqPc :=
  match handlerOf irq_table (activeLine w) with
  | some .timer_irq => .irqstatus
  | some .uart_rx_irq => .lsr
  | none => .eoi

inductive MLabel (cfg : Config) where
  | arrive (c : Byte)
  /-- A byte that the chip has no room for. -/
  | overrun (c : Byte)
  | overflow (pending : Bool)
  | irq
  | access (pc : IrqPc)
  /-- A system call, a fault, or kernel code after an interrupt. -/
  | sys (l : Label cfg)

inductive MStep (depth : Nat) : Machine cfg → MLabel cfg → Machine cfg → Prop
  | arrive {m : Machine cfg} (c : Byte) (h : m.fifo.length < depth) :
    MStep depth m (.arrive c) { m with fifo := m.fifo ++ [c] }
  | overrun {m : Machine cfg} (c : Byte) (h : depth ≤ m.fifo.length) : MStep depth m (.overrun c) m
  | overflow {m : Machine cfg} : MStep depth m (.overflow m.ovf) { m with ovf := true }
  | irq {m : Machine cfg} (h : m.pc = .out) (hu : m.sys.ctl = .user) (hb : m.busy = false)
    (hl : m.line) : MStep depth m .irq { m with busy := true, pc := .sir }
  | sir {m : Machine cfg} (w : Word) (h : m.pc = .sir) (hw : m.ShowsSir w) :
    MStep depth m (.access .sir) { m with pc := afterSir w }
  | irqstatus {m : Machine cfg} (h : m.pc = .irqstatus) :
    MStep depth m (.access .irqstatus) { m with ovf := false, pc := .tick }
  | tick {m : Machine cfg} (h : m.pc = .tick) :
    MStep depth m (.access .tick) { m.withKernel (timer_tick m.sys.k) with pc := .eoi }
  | lsr {m : Machine cfg} (w : Word) (h : m.pc = .lsr) (hw : w &&& NS16550_LSR_DR ≠ 0#32 ↔ m.fifo ≠ []) :
    MStep depth m (.access .lsr) { m with pc := if w &&& NS16550_LSR_DR ≠ 0#32 then .rhr else .wake }
  | rhr {m : Machine cfg} {c : Byte} {cs : List Byte} (h : m.pc = .rhr) (hfifo : m.fifo = c :: cs) :
    MStep depth m (.access .rhr) { m.withKernel (uart_rx_push m.sys.k c).1 with fifo := cs, pc := .lsr }
  | wake {m : Machine cfg} (h : m.pc = .wake) :
    MStep depth m (.access .wake) { m.withKernel (scheduler_wake_reader m.sys.k) with pc := .eoi }
  | eoi {m : Machine cfg} (h : m.pc = .eoi) :
    MStep depth m (.access .eoi)
      { m with sys := { m.sys with ctl := .sched .irqTail }, busy := false, pc := .out }
  | sys {m : Machine cfg} {l : Label cfg} {s : Sys cfg} (h : m.pc = .out) (hs : Step m.sys l s)
    (hirq : ∀ i, l.ev ≠ some (.irq i)) : MStep depth m (.sys l) { m with sys := s }

def boots (cfg : Config) : Machine cfg := ⟨start cfg, [], false, false, .out⟩

/-! ## What the devices have seen -/

def MLabel.arrived : MLabel cfg → List Byte
  | .arrive c => [c]
  | _ => []

/-- An overflow that raises the flag; one that finds it up is not told apart from the last. -/
def MLabel.raised : MLabel cfg → Bool
  | .overflow pending => !pending
  | _ => false

def arrived (tr : List (MLabel cfg)) : List Byte := tr.flatMap MLabel.arrived

def raised (tr : List (MLabel cfg)) : Nat := tr.countP MLabel.raised

/-- What the interrupts of a run of `Sys` carry. -/
def carried (l : Label cfg) : List Byte :=
  match l.ev with
  | some (.irq (.uart bs)) => bs
  | _ => []

/-- An interrupt has a cause. -/
def Caused (l : Label cfg) : Prop := l.ev ≠ some (.irq .spurious) ∧ l.ev ≠ some (.irq (.uart []))

/-! ## One pass of the handler -/

/-- `s` is where `Sys` stands when the machine is at `m`: it takes the interrupt when the pass ends.
Until then the pass has taken over `bs` and `n` overflows. -/
inductive At (s : Sys cfg) (m : Machine cfg) : List Byte → Nat → Prop
  | out (h : m.pc = .out) (hb : m.busy = false) (hs : m.sys = s) : At s m [] 0
  | sir (h : m.pc = .sir) (hu : s.ctl = .user) (hs : m.sys = s) (hl : m.line) : At s m [] 0
  | irqstatus (h : m.pc = .irqstatus) (hu : s.ctl = .user) (hs : m.sys = s) (ho : m.ovf = true) :
      At s m [] 0
  | tick (h : m.pc = .tick) (hu : s.ctl = .user) (hs : m.sys = s) : At s m [] 1
  | lsr {bs : List Byte} (h : m.pc = .lsr) (hu : s.ctl = .user)
    (hs : m.sys = { s with k := (rx_drain s.k bs).1 }) (hne : bs = [] → m.fifo ≠ []) : At s m bs 0
  | rhr {bs : List Byte} (h : m.pc = .rhr) (hu : s.ctl = .user)
    (hs : m.sys = { s with k := (rx_drain s.k bs).1 }) (hne : m.fifo ≠ []) : At s m bs 0
  | wake {bs : List Byte} (h : m.pc = .wake) (hu : s.ctl = .user)
    (hs : m.sys = { s with k := (rx_drain s.k bs).1 }) (hne : bs ≠ []) : At s m bs 0
  | ticked (h : m.pc = .eoi) (hu : s.ctl = .user) (hs : m.sys = { s with k := timer_tick s.k }) :
      At s m [] 1
  | filled {bs : List Byte} (h : m.pc = .eoi) (hu : s.ctl = .user)
    (hs : m.sys = { s with k := (uart_rx_irq s.k bs).1 }) (hne : bs ≠ []) : At s m bs 0

structure Inv (tr : List (MLabel cfg)) (m : Machine cfg) (s : Sys cfg) (tr' : List (Label cfg))
    (bs : List Byte) (n : Nat) : Prop where
  run : Run Step (start cfg) tr' s
  at_ : At s m bs n
  bytes : tr'.flatMap carried ++ bs ++ m.fifo = arrived tr
  ticks : tr'.countP Label.ticked + n + (if m.ovf then 1 else 0) = raised tr
  caused : ∀ l ∈ tr', Caused l

theorem inv_start : Inv [] (boots cfg) (start cfg) [] [] 0 :=
  ⟨.refl, .out rfl rfl rfl, rfl, rfl, fun _ h => absurd h List.not_mem_nil⟩

theorem arrived_snoc (tr : List (MLabel cfg)) (l : MLabel cfg) :
    arrived (tr ++ [l]) = arrived tr ++ l.arrived := by
  simp [arrived]

theorem raised_snoc (tr : List (MLabel cfg)) (l : MLabel cfg) :
    raised (tr ++ [l]) = raised tr + if l.raised then 1 else 0 := by
  simp [raised, List.countP_append, List.countP_singleton]

theorem afterSir_timer : afterSir IRQ_TIMER = .irqstatus := by decide

theorem afterSir_uart : afterSir IRQ_UART0 = .lsr := by decide

section

variable {tr : List (MLabel cfg)} {m m' : Machine cfg} {s : Sys cfg} {tr' : List (Label cfg)}
  {bs : List Byte} {n : Nat} {l : MLabel cfg} {depth : Nat}

/-- The pass does not mind a byte that comes in, or an overflow. -/
theorem At.hardware (h : At s m bs n) {fifo : List Byte} {ovf : Bool} (hfifo : m.fifo ≠ [] → fifo ≠ [])
    (hovf : m.ovf = true → ovf = true) : At s { m with fifo := fifo, ovf := ovf } bs n := by
  cases h with
  | out h hb hs => exact .out h hb hs
  | sir h hu hs hl => exact .sir h hu hs (hl.imp hovf hfifo)
  | irqstatus h hu hs ho => exact .irqstatus h hu hs (hovf ho)
  | tick h hu hs => exact .tick h hu hs
  | lsr h hu hs hne => exact .lsr h hu hs fun hbs => hfifo (hne hbs)
  | rhr h hu hs hne => exact .rhr h hu hs (hfifo hne)
  | wake h hu hs hne => exact .wake h hu hs hne
  | ticked h hu hs => exact .ticked h hu hs
  | filled h hu hs hne => exact .filled h hu hs hne

/-- An access that neither takes a byte nor clears the flag. -/
theorem Inv.quiet (h : Inv tr m s tr' bs n) (hat : At s m' bs n) (hfifo : m'.fifo = m.fifo)
    (hovf : m'.ovf = m.ovf)
    (harrived : l.arrived = []) (hraised : l.raised = false) : Inv (tr ++ [l]) m' s tr' bs n := by
  refine ⟨h.run, hat, ?_, ?_, h.caused⟩
  · rw [arrived_snoc, harrived, List.append_nil, hfifo]
    exact h.bytes
  · rw [raised_snoc, hraised, hovf]
    exact h.ticks

theorem Inv.arrive (h : Inv tr m s tr' bs n) (c : Byte) :
    Inv (tr ++ [.arrive c]) { m with fifo := m.fifo ++ [c] } s tr' bs n := by
  refine ⟨h.run, h.at_.hardware (by simp) id, ?_, ?_, h.caused⟩
  · rw [arrived_snoc, ← h.bytes]
    exact (List.append_assoc ..).symm
  · rw [raised_snoc]
    exact h.ticks

theorem Inv.overflow (h : Inv tr m s tr' bs n) :
    Inv (tr ++ [.overflow m.ovf]) { m with ovf := true } s tr' bs n := by
  refine ⟨h.run, h.at_.hardware id fun _ => rfl, ?_, ?_, h.caused⟩
  · rw [arrived_snoc, ← h.bytes]
    exact (List.append_nil _).symm
  · have hticks := h.ticks
    rw [raised_snoc]
    cases ho : m.ovf <;> simp_all [MLabel.raised]

/-! ### The pass, by where it stands -/

theorem At.inv_out (h : At s m bs n) (hpc : m.pc = .out) :
    bs = [] ∧ n = 0 ∧ m.busy = false ∧ m.sys = s := by
  cases h with
  | out _ hb hs => exact ⟨rfl, rfl, hb, hs⟩
  | sir h | irqstatus h | tick h | lsr h | rhr h | wake h | ticked h | filled h => rw [hpc] at h; cases h

theorem At.inv_sir (h : At s m bs n) (hpc : m.pc = .sir) :
    bs = [] ∧ n = 0 ∧ s.ctl = .user ∧ m.sys = s ∧ m.line := by
  cases h with
  | sir _ hu hs hl => exact ⟨rfl, rfl, hu, hs, hl⟩
  | out h | irqstatus h | tick h | lsr h | rhr h | wake h | ticked h | filled h => rw [hpc] at h; cases h

theorem At.inv_irqstatus (h : At s m bs n) (hpc : m.pc = .irqstatus) :
    bs = [] ∧ n = 0 ∧ s.ctl = .user ∧ m.sys = s ∧ m.ovf = true := by
  cases h with
  | irqstatus _ hu hs ho => exact ⟨rfl, rfl, hu, hs, ho⟩
  | out h | sir h | tick h | lsr h | rhr h | wake h | ticked h | filled h => rw [hpc] at h; cases h

theorem At.inv_tick (h : At s m bs n) (hpc : m.pc = .tick) :
    bs = [] ∧ n = 1 ∧ s.ctl = .user ∧ m.sys = s := by
  cases h with
  | tick _ hu hs => exact ⟨rfl, rfl, hu, hs⟩
  | out h | sir h | irqstatus h | lsr h | rhr h | wake h | ticked h | filled h => rw [hpc] at h; cases h

theorem At.inv_lsr (h : At s m bs n) (hpc : m.pc = .lsr) :
    n = 0 ∧ s.ctl = .user ∧ m.sys = { s with k := (rx_drain s.k bs).1 } ∧ (bs = [] → m.fifo ≠ []) := by
  cases h with
  | lsr _ hu hs hne => exact ⟨rfl, hu, hs, hne⟩
  | out h | sir h | irqstatus h | tick h | rhr h | wake h | ticked h | filled h => rw [hpc] at h; cases h

theorem At.inv_rhr (h : At s m bs n) (hpc : m.pc = .rhr) :
    n = 0 ∧ s.ctl = .user ∧ m.sys = { s with k := (rx_drain s.k bs).1 } := by
  cases h with
  | rhr _ hu hs hne => exact ⟨rfl, hu, hs⟩
  | out h | sir h | irqstatus h | tick h | lsr h | wake h | ticked h | filled h => rw [hpc] at h; cases h

theorem At.inv_wake (h : At s m bs n) (hpc : m.pc = .wake) :
    n = 0 ∧ s.ctl = .user ∧ m.sys = { s with k := (rx_drain s.k bs).1 } ∧ bs ≠ [] := by
  cases h with
  | wake _ hu hs hne => exact ⟨rfl, hu, hs, hne⟩
  | out h | sir h | irqstatus h | tick h | lsr h | rhr h | ticked h | filled h => rw [hpc] at h; cases h

/-- At its end, a pass has done what one interrupt does. -/
theorem At.inv_eoi (h : At s m bs n) (hpc : m.pc = .eoi) : s.ctl = .user ∧ ∃ i : Irq,
    m.sys = { s with k := (CortexAOS.irq_dispatch s.k i).1 } ∧
    ((i = .timer ∧ bs = [] ∧ n = 1) ∨ (i = .uart bs ∧ bs ≠ [] ∧ n = 0)) := by
  cases h with
  | ticked _ hu hs => exact ⟨hu, .timer, hs, Or.inl ⟨rfl, rfl, rfl⟩⟩
  | filled _ hu hs hne => exact ⟨hu, .uart bs, hs, Or.inr ⟨rfl, hne, rfl⟩⟩
  | out h | sir h | irqstatus h | tick h | lsr h | rhr h | wake h => rw [hpc] at h; cases h

theorem other_event {l : Label cfg} (h : ∀ i, l.ev ≠ some (.irq i)) :
    carried l = [] ∧ l.ticked = false ∧ Caused l := by
  obtain ⟨ev, obs⟩ := l
  rcases ev with _ | ⟨i | _ | _ | _ | _⟩
  · exact ⟨rfl, rfl, by simp [Caused]⟩
  · exact absurd rfl (h i)
  all_goals exact ⟨rfl, rfl, by simp [Caused]⟩

/-! ### Steps -/

theorem Inv.sir (h : Inv tr m s tr' bs n) (hpc : m.pc = .sir) {w : Word} (hw : m.ShowsSir w) :
    Inv (tr ++ [.access .sir]) { m with pc := afterSir w } s tr' bs n := by
  obtain ⟨rfl, rfl, hu, hs, hl⟩ := h.at_.inv_sir hpc
  refine h.quiet ?_ rfl rfl rfl rfl
  rcases hw with ⟨rfl, ho⟩ | ⟨rfl, hf⟩ | ⟨-, hnone⟩
  · exact .irqstatus afterSir_timer hu hs ho
  · exact .lsr afterSir_uart hu hs fun _ => hf
  · exact absurd hl hnone

theorem Inv.irqstatus (h : Inv tr m s tr' bs n) (hpc : m.pc = .irqstatus) :
    Inv (tr ++ [.access .irqstatus]) { m with ovf := false, pc := .tick } s tr' [] 1 := by
  obtain ⟨rfl, rfl, hu, hs, ho⟩ := h.at_.inv_irqstatus hpc
  refine ⟨h.run, .tick rfl hu hs, ?_, ?_, h.caused⟩
  · rw [arrived_snoc, ← h.bytes]
    exact (List.append_nil _).symm
  · have hticks := h.ticks
    rw [ho] at hticks
    rw [raised_snoc]
    exact hticks

theorem Inv.tick (h : Inv tr m s tr' bs n) (hpc : m.pc = .tick) :
    Inv (tr ++ [.access .tick]) { m.withKernel (timer_tick m.sys.k) with pc := .eoi } s tr' bs n := by
  obtain ⟨rfl, rfl, hu, hs⟩ := h.at_.inv_tick hpc
  refine h.quiet (.ticked rfl hu ?_) rfl rfl rfl rfl
  rw [Machine.withKernel, hs]

theorem Inv.lsr (h : Inv tr m s tr' bs n) (hpc : m.pc = .lsr) {w : Word}
    (hw : w &&& NS16550_LSR_DR ≠ 0#32 ↔ m.fifo ≠ []) :
    Inv (tr ++ [.access .lsr]) { m with pc := if w &&& NS16550_LSR_DR ≠ 0#32 then .rhr else .wake }
      s tr' bs n := by
  obtain ⟨rfl, hu, hs, hne⟩ := h.at_.inv_lsr hpc
  refine h.quiet ?_ rfl rfl rfl rfl
  by_cases hready : w &&& NS16550_LSR_DR ≠ 0#32
  · exact .rhr (if_pos hready) hu hs (hw.mp hready)
  · exact .wake (if_neg hready) hu hs fun hbs => hready (hw.mpr (hne hbs))

theorem Inv.rhr (h : Inv tr m s tr' bs n) (hpc : m.pc = .rhr) {c : Byte} {cs : List Byte}
    (hfifo : m.fifo = c :: cs) :
    Inv (tr ++ [.access .rhr])
      { m.withKernel (uart_rx_push m.sys.k c).1 with fifo := cs, pc := .lsr } s tr' (bs ++ [c]) n := by
  obtain ⟨rfl, hu, hs⟩ := h.at_.inv_rhr hpc
  refine ⟨h.run, .lsr rfl hu ?_ (by simp), ?_, ?_, h.caused⟩
  · rw [Machine.withKernel, hs, rx_drain_snoc]
  · have hbytes := h.bytes
    rw [hfifo] at hbytes
    rw [arrived_snoc, ← hbytes]
    simp [MLabel.arrived]
  · rw [raised_snoc]
    exact h.ticks

theorem Inv.wake (h : Inv tr m s tr' bs n) (hpc : m.pc = .wake) :
    Inv (tr ++ [.access .wake]) { m.withKernel (scheduler_wake_reader m.sys.k) with pc := .eoi }
      s tr' bs n := by
  obtain ⟨rfl, hu, hs, hne⟩ := h.at_.inv_wake hpc
  refine h.quiet (.filled rfl hu ?_ hne) rfl rfl rfl rfl
  rw [Machine.withKernel, hs]
  rfl

/-- The end of a pass is where `Sys` takes the interrupt. -/
theorem Inv.eoi (h : Inv tr m s tr' bs n) (hpc : m.pc = .eoi) :
    ∃ s' tr'',
      Inv (tr ++ [.access .eoi])
        { m with sys := { m.sys with ctl := .sched .irqTail }, busy := false, pc := .out }
      s' tr'' [] 0 := by
  obtain ⟨hu, i, hs, hi⟩ := h.at_.inv_eoi hpc
  refine ⟨(enter s (.irq i)).1, tr' ++ [⟨some (.irq i), (enter s (.irq i)).2⟩],
    h.run.snoc (.event (.irq i) hu), ?_, ?_, ?_, ?_⟩
  · refine .out rfl rfl ?_
    rw [hs]
    rfl
  · rw [arrived_snoc, ← h.bytes]
    rcases hi with ⟨rfl, rfl, -⟩ | ⟨rfl, -, -⟩ <;> simp [carried, MLabel.arrived]
  · have hticks := h.ticks
    rw [raised_snoc, ← hticks]
    rcases hi with ⟨rfl, -, rfl⟩ | ⟨rfl, -, rfl⟩ <;> simp [List.countP_append,
      List.countP_singleton, Label.ticked, MLabel.raised]
  · intro l hl
    rcases List.mem_append.mp hl with hl | hl
    · exact h.caused l hl
    · rw [List.mem_singleton.mp hl]
      rcases hi with ⟨rfl, -, -⟩ | ⟨rfl, hne, -⟩ <;> simp_all [Caused]

theorem Inv.sys (h : Inv tr m s tr' bs n) (hpc : m.pc = .out) {l : Label cfg} {s' : Sys cfg}
    (hstep : Step m.sys l s') (hirq : ∀ i, l.ev ≠ some (.irq i)) :
    Inv (tr ++ [.sys l]) { m with sys := s' } s' (tr' ++ [l]) [] 0 := by
  obtain ⟨rfl, rfl, hb, rfl⟩ := h.at_.inv_out hpc
  obtain ⟨hcarried, hticked, hcaused⟩ := other_event hirq
  refine ⟨h.run.snoc hstep, .out hpc hb rfl, ?_, ?_, ?_⟩
  · rw [arrived_snoc, ← h.bytes]
    simp [hcarried, MLabel.arrived]
  · rw [raised_snoc, ← h.ticks]
    simp [List.countP_append, hticked, MLabel.raised]
  · intro l' hl'
    rcases List.mem_append.mp hl' with hl' | hl'
    · exact h.caused l' hl'
    · rw [List.mem_singleton.mp hl']
      exact hcaused

theorem inv_step (h : Inv tr m s tr' bs n) (hs : MStep depth m l m') :
    ∃ s' tr'' bs' n', Inv (tr ++ [l]) m' s' tr'' bs' n' := by
  cases hs with
  | arrive c hroom => exact ⟨_, _, _, _, h.arrive c⟩
  | overrun c hfull => exact ⟨_, _, _, _, h.quiet h.at_ rfl rfl rfl rfl⟩
  | overflow => exact ⟨_, _, _, _, h.overflow⟩
  | irq hpc hu hb hl =>
    obtain ⟨rfl, rfl, -, rfl⟩ := h.at_.inv_out hpc
    exact ⟨_, _, _, _, h.quiet (.sir rfl hu rfl hl) rfl rfl rfl rfl⟩
  | sir w hpc hw => exact ⟨_, _, _, _, h.sir hpc hw⟩
  | irqstatus hpc => exact ⟨_, _, _, _, h.irqstatus hpc⟩
  | tick hpc => exact ⟨_, _, _, _, h.tick hpc⟩
  | lsr w hpc hw => exact ⟨_, _, _, _, h.lsr hpc hw⟩
  | rhr hpc hfifo => exact ⟨_, _, _, _, h.rhr hpc hfifo⟩
  | wake hpc => exact ⟨_, _, _, _, h.wake hpc⟩
  | eoi hpc =>
    obtain ⟨s', tr'', h'⟩ := h.eoi hpc
    exact ⟨s', tr'', _, _, h'⟩
  | sys hpc hstep hirq => exact ⟨_, _, _, _, h.sys hpc hstep hirq⟩

end

/-! ## The processor alone ends a pass -/

section

variable {depth : Nat} {m : Machine cfg}

/-- The processor alone gets the machine out of the handler. -/
def Ends (depth : Nat) (m : Machine cfg) : Prop :=
  ∃ tr m', Run (MStep depth) m tr m' ∧ (∀ l ∈ tr, ∃ pc, l = .access pc) ∧ m'.pc = .out

theorem Ends.step {m' : Machine cfg} {pc : IrqPc} (hs : MStep depth m (.access pc) m')
    (h : Ends depth m') : Ends depth m := by
  obtain ⟨tr, m₂, hr, hl, hout⟩ := h
  refine ⟨.access pc :: tr, m₂, .cons hs hr, fun l hm => ?_, hout⟩
  rcases List.mem_cons.mp hm with rfl | hm
  · exact ⟨pc, rfl⟩
  · exact hl l hm

theorem ends_out (h : m.pc = .out) : Ends depth m :=
  ⟨[], m, .refl, fun _ hl => absurd hl List.not_mem_nil, h⟩

theorem ends_eoi (h : m.pc = .eoi) : Ends depth m := .step (.eoi h) (ends_out rfl)

theorem ends_wake (h : m.pc = .wake) : Ends depth m := .step (.wake h) (ends_eoi rfl)

theorem ends_tick (h : m.pc = .tick) : Ends depth m := .step (.tick h) (ends_eoi rfl)

theorem ends_irqstatus (h : m.pc = .irqstatus) : Ends depth m := .step (.irqstatus h) (ends_tick rfl)

theorem lsr_ready (h : m.pc = .lsr) (hne : m.fifo ≠ []) :
    MStep depth m (.access .lsr) { m with pc := .rhr } := by
  have hbit : NS16550_LSR_DR &&& NS16550_LSR_DR ≠ 0#32 := by decide
  have hstep : MStep depth m (.access .lsr) _ := .lsr NS16550_LSR_DR h (iff_of_true hbit hne)
  rwa [if_pos hbit] at hstep

theorem lsr_empty (h : m.pc = .lsr) (he : m.fifo = []) :
    MStep depth m (.access .lsr) { m with pc := .wake } := by
  have hbit : ¬ (0#32 : Word) &&& NS16550_LSR_DR ≠ 0#32 := by decide
  have hstep : MStep depth m (.access .lsr) _ := .lsr 0#32 h (iff_of_false hbit (by simp [he]))
  rwa [if_neg hbit] at hstep

/-- The chip runs dry when no more bytes come. -/
theorem ends_lsr (h : m.pc = .lsr) : Ends depth m := by
  obtain ⟨sys, fifo, ovf, busy, pc⟩ := m
  induction fifo generalizing sys pc with
  | nil => exact .step (lsr_empty h rfl) (ends_wake rfl)
  | cons c cs ih => exact .step (lsr_ready h (List.cons_ne_nil c cs)) (.step (.rhr rfl rfl) (ih _ _ rfl))

theorem ends_rhr (h : m.pc = .rhr) (hne : m.fifo ≠ []) : Ends depth m := by
  obtain ⟨c, cs, hfifo⟩ := List.exists_cons_of_ne_nil hne
  exact .step (.rhr h hfifo) (ends_lsr rfl)

theorem ends_sir (h : m.pc = .sir) (hl : m.line) : Ends depth m := by
  rcases hl with ho | hf
  · exact .step (.sir IRQ_TIMER h (Or.inl ⟨rfl, ho⟩)) (ends_irqstatus afterSir_timer)
  · exact .step (.sir IRQ_UART0 h (Or.inr (Or.inl ⟨rfl, hf⟩))) (ends_lsr afterSir_uart)

theorem At.ends {s : Sys cfg} {bs : List Byte} {n : Nat} (h : At s m bs n) : Ends depth m := by
  cases h with
  | out h => exact ends_out h
  | sir h _ _ hl => exact ends_sir h hl
  | irqstatus h => exact ends_irqstatus h
  | tick h => exact ends_tick h
  | lsr h => exact ends_lsr h
  | rhr h _ _ hne => exact ends_rhr h hne
  | wake h => exact ends_wake h
  | ticked h | filled h => exact ends_eoi h

end

/-! ## The stream from the wire to the readers -/

/-- What the ring takes is part of what the interrupt carries. -/
theorem accepted_carried {a a' : Abs cfg} {l : Label cfg} (hs : AStep a l a') :
    (acceptedBytes l.obs).Sublist (carried l) := by
  have hnil : acceptedBytes l.obs = [] → (acceptedBytes l.obs).Sublist (carried l) :=
    fun h => h ▸ List.nil_sublist _
  cases hs with
  | uartNone _ _ hacc | uartWake _ _ hacc =>
    rw [hacc]
    exact List.take_sublist ..
  | svcGot | readGot => exact hnil (gotObs_bytes ..).1
  | svcSlept | readSlept =>
    refine hnil ?_
    unfold Abs.sleptObs
    split <;> rfl
  | svcQuiet _ ho | svcExit _ _ ho | svcKill _ _ _ _ ho =>
    refine hnil ?_
    rw [acceptedBytes_append, (plain_silent ho).1]
    rfl
  | fault _ _ ho | panic _ ho => exact hnil (plain_silent ho).1
  | timer | spurious | schedIdle | schedNone | schedSwitch | toUser | halted => exact hnil rfl

theorem accepted_sublist {a a' : Abs cfg} {tr : List (Label cfg)} (hr : Run AStep a tr a') :
    (accepted tr).Sublist (tr.flatMap carried) := by
  induction hr with
  | refl => exact List.Sublist.refl _
  | snoc _ hs ih =>
    rw [accepted_append, List.flatMap_append]
    refine ih.append ?_
    simpa [accepted] using accepted_carried hs

/-- Every run of the board is a run of `Sys`, in which no interrupt is spurious or without bytes.
The readers, the ring and the chip hold what has come in, in order, less what found the ring full;
each overflow that raised the flag has been counted, or waits; and what waits in the devices can
interrupt. -/
theorem bbb_refines {depth : Nat} {tr : List (MLabel cfg)} {m : Machine cfg}
    (hr : Run (MStep depth) (boots cfg) tr m) :
    Ends depth m ∧ (m.pc = .out → ∃ tr', Run Step (start cfg) tr' m.sys ∧ (∀ l ∈ tr', Caused l) ∧
      tr'.flatMap carried ++ m.fifo = arrived tr ∧
      (returned tr' ++ m.sys.k.ring ++ m.fifo).Sublist (arrived tr) ∧
      m.sys.k.tick_count + (if m.ovf then 1#32 else 0#32) = BitVec.ofNat 32 (raised tr) ∧
      (m.sys.ctl = .user → m.line → ∃ m', MStep depth m .irq m')) := by
  have hinv : ∃ s tr' bs n, Inv tr m s tr' bs n := by
    refine hr.history (I := fun tr m => ∃ s tr' bs n, Inv tr m s tr' bs n) ?_ ⟨_, _, _, _, inv_start⟩
    rintro tr m l m' ⟨s, tr', bs, n, h⟩ hs
    exact inv_step h hs
  obtain ⟨s, tr', bs, n, h⟩ := hinv
  refine ⟨h.at_.ends, fun hout => ?_⟩
  obtain ⟨rfl, rfl, hb, rfl⟩ := h.at_.inv_out hout
  have hbytes := h.bytes
  rw [List.append_nil] at hbytes
  refine ⟨tr', h.run, h.caused, hbytes, ?_, ?_, fun hu hl => ⟨_, .irq hout hu hb hl⟩⟩
  · have hrun := (run_refines rep_start h.run).2
    have hstream := stream_run hrun
    rw [show (start cfg).abs.ring = [] by rw [start_abs], List.nil_append] at hstream
    rw [← hbytes]
    refine List.Sublist.append ?_ (List.Sublist.refl _)
    exact hstream ▸ accepted_sublist hrun
  · have hcount := run_tick_count h.run
    have hticks := h.ticks
    have hboot : (start cfg).k.tick_count = 0#32 := by
      show (boot cfg).tick_count = 0#32
      rw [boot_eq]
      rfl
    rw [hcount, ← hticks, hboot, BitVec.zero_add, Nat.add_zero]
    cases m.ovf <;> simp [BitVec.ofNat_add]

/-- A second byte, and an overflow, come in while the handler is at work on the first one. -/
theorem bbb_refines_two :
    ∃ tr m, Run (MStep 64) (boots demo) tr m ∧ arrived tr = [0x61#8, 0x62#8] ∧ raised tr = 1 ∧
      m.pc = .out ∧ ∃ tr', Run Step (start demo) tr' m.sys ∧
        tr'.flatMap carried ++ m.fifo = [0x61#8, 0x62#8] := by
  have hone : Run (MStep 64) (boots demo) _ _ :=
    (((((Run.single (.sys rfl (.kernel (by decide)) fun _ h => nomatch h)).snoc
      (.arrive 0x61#8 (by decide))).snoc
      (.irq rfl rfl rfl (Or.inr (by decide)))).snoc
      (.sir IRQ_UART0 rfl (Or.inr (Or.inl ⟨rfl, by decide⟩)))).snoc
      (lsr_ready afterSir_uart (by decide))).snoc (.rhr rfl rfl)
  have htwo : Run (MStep 64) (boots demo) _ _ :=
    ((((((hone.snoc (.arrive 0x62#8 (by decide))).snoc .overflow).snoc (lsr_ready rfl (by decide))).snoc
      (.rhr rfl rfl)).snoc (lsr_empty rfl rfl)).snoc (.wake rfl)).snoc (.eoi rfl)
  obtain ⟨tr', hr, -, hbytes, -⟩ := (bbb_refines htwo).2 rfl
  exact ⟨_, _, htwo, rfl, rfl, rfl, tr', hr, hbytes⟩

end CortexAOS.Drivers.Bbb
