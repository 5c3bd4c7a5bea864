import CortexAOS.Transmit
import CortexAOS.Lib.Wheel

/-!
# The tick source

`timer_init` on both boards. On the BeagleBone the timer's clock is brought up first, and the writes to
its counter registers are posted: each takes effect some clock edges later, and none may be made
while the last one to the same register is under way.
-/

namespace CortexAOS.Drivers

open Lib Lib.Mmio

/-! ## drivers/timer.h -/

structure timer_device where
  base : Word
  clk_hz : Word

/-- `period_us * (dev->clk_hz / 1000000U)` -/
def countOf (dev : timer_device) (period_us : Word) : Word := period_us * (dev.clk_hz / 1000000#32)

/-- What happens to a timer that runs: a clock edge, or its handler's acknowledgement. -/
inductive Beat where
  | edge
  | ack
  deriving DecidableEq

def edges (bs : List Beat) : Nat := bs.countP (· = .edge)

/-! ## platform/bbb/board.c -/

def CM_PER_BASE : Word := 0x44E00000#32
def CM_PER_L4LS_CLKSTCTRL : Word := 0x000#32
def CM_PER_TIMER2_CLKCTRL : Word := 0x080#32
def CLKSTCTRL_SW_WKUP : Word := 0x2#32
def MODULEMODE_DISABLE : Word := 0x0#32
def MODULEMODE_ENABLE : Word := 0x2#32
def IDLEST_SHIFT : Nat := 16
def IDLEST_MASK : Word := 0x3#32 <<< IDLEST_SHIFT
def IDLEST_FUNC : Word := 0x0#32
def IDLEST_DISABLED : Word := 0x3#32
def CM_DPLL_BASE : Word := 0x44E00500#32
def CM_CLKSEL_TIMER2_CLK : Word := 0x08#32
def TIMER2_CLKSEL_M_OSC : Word := 0x1#32
def TIMER2_BASE : Word := 0x48040000#32

/-- `((v & IDLEST_MASK) >> IDLEST_SHIFT) == st` -/
def idlestIs (st v : Word) : Bool := (v &&& IDLEST_MASK) >>> IDLEST_SHIFT == st

def clock_enable_timer2 : Driver Unit := do
  store (CM_PER_BASE + CM_PER_TIMER2_CLKCTRL) MODULEMODE_DISABLE
  await (CM_PER_BASE + CM_PER_TIMER2_CLKCTRL) (idlestIs IDLEST_DISABLED)
  store (CM_DPLL_BASE + CM_CLKSEL_TIMER2_CLK) TIMER2_CLKSEL_M_OSC
  store (CM_PER_BASE + CM_PER_L4LS_CLKSTCTRL) CLKSTCTRL_SW_WKUP
  store (CM_PER_BASE + CM_PER_TIMER2_CLKCTRL) MODULEMODE_ENABLE
  await (CM_PER_BASE + CM_PER_TIMER2_CLKCTRL) (idlestIs IDLEST_FUNC)

def bbb_timer2 : timer_device := ⟨TIMER2_BASE, 24000000#32⟩

/-! ## dmtimer.c -/

def DMT_TIOCP_CFG : Word := 0x010#32
def DMT_IRQSTATUS : Word := 0x028#32
def DMT_IRQENABLE_SET : Word := 0x02C#32
def DMT_TCLR : Word := 0x038#32
def DMT_TCRR : Word := 0x03C#32
def DMT_TLDR : Word := 0x040#32
def DMT_TWPS : Word := 0x048#32
def DMT_TSICR : Word := 0x054#32

def TIOCP_SOFTRESET : Word := 1#32 <<< 0
def TCLR_ST : Word := 1#32 <<< 0
def TCLR_AR : Word := 1#32 <<< 1
def TSICR_POSTED : Word := 1#32 <<< 2
def IRQ_OVF : Word := 1#32 <<< 1
def TWPS_TCLR : Word := 1#32 <<< 0
def TWPS_TCRR : Word := 1#32 <<< 1
def TWPS_TLDR : Word := 1#32 <<< 2

def dmtimer_init (dev : timer_device) (period_us : Word) : Driver Unit := do
  store (dev.base + DMT_TIOCP_CFG) TIOCP_SOFTRESET
  awaitClear (dev.base + DMT_TIOCP_CFG) TIOCP_SOFTRESET
  store (dev.base + DMT_TSICR) TSICR_POSTED
  awaitClear (dev.base + DMT_TWPS) TWPS_TCLR
  store (dev.base + DMT_TCLR) 0#32
  store (dev.base + DMT_IRQSTATUS) 0x7#32
  let reload := 0#32 - countOf dev period_us
  awaitClear (dev.base + DMT_TWPS) TWPS_TLDR
  store (dev.base + DMT_TLDR) reload
  awaitClear (dev.base + DMT_TWPS) TWPS_TCRR
  store (dev.base + DMT_TCRR) reload
  store (dev.base + DMT_IRQENABLE_SET) IRQ_OVF
  awaitClear (dev.base + DMT_TWPS) TWPS_TCLR
  store (dev.base + DMT_TCLR) (TCLR_ST ||| TCLR_AR)

/-! ### The clock and the timer -/

/-- The registers with posted writes. -/
inductive Slot where
  | tclr
  | tcrr
  | tldr
  deriving DecidableEq

def Slot.twps : Slot → Word
  | .tclr => TWPS_TCLR
  | .tcrr => TWPS_TCRR
  | .tldr => TWPS_TLDR

inductive DmtReg where
  | clkctrl
  | clkstctrl
  | clksel
  | tiocp
  | irqstatus
  | irqenable
  | slot (s : Slot)
  | twps
  | tsicr
  deriving DecidableEq

/-- The addresses of the board. -/
def dmtReg (a : Word) : Option DmtReg :=
  if a = CM_PER_BASE + CM_PER_TIMER2_CLKCTRL then some .clkctrl
  else if a = CM_PER_BASE + CM_PER_L4LS_CLKSTCTRL then some .clkstctrl
  else if a = CM_DPLL_BASE + CM_CLKSEL_TIMER2_CLK then some .clksel
  else if a = TIMER2_BASE + DMT_TIOCP_CFG then some .tiocp
  else if a = TIMER2_BASE + DMT_IRQSTATUS then some .irqstatus
  else if a = TIMER2_BASE + DMT_IRQENABLE_SET then some .irqenable
  else if a = TIMER2_BASE + DMT_TCLR then some (.slot .tclr)
  else if a = TIMER2_BASE + DMT_TCRR then some (.slot .tcrr)
  else if a = TIMER2_BASE + DMT_TLDR then some (.slot .tldr)
  else if a = TIMER2_BASE + DMT_TWPS then some .twps
  else if a = TIMER2_BASE + DMT_TSICR then some .tsicr
  else none

structure Clk where
  mode : BitVec 2
  idlest : BitVec 2
  clksel : Word
  clkstctrl : Word

/-- Where the module goes in its mode. -/
def Clk.goal (c : Clk) : Option (BitVec 2) :=
  if c.mode = 0 then some 3 else if c.mode = 2 then some 0 else none

/-- `post` has the writes that are under way, with the number of edges since. -/
structure Dmt where
  clk : Clk
  resetting : Bool
  posted : Bool
  reg : Slot → Word
  post : Slot → Option (Word × Nat)
  irqstatus : Word
  irqenable : Word

namespace Dmt

/-- Clocked, and from the right source. -/
def Functional (d : Dmt) : Prop := d.clk.mode = 2 ∧ d.clk.idlest = 0 ∧ d.clk.clksel = TIMER2_CLKSEL_M_OSC

def counts (d : Dmt) : Prop := d.reg .tclr &&& TCLR_ST ≠ 0#32

instance (d : Dmt) : Decidable d.counts := inferInstanceAs (Decidable (_ ≠ _))

def overflows (d : Dmt) : Prop := d.counts ∧ d.reg .tcrr = 0xFFFFFFFF#32

instance (d : Dmt) : Decidable d.overflows := inferInstanceAs (Decidable (_ ∧ _))

/-- The counter after one more edge. -/
def nextTcrr (d : Dmt) : Word :=
  if d.overflows then if d.reg .tclr &&& TCLR_AR = 0#32 then 0#32 else d.reg .tldr
  else if d.counts then d.reg .tcrr + 1#32
  else d.reg .tcrr

def edge (d : Dmt) : Dmt :=
  { d with
    reg := Function.update d.reg .tcrr d.nextTcrr
    post := fun s => (d.post s).map fun w => (w.1, w.2 + 1)
    irqstatus := if d.overflows then d.irqstatus ||| IRQ_OVF else d.irqstatus }

inductive Own (delay : Nat) : Dmt → Dmt → Prop
  | idlest {d : Dmt} (w : BitVec 2) :
      d.clk.goal ≠ some d.clk.idlest → Own delay d { d with clk := { d.clk with idlest := w } }
  | reset {d : Dmt} : Own delay d { d with resetting := false }
  | land {d : Dmt} {s : Slot} {v : Word} {n : Nat} : d.clk.idlest = 0 → d.post s = some (v, n) →
    Own delay d { d with reg := Function.update d.reg s v, post := Function.update d.post s none }
  | edge {d : Dmt} : d.clk.idlest = 0 → (∀ s v n, d.post s = some (v, n) → n < delay) →
      Own delay d d.edge

def pending (d : Dmt) (s : Slot) : Word := if d.post s = none then 0#32 else s.twps

def readReg (d : Dmt) : DmtReg → Word
  | .clkctrl => d.clk.idlest.setWidth 32 <<< IDLEST_SHIFT ||| d.clk.mode.setWidth 32
  | .tiocp => if d.resetting then TIOCP_SOFTRESET else 0#32
  | .twps => d.pending .tclr ||| d.pending .tcrr ||| d.pending .tldr
  | .slot s => d.reg s
  | .irqstatus => d.irqstatus
  | .irqenable => d.irqenable
  | .clksel => d.clk.clksel
  | .clkstctrl => d.clk.clkstctrl
  | .tsicr => if d.posted then TSICR_POSTED else 0#32

def writeReg (d : Dmt) (v : Word) : DmtReg → Dmt
  | .clkctrl => { d with clk := { d.clk with mode := v.setWidth 2 } }
  | .clkstctrl => { d with clk := { d.clk with clkstctrl := v } }
  | .clksel => { d with clk := { d.clk with clksel := v } }
  | .tiocp =>
    if v &&& TIOCP_SOFTRESET = 0#32 then d
    else ⟨d.clk, true, false, fun _ => 0#32, fun _ => none, 0#32, 0#32⟩
  | .irqstatus => { d with irqstatus := d.irqstatus &&& ~~~v }
  | .irqenable => { d with irqenable := d.irqenable ||| v }
  | .slot s =>
    if d.posted then { d with post := Function.update d.post s (some (v, 0)) }
    else { d with reg := Function.update d.reg s v }
  | .twps => d
  | .tsicr => { d with posted := v &&& TSICR_POSTED ≠ 0#32 }

def device (delay : Nat) : Device Dmt Word Word where
  read d a := ((dmtReg a).map d.readReg).getD 0#32
  after d _ := d
  write d a v := ((dmtReg a).map (d.writeReg v)).getD d
  own := Own delay

/-- The clock source changes only while the module is disabled, the timer is not touched before it
is clocked or while it is being reset, and no posted write runs into the one before it. -/
def Ready (d : Dmt) : DmtReg → Prop
  | .clkctrl | .clkstctrl => True
  | .clksel => d.clk.idlest = 3
  | .tiocp => d.Functional
  | .slot s => d.Functional ∧ d.resetting = false ∧ d.post s = none
  | .irqstatus | .irqenable | .twps | .tsicr => d.Functional ∧ d.resetting = false

def Allowed (d : Dmt) (a _ : Word) : Prop := ∃ r, dmtReg a = some r ∧ d.Ready r

/-! ### Single accesses -/

section

variable {delay : Nat} {a v : Word} {r : DmtReg} {P P' : Dmt → Prop}

theorem read_eq (h : dmtReg a = some r) (d : Dmt) : (device delay).read d a = d.readReg r := by
  simp only [device, h, Option.map_some, Option.getD_some]

theorem store_triple (h : dmtReg a = some r) (hP : Stable (device delay) P)
    (hready : ∀ d, P d → d.Ready r)
    (hstep : ∀ d, P d → P' (d.writeReg v r)) (hP' : Stable (device delay) P') :
    Triple (device delay) P Allowed (store a v) fun _ => P' := by
  refine .store hP (fun d hd => ⟨r, h, hready d hd⟩) (fun d hd => ?_) hP'
  simp only [device, h, Option.map_some, Option.getD_some]
  exact hstep d hd

theorem await_triple {done : Word → Bool} (h : dmtReg a = some r) (hP : Stable (device delay) P)
    (hdone : ∀ d, P d → done (d.readReg r) = true → P' d)
    (hreach : ∀ d, P d → CanReach (device delay) d fun d' => done (d'.readReg r) = true)
    (hP' : Stable (device delay) P') : Triple (device delay) P Allowed (await a done) fun _ => P' := by
  refine .await hP (fun d hd _ => hd) (fun d hd hread => hdone d hd ?_) (fun d hd => ?_) hP'
  · rwa [read_eq h] at hread
  · obtain ⟨d', hr, hread⟩ := hreach d hd
    refine ⟨d', hr, ?_⟩
    show done ((device delay).read d' a) = true
    rw [read_eq h]
    exact hread

end

/-! ### The clock -/

section

variable {delay : Nat}

theorem stable_clk {C : Clk → Prop}
    (h : ∀ c w, C c → c.goal ≠ some c.idlest → C { c with idlest := w }) :
    Stable (device delay) fun d => C d.clk := by
  rintro d d' (_ | _ | _ | _) hd
  case idlest w hgoal => exact h _ w hd hgoal
  all_goals exact hd

theorem idlest_read : ∀ i m j : BitVec 2,
    idlestIs (j.setWidth 32) (i.setWidth 32 <<< IDLEST_SHIFT ||| m.setWidth 32) = true ↔ i = j := by
  decide

/-- The module gets to where its mode leads. -/
theorem idlest_triple {C : Clk → Prop} (hC : Stable (device delay) fun d => C d.clk) (i : BitVec 2)
    (hgoal : ∀ c, C c → c.goal = some i) :
    Triple (device delay) (fun d => C d.clk) Allowed
      (await (CM_PER_BASE + CM_PER_TIMER2_CLKCTRL) (idlestIs (i.setWidth 32))) fun _ d =>
        C d.clk ∧ d.clk.idlest = i := by
  have hread (d : Dmt) : idlestIs (i.setWidth 32) (d.readReg .clkctrl) = true ↔ d.clk.idlest = i :=
    idlest_read ..
  refine await_triple (r := .clkctrl) (by decide) hC (fun d hd hdone => ⟨hd, (hread d).mp hdone⟩)
    (fun d hd => ?_) ?_
  · by_cases h : d.clk.idlest = i
    · exact ⟨d, .refl, (hread d).mpr h⟩
    · refine ⟨_, .single (.idlest i ?_), (hread _).mpr rfl⟩
      rw [hgoal _ hd]
      simpa using fun he => h he.symm
  · refine stable_clk (C := fun c => C c ∧ c.idlest = i) fun c w hc hne => ?_
    exact absurd (hgoal c hc.1 ▸ hc.2 ▸ rfl) hne

theorem functional_stable : Stable (device delay) Functional := by
  refine stable_clk (C := fun c => c.mode = 2 ∧ c.idlest = 0 ∧ c.clksel = TIMER2_CLKSEL_M_OSC)
    fun c w hc hne => ?_
  refine absurd ?_ hne
  rw [Clk.goal, hc.1, hc.2.1]
  decide

theorem clock_triple :
    Triple (device delay) (fun _ => True) Allowed clock_enable_timer2 fun _ d => d.Functional := by
  have hmode (m : BitVec 2) : Stable (device delay) fun d => d.clk.mode = m :=
    stable_clk (C := fun c => c.mode = m) fun c w hc _ => hc
  have hsel : Stable (device delay) fun d => d.clk.mode = 0 ∧ d.clk.clksel = TIMER2_CLKSEL_M_OSC :=
    stable_clk (C := fun c => c.mode = 0 ∧ c.clksel = TIMER2_CLKSEL_M_OSC) fun c w hc _ => hc
  have hon : Stable (device delay) fun d => d.clk.mode = 2 ∧ d.clk.clksel = TIMER2_CLKSEL_M_OSC :=
    stable_clk (C := fun c => c.mode = 2 ∧ c.clksel = TIMER2_CLKSEL_M_OSC) fun c w hc _ => hc
  have hoff : Stable (device delay) fun d => d.clk.mode = 0 ∧ d.clk.idlest = 3 := by
    refine stable_clk (C := fun c => c.mode = 0 ∧ c.idlest = 3) fun c w hc hne => absurd ?_ hne
    rw [Clk.goal, hc.1, hc.2]
    decide
  have hdisable : Triple (device delay) (fun _ => True) Allowed
      (store (CM_PER_BASE + CM_PER_TIMER2_CLKCTRL) MODULEMODE_DISABLE) fun _ d => d.clk.mode = 0 :=
    store_triple (r := .clkctrl) (by decide) (fun _ _ _ h => h) (fun _ _ => trivial)
      (fun _ _ => rfl) (hmode 0)
  have hdisabled :=
    idlest_triple (C := fun c => c.mode = 0) (hmode 0) 3 fun c hc => by rw [Clk.goal, if_pos hc]
  have hselect : Triple (device delay) (fun d => d.clk.mode = 0 ∧ d.clk.idlest = 3) Allowed
      (store (CM_DPLL_BASE + CM_CLKSEL_TIMER2_CLK) TIMER2_CLKSEL_M_OSC) fun _ d =>
        d.clk.mode = 0 ∧ d.clk.clksel = TIMER2_CLKSEL_M_OSC :=
    store_triple (r := .clksel) (by decide) hoff (fun _ hd => hd.2) (fun _ hd => ⟨hd.1, rfl⟩) hsel
  have hwake :
      Triple (device delay) (fun d => d.clk.mode = 0 ∧ d.clk.clksel = TIMER2_CLKSEL_M_OSC) Allowed
      (store (CM_PER_BASE + CM_PER_L4LS_CLKSTCTRL) CLKSTCTRL_SW_WKUP) fun _ d =>
        d.clk.mode = 0 ∧ d.clk.clksel = TIMER2_CLKSEL_M_OSC :=
    store_triple (r := .clkstctrl) (by decide) hsel (fun _ _ => trivial) (fun _ hd => hd) hsel
  have henable :
      Triple (device delay) (fun d => d.clk.mode = 0 ∧ d.clk.clksel = TIMER2_CLKSEL_M_OSC) Allowed
      (store (CM_PER_BASE + CM_PER_TIMER2_CLKCTRL) MODULEMODE_ENABLE) fun _ d =>
        d.clk.mode = 2 ∧ d.clk.clksel = TIMER2_CLKSEL_M_OSC :=
    store_triple (r := .clkctrl) (by decide) hsel (fun _ _ => trivial) (fun _ hd => ⟨rfl, hd.2⟩) hon
  have hgoal : ∀ c : Clk, c.mode = 2 ∧ c.clksel = TIMER2_CLKSEL_M_OSC → c.goal = some 0 := by
    intro c hc
    rw [Clk.goal, hc.1]
    decide
  have henabled := idlest_triple hon 0 hgoal
  refine (hdisable.seq (hdisabled.seq (hselect.seq (hwake.seq (henable.seq henabled))))).post
    fun _ d hd => ?_
  exact ⟨hd.1.1, hd.2, hd.1.2⟩

end

/-! ### Posted writes -/

/-- The register holds `new`, or is about to, and holds `old` until then. -/
def Slotted (d : Dmt) (s : Slot) (old new : Word) : Prop :=
  (d.post s = none → d.reg s = new) ∧ ∀ v n, d.post s = some (v, n) → v = new ∧ d.reg s = old

/-- Clocked, out of reset, and posting its writes. -/
def Up (d : Dmt) : Prop := d.Functional ∧ d.resetting = false ∧ d.posted = true

/-- After the reset, with the writes `f` made so far. -/
structure Setup (f : Slot → Word) (d : Dmt) : Prop where
  up : d.Up
  slot : ∀ s, d.Slotted s 0#32 (f s)

section

variable {delay : Nat} {d d' : Dmt}

theorem edge_tcrr (d : Dmt) : d.edge.reg .tcrr = d.nextTcrr := by
  unfold edge
  dsimp only
  rw [Function.update_self]

theorem edge_other (d : Dmt) {s : Slot} (h : s ≠ .tcrr) : d.edge.reg s = d.reg s :=
  Function.update_of_ne h ..

theorem edge_post_none (d : Dmt) (s : Slot) : d.edge.post s = none ↔ d.post s = none :=
  Option.map_eq_none_iff

theorem edge_post_some (d : Dmt) (s : Slot) (v : Word) (n : Nat) :
    d.edge.post s = some (v, n) ↔ ∃ m, d.post s = some (v, m) ∧ n = m + 1 := by
  unfold edge
  dsimp only
  rw [Option.map_eq_some_iff]
  constructor
  · rintro ⟨w, hw, he⟩
    cases he
    exact ⟨w.2, hw, rfl⟩
  · rintro ⟨m, hm, rfl⟩
    exact ⟨(v, m), hm, rfl⟩

theorem Up.own (h : d.Up) (ho : Own delay d d') : d'.Up := by
  refine ⟨functional_stable d d' ho h.1, ?_⟩
  cases ho with
  | idlest w hgoal => exact h.2
  | reset => exact ⟨rfl, h.2.2⟩
  | land hclk hpost => exact h.2
  | edge hclk hdelay => exact h.2

/-- What the device does to a register that does not count. -/
theorem Slotted.own {s : Slot} {old new : Word} (h : d.Slotted s old new) (hs : s = .tcrr → ¬ d.counts)
    (ho : Own delay d d') : d'.Slotted s old new := by
  cases ho with
  | idlest w hgoal => exact h
  | reset => exact h
  | @land s' v n hclk hpost =>
    by_cases he : s = s'
    · subst he
      refine ⟨fun _ => ?_, fun v' n' hv => ?_⟩
      · exact (Function.update_self ..).trans (h.2 v n hpost).1
      · simp [Function.update_self] at hv
    · unfold Slotted
      simp only [Function.update_of_ne he]
      exact h
  | edge hclk hdelay =>
    have hreg : d.edge.reg s = d.reg s := by
      by_cases he : s = .tcrr
      · subst he
        have hnot := hs rfl
        rw [edge_tcrr, nextTcrr, if_neg fun ho => hnot ho.1, if_neg hnot]
      · exact edge_other d he
    refine ⟨fun hnone => ?_, fun v n hsome => ?_⟩
    · rw [hreg]
      exact h.1 ((edge_post_none d s).mp hnone)
    · obtain ⟨m, hm, -⟩ := (edge_post_some d s v n).mp hsome
      rw [hreg]
      exact h.2 v m hm

/-- As long as TCLR is 0, the timer stands still. -/
theorem Setup.still {f : Slot → Word} (hf : f .tclr = 0#32) (h : Setup f d) : ¬ d.counts := by
  have hzero : d.reg .tclr = 0#32 := by
    rcases hpost : d.post .tclr with _ | ⟨v, n⟩
    · exact ((h.slot .tclr).1 hpost).trans hf
    · exact ((h.slot .tclr).2 v n hpost).2
  unfold counts
  rw [hzero]
  decide

theorem setup_stable {f : Slot → Word} (hf : f .tclr = 0#32) :
    Stable (device delay) (Setup f) := fun _ _ ho h =>
  ⟨h.up.own ho, fun s => (h.slot s).own (fun _ => h.still hf) ho⟩

theorem settled_stable (s : Slot) : Stable (device delay) fun d => d.post s = none := by
  rintro d d' (_ | _ | ⟨-, hpost⟩ | _) hd
  case idlest => exact hd
  case reset => exact hd
  case land s' v n =>
    show Function.update d.post s' none s = none
    by_cases he : s = s'
    · rw [he, Function.update_self]
    · rw [Function.update_of_ne he]
      exact hd
  case edge => exact (edge_post_none d s).mpr hd

theorem twps_read (d : Dmt) (s : Slot) : d.readReg .twps &&& s.twps = 0#32 ↔ d.post s = none := by
  unfold readReg pending
  cases s <;> by_cases h1 : d.post .tclr = none <;> by_cases h2 : d.post .tcrr = none <;>
    by_cases h3 : d.post .tldr = none <;> simp [h1, h2, h3, Slot.twps, TWPS_TCLR, TWPS_TCRR, TWPS_TLDR]

/-- The loop before a posted write. -/
theorem twps_triple {P : Dmt → Prop} (hP : Stable (device delay) P) (hup : ∀ d, P d → d.Up) (s : Slot) :
    Triple (device delay) P Allowed (awaitClear (TIMER2_BASE + DMT_TWPS) s.twps) fun _ d =>
      P d ∧ d.post s = none := by
  refine await_triple (r := .twps) (by decide) hP (fun d hd hdone => ⟨hd, ?_⟩) (fun d hd => ?_)
    (hP.and _ (settled_stable s))
  · exact (twps_read d s).mp (beq_iff_eq.mp hdone)
  · rcases hpost : d.post s with _ | ⟨v, n⟩
    · exact ⟨d, .refl, beq_iff_eq.mpr ((twps_read d s).mpr hpost)⟩
    · refine ⟨_, .single (.land (hup d hd).1.2.1 hpost), beq_iff_eq.mpr ((twps_read _ s).mpr ?_)⟩
      exact Function.update_self ..

end

/-! ### dmtimer_init -/

/-- Until TCRR is in, the counter has only just begun at 0; until TLDR is in, it is still near its
start. -/
structure Counter (reload : Word) (d : Dmt) : Prop where
  begun : ∀ v n, d.post .tcrr = some (v, n) → v = reload ∧ (d.reg .tcrr).toNat ≤ n
  above : d.post .tcrr = none → reload.toNat ≤ (d.reg .tcrr).toNat
  near : ∀ v n, d.post .tldr = some (v, n) → d.post .tcrr = none → (d.reg .tcrr).toNat ≤ reload.toNat + n

/-- The timer runs, or is about to, from `reload` to `reload`, and its overflow interrupts. -/
structure Running (reload : Word) (d : Dmt) : Prop where
  up : d.Up
  irqenable : d.irqenable &&& IRQ_OVF ≠ 0#32
  tclr : d.Slotted .tclr 0#32 (TCLR_ST ||| TCLR_AR)
  tldr : d.Slotted .tldr 0#32 reload
  counter : d.Counter reload

section

variable {delay : Nat} {d d' : Dmt} {reload : Word}

theorem Counter.land {s : Slot} {v : Word} {n : Nat} (h : d.Counter reload)
    (hpost : d.post s = some (v, n)) :
    Counter reload
      { d with reg := Function.update d.reg s v, post := Function.update d.post s none } := by
  cases s with
  | tclr => exact ⟨h.begun, h.above, h.near⟩
  | tcrr =>
    have hv := (h.begun v n hpost).1
    refine ⟨fun v' n' hv' => ?_, fun _ => ?_, fun v' n' _ _ => ?_⟩
    · simp at hv'
    · simp [hv]
    · simp [hv]
  | tldr =>
    refine ⟨h.begun, h.above, fun v' n' hv' => ?_⟩
    simp at hv'

theorem Running.clear {v : Word} {n : Nat} (h : Running reload d)
    (hs : d.post .tclr = some (v, n)) : ¬ d.counts := by
  unfold counts
  rw [(h.tclr.2 v n hs).2]
  decide

/-- The counter never overflows before both of its registers are in. -/
theorem Running.next (h : Running reload d) (hdelay : ∀ s v n, d.post s = some (v, n) → n < delay)
    (hcount : reload.toNat + delay < 2 ^ 32 - 1) :
    (d.overflows ∧ d.nextTcrr = reload ∧ d.post .tcrr = none ∧ d.post .tldr = none) ∨
      d.nextTcrr.toNat = (d.reg .tcrr).toNat + 1 ∨ d.nextTcrr = d.reg .tcrr := by
  unfold nextTcrr
  by_cases ho : d.overflows
  · have hmax : (d.reg .tcrr).toNat = 2 ^ 32 - 1 := by rw [ho.2]; rfl
    have hc : d.post .tcrr = none := by
      rcases hpost : d.post .tcrr with _ | ⟨v, n⟩
      · rfl
      · have h1 := (h.counter.begun v n hpost).2
        have h2 := hdelay .tcrr v n hpost
        omega
    have hl : d.post .tldr = none := by
      rcases hpost : d.post .tldr with _ | ⟨v, n⟩
      · rfl
      · have h1 := h.counter.near v n hpost hc
        have h2 := hdelay .tldr v n hpost
        omega
    have htclr : d.reg .tclr = TCLR_ST ||| TCLR_AR := by
      rcases hpost : d.post .tclr with _ | ⟨v, n⟩
      · exact h.tclr.1 hpost
      · exact absurd ho.1 (h.clear hpost)
    rw [if_pos ho, htclr, if_neg (by decide)]
    exact Or.inl ⟨ho, h.tldr.1 hl, hc, hl⟩
  · rw [if_neg ho]
    split
    · rename_i hcounts
      refine Or.inr (Or.inl ?_)
      have hne : d.reg .tcrr ≠ 0xFFFFFFFF#32 := fun he => ho ⟨hcounts, he⟩
      have hlt : (d.reg .tcrr).toNat ≠ 2 ^ 32 - 1 := fun he => hne (BitVec.eq_of_toNat_eq he)
      rw [BitVec.toNat_add]
      have := (d.reg .tcrr).isLt
      simp only [BitVec.toNat_ofNat]
      omega
    · exact Or.inr (Or.inr rfl)

theorem Running.counter_edge (h : Running reload d)
    (hdelay : ∀ s v n, d.post s = some (v, n) → n < delay)
    (hcount : reload.toNat + delay < 2 ^ 32 - 1) : d.edge.Counter reload := by
  have hnext := h.next hdelay hcount
  refine ⟨fun v n hv => ?_, fun hnone => ?_, fun v n hv hnone => ?_⟩
  · obtain ⟨m, hm, rfl⟩ := (edge_post_some d .tcrr v n).mp hv
    obtain ⟨hval, hle⟩ := h.counter.begun v m hm
    rw [edge_tcrr]
    refine ⟨hval, ?_⟩
    rcases hnext with ⟨-, -, hc, -⟩ | hn | hn
    · rw [hc] at hm
      cases hm
    · omega
    · rw [hn]
      omega
  · have habove := h.counter.above ((edge_post_none d .tcrr).mp hnone)
    rw [edge_tcrr]
    rcases hnext with ⟨-, hn, -, -⟩ | hn | hn
    · rw [hn]
    · omega
    · rw [hn]
      exact habove
  · obtain ⟨m, hm, rfl⟩ := (edge_post_some d .tldr v n).mp hv
    have hnear := h.counter.near v m hm ((edge_post_none d .tcrr).mp hnone)
    rw [edge_tcrr]
    rcases hnext with ⟨-, -, -, hl⟩ | hn | hn
    · rw [hl] at hm
      cases hm
    · omega
    · rw [hn]
      omega

theorem running_stable (hcount : reload.toNat + delay < 2 ^ 32 - 1) :
    Stable (device delay) (Running reload) := by
  intro d d' ho h
  have hup := h.up.own ho
  have htclr := h.tclr.own (fun he => nomatch he) ho
  have htldr := h.tldr.own (fun he => nomatch he) ho
  cases ho with
  | idlest w hgoal =>
      exact ⟨hup, h.irqenable, htclr, htldr, h.counter.begun, h.counter.above, h.counter.near⟩
  | reset => exact ⟨hup, h.irqenable, htclr, htldr, h.counter.begun, h.counter.above, h.counter.near⟩
  | land hclk hpost => exact ⟨hup, h.irqenable, htclr, htldr, h.counter.land hpost⟩
  | edge hclk hdelay => exact ⟨hup, h.irqenable, htclr, htldr, h.counter_edge hdelay hcount⟩

end

/-- After the soft reset. -/
def Wiped (d : Dmt) : Prop := d.Functional ∧ ∀ s, d.Slotted s 0#32 0#32 ∧ d.post s = none

section

variable {delay : Nat} {d : Dmt} {v : Word}

theorem wiped_stable : Stable (device delay) Wiped := by
  intro d d' ho h
  have hstill : ¬ d.counts := by
    unfold counts
    rw [(h.2 .tclr).1.1 (h.2 .tclr).2]
    decide
  exact ⟨functional_stable d d' ho h.1, fun s =>
    ⟨(h.2 s).1.own (fun _ => hstill) ho, settled_stable s d d' ho (h.2 s).2⟩⟩

/-- A posted write to a register that stands at 0, with none under way. -/
theorem write_slot (hup : d.Up) (s : Slot) :
    d.writeReg v (.slot s) = { d with post := Function.update d.post s (some (v, 0)) } := by
  unfold writeReg
  dsimp only
  rw [if_pos hup.2.2]

theorem Slotted.posted {s : Slot} (h : d.Slotted s 0#32 0#32) (hnone : d.post s = none) :
    Slotted { d with post := Function.update d.post s (some (v, 0)) } s 0#32 v := by
  refine ⟨fun hn => ?_, fun v' n hv => ?_⟩
  · simp at hn
  · simp only [Function.update_self, Option.some.injEq, Prod.mk.injEq] at hv
    exact ⟨hv.1.symm, h.1 hnone⟩

theorem Slotted.other {s s' : Slot} {old new : Word} (h : d.Slotted s old new) (hne : s ≠ s') :
    Slotted { d with post := Function.update d.post s' (some (v, 0)) } s old new := by
  unfold Slotted
  simp only [Function.update_of_ne hne]
  exact h

theorem out_stable : Stable (device delay) fun d => d.resetting = false := by
  rintro d d' (_ | _ | _ | _) hd
  case reset => rfl
  all_goals exact hd

theorem enable_stable : Stable (device delay) fun d => d.irqenable &&& IRQ_OVF ≠ 0#32 := by
  rintro d d' (_ | _ | _ | _) hd
  all_goals exact hd

theorem reset_triple : Triple (device delay) Functional Allowed (do
    store (TIMER2_BASE + DMT_TIOCP_CFG) TIOCP_SOFTRESET
    awaitClear (TIMER2_BASE + DMT_TIOCP_CFG) TIOCP_SOFTRESET) fun _ d =>
      d.Wiped ∧ d.resetting = false := by
  have hwipe :
      Triple (device delay) Functional Allowed
        (store (TIMER2_BASE + DMT_TIOCP_CFG) TIOCP_SOFTRESET) fun _ => Wiped :=
    store_triple (r := .tiocp) (by decide) functional_stable (fun _ hd => hd)
      (fun d hd => ⟨hd, fun s => ⟨⟨fun _ => rfl, fun v n hv => nomatch hv⟩, rfl⟩⟩) wiped_stable
  refine hwipe.seq
    (await_triple (r := .tiocp) (by decide) wiped_stable (fun d hd hdone => ⟨hd, ?_⟩) (fun d hd => ?_)
    (wiped_stable.and _ out_stable))
  · rcases hr : d.resetting with _ | _
    · rfl
    · simp [readReg, hr, TIOCP_SOFTRESET] at hdone
  · exact ⟨_, .single .reset, by simp [readReg]⟩

theorem tsicr_triple : Triple (device delay) (fun d => d.Wiped ∧ d.resetting = false) Allowed
    (store (TIMER2_BASE + DMT_TSICR) TSICR_POSTED) fun _ => Setup fun _ => 0#32 := by
  refine store_triple (r := .tsicr) (by decide) (wiped_stable.and _ out_stable)
    (fun d hd => ⟨hd.1.1, hd.2⟩) (fun d hd => ?_) (setup_stable rfl)
  have hposted : (d.writeReg TSICR_POSTED .tsicr).posted = true := by
    show decide (TSICR_POSTED &&& TSICR_POSTED ≠ 0#32) = true
    decide
  exact ⟨⟨hd.1.1, hd.2, hposted⟩, fun s => (hd.1.2 s).1⟩

/-- A posted write, with the loop that comes before it. -/
theorem slot_triple {f : Slot → Word} (hf : f .tclr = 0#32) {s : Slot} {a : Word}
    (ha : dmtReg a = some (.slot s)) (hs : f s = 0#32) (hf' : Function.update f s v .tclr = 0#32) :
    Triple (device delay) (Setup f) Allowed
      (do awaitClear (TIMER2_BASE + DMT_TWPS) s.twps; store a v) fun _ =>
      Setup (Function.update f s v) := by
  refine (twps_triple (setup_stable hf) (fun d hd => hd.up) s).seq
    (store_triple ha ((setup_stable hf).and _ (settled_stable s)) (fun d hd => ?_) (fun d hd => ?_)
      (setup_stable hf'))
  · exact ⟨hd.1.up.1, hd.1.up.2.1, hd.2⟩
  · rw [write_slot hd.1.up]
    refine ⟨hd.1.up, fun s' => ?_⟩
    by_cases he : s' = s
    · subst he
      rw [Function.update_self]
      exact Slotted.posted (hs ▸ hd.1.slot s') hd.2
    · rw [Function.update_of_ne he]
      exact (hd.1.slot s').other he

/-- The last posted write sets the timer going. -/
theorem start_triple {f : Slot → Word} {reload : Word} (hf : f .tclr = 0#32) (hl : f .tldr = reload)
    (hc : f .tcrr = reload) (hcount : reload.toNat + delay < 2 ^ 32 - 1) :
    Triple (device delay) (fun d => Setup f d ∧ d.irqenable &&& IRQ_OVF ≠ 0#32) Allowed (do
      awaitClear (TIMER2_BASE + DMT_TWPS) TWPS_TCLR
      store (TIMER2_BASE + DMT_TCLR) (TCLR_ST ||| TCLR_AR)) fun _ => Running reload := by
  have hready : Stable (device delay) fun d => Setup f d ∧ d.irqenable &&& IRQ_OVF ≠ 0#32 :=
    (setup_stable hf).and _ enable_stable
  refine (twps_triple hready (fun d hd => hd.1.up) .tclr).seq
    (store_triple (r := .slot .tclr) (by decide)
    (hready.and _ (settled_stable _)) (fun d hd => ?_) (fun d hd => ?_) (running_stable hcount))
  · exact ⟨hd.1.1.up.1, hd.1.1.up.2.1, hd.2⟩
  · obtain ⟨⟨hset, hen⟩, hnone⟩ := hd
    rw [write_slot hset.up]
    have hclr := hset.slot .tclr
    have hldr := hset.slot .tldr
    have hcrr := hset.slot .tcrr
    rw [hf] at hclr
    rw [hl] at hldr
    rw [hc] at hcrr
    refine ⟨hset.up, hen, hclr.posted hnone, hldr.other (by decide), fun v n hv => ?_, fun hn => ?_,
      fun v n _ hn => ?_⟩
    · obtain ⟨hval, hreg⟩ := hcrr.2 v n hv
      exact ⟨hval, hreg ▸ Nat.zero_le n⟩
    · exact (hcrr.1 hn).symm ▸ le_rfl
    · exact (hcrr.1 hn).symm ▸ Nat.le_add_right ..

theorem init_triple {dev : timer_device} (hbase : dev.base = TIMER2_BASE) (period_us : Word)
    (hcount : (0#32 - countOf dev period_us).toNat + delay < 2 ^ 32 - 1) :
    Triple (device delay) Functional Allowed (dmtimer_init dev period_us) fun _ =>
      Running (0#32 - countOf dev period_us) := by
  unfold dmtimer_init
  rw [hbase]
  generalize 0#32 - countOf dev period_us = reload at hcount ⊢
  let f : Slot → Word := Function.update (fun _ => 0#32) .tclr 0#32
  let g : Slot → Word := Function.update (Function.update f .tldr reload) .tcrr reload
  have hstatus :
      Triple (device delay) (Setup f) Allowed
        (store (TIMER2_BASE + DMT_IRQSTATUS) 0x7#32) fun _ => Setup f :=
    store_triple (r := .irqstatus) (by decide) (setup_stable rfl) (fun d hd => ⟨hd.up.1, hd.up.2.1⟩)
      (fun d hd => ⟨hd.up, hd.slot⟩) (setup_stable rfl)
  have henable :
    Triple (device delay) (Setup g) Allowed (store (TIMER2_BASE + DMT_IRQENABLE_SET) IRQ_OVF) fun _ d =>
      Setup g d ∧ d.irqenable &&& IRQ_OVF ≠ 0#32 := by
    refine store_triple (r := .irqenable) (by decide) (setup_stable rfl)
      (fun d hd => ⟨hd.up.1, hd.up.2.1⟩) (fun d hd => ?_) ((setup_stable rfl).and _ enable_stable)
    refine ⟨⟨hd.up, hd.slot⟩, ?_⟩
    show (d.irqenable ||| IRQ_OVF) &&& IRQ_OVF ≠ 0#32
    rw [BitVec.and_or_distrib_right, BitVec.and_self]
    intro h
    have hbit := congrArg (fun w : Word => w.getLsbD 1) h
    simp [IRQ_OVF] at hbit
  have hclr : Triple (device delay) _ Allowed _ fun _ => Setup f :=
    slot_triple (s := .tclr) (a := TIMER2_BASE + DMT_TCLR) (v := 0#32) rfl (by decide) rfl rfl
  have hldr : Triple (device delay) _ Allowed _ fun _ => Setup (Function.update f .tldr reload) :=
    slot_triple (s := .tldr) (a := TIMER2_BASE + DMT_TLDR) (v := reload) rfl (by decide) rfl rfl
  have hcrr : Triple (device delay) _ Allowed _ fun _ => Setup g :=
    slot_triple (s := .tcrr) (a := TIMER2_BASE + DMT_TCRR) (v := reload) rfl (by decide) rfl rfl
  exact reset_triple.seq <| tsicr_triple.seq <| hclr.seq <| hstatus.seq <| hldr.seq <| hcrr.seq <|
    henable.seq <| start_triple rfl rfl rfl hcount

end

/-! ### The period -/

def beat (d : Dmt) : Beat → Dmt
  | .edge => d.edge
  | .ack => d.writeReg IRQ_OVF .irqstatus

/-- All writes are in. -/
def Runs (reload : Word) (d : Dmt) : Prop := Running reload d ∧ ∀ s, d.post s = none

def overflowsAt (d : Dmt) (b : Beat) : Bool := b = .edge ∧ d.overflows

/-- The device by itself, over at least so many edges. -/
inductive Elapsed (delay : Nat) (d : Dmt) : Nat → Dmt → Prop
  | refl : Elapsed delay d 0 d
  | edge {n : Nat} {d' : Dmt} : Elapsed delay d n d' → d'.clk.idlest = 0 →
    (∀ s v k, d'.post s = some (v, k) → k < delay) → Elapsed delay d (n + 1) d'.edge
  | own {n : Nat} {d' d'' : Dmt} : Elapsed delay d n d' → Own delay d' d'' → Elapsed delay d n d''

section

variable {delay n : Nat} {reload : Word} {d d' : Dmt}

theorem Elapsed.path (h : Elapsed delay d n d') : Relation.ReflTransGen (Own delay) d d' := by
  induction h with
  | refl => exact .refl
  | edge _ hclk hdelay ih => exact ih.tail (.edge hclk hdelay)
  | own _ ho ih => exact ih.tail ho

/-- What is under way has been so for all of these edges, as nothing new has been written. -/
theorem Elapsed.pending (h : Elapsed delay d n d') {s : Slot} {v : Word} {k : Nat}
    (hs : d'.post s = some (v, k)) : n ≤ k ∧ n ≤ delay := by
  induction h generalizing v k with
  | refl => exact ⟨Nat.zero_le _, Nat.zero_le _⟩
  | edge _ _ hdelay ih =>
    obtain ⟨m, hm, rfl⟩ := (edge_post_some _ s v k).mp hs
    have hle := (ih hm).1
    have hlt := hdelay s v m hm
    omega
  | own _ ho ih =>
    cases ho with
    | idlest w hgoal => exact ih hs
    | reset => exact ih hs
    | @land s' v' k' hclk hpost =>
      by_cases he : s = s'
      · subst he
        simp [Function.update_self] at hs
      · exact ih ((Function.update_of_ne he ..).symm.trans hs)
    | edge hclk hdelay =>
      obtain ⟨m, hm, rfl⟩ := (edge_post_some _ s v k).mp hs
      obtain ⟨h1, h2⟩ := ih hm
      exact ⟨by omega, h2⟩

/-- After more than `delay` edges all writes are in. -/
theorem Running.runs (hcount : reload.toNat + delay < 2 ^ 32 - 1) (h : Running reload d)
    (he : Elapsed delay d n d') (hn : delay < n) : Runs reload d' := by
  refine ⟨(running_stable hcount).star _ he.path h, fun s => ?_⟩
  rcases hpost : d'.post s with _ | ⟨v, k⟩
  · rfl
  · have hle := (he.pending hpost).2
    omega

theorem Runs.tclr (h : Runs reload d) : d.reg .tclr = TCLR_ST ||| TCLR_AR := h.1.tclr.1 (h.2 .tclr)

theorem Runs.counts (h : Runs reload d) : d.counts := by
  unfold Dmt.counts
  rw [h.tclr]
  decide

theorem Runs.overflows_iff (h : Runs reload d) :
    d.overflows ↔ (d.reg .tcrr).toNat - reload.toNat + 1 = 2 ^ 32 - reload.toNat := by
  have habove := h.1.counter.above (h.2 .tcrr)
  have hlt := (d.reg .tcrr).isLt
  have hmax : d.reg .tcrr = 0xFFFFFFFF#32 ↔ (d.reg .tcrr).toNat = 2 ^ 32 - 1 :=
    ⟨fun he => by rw [he]; rfl, fun he => BitVec.eq_of_toNat_eq he⟩
  unfold overflows
  rw [hmax, and_iff_right h.counts]
  omega

theorem Runs.edge (hcount : reload.toNat < 2 ^ 32 - 1) (h : Runs reload d) : Runs reload d.edge := by
  have hnone (s : Slot) (v : Word) (n : Nat) (hv : d.post s = some (v, n)) : n < 0 := by
    rw [h.2 s] at hv
    cases hv
  exact ⟨running_stable hcount d _ (.edge h.1.up.1.2.1 hnone) h.1, fun s =>
    (edge_post_none d s).mpr (h.2 s)⟩

theorem Runs.ack (h : Runs reload d) : Runs reload (d.beat .ack) :=
  ⟨⟨h.1.up, h.1.irqenable, h.1.tclr, h.1.tldr, h.1.counter.begun, h.1.counter.above,
    h.1.counter.near⟩, h.2⟩

theorem Runs.next (h : Runs reload d) : d.nextTcrr.toNat - reload.toNat =
    if (d.reg .tcrr).toNat - reload.toNat + 1 = 2 ^ 32 - reload.toNat then 0
    else (d.reg .tcrr).toNat - reload.toNat + 1 := by
  have habove := h.1.counter.above (h.2 .tcrr)
  have hlt := (d.reg .tcrr).isLt
  have hiff := h.overflows_iff
  unfold nextTcrr
  split
  · rename_i ho
    rw [if_pos (hiff.mp ho), h.tclr, if_neg (by decide), h.1.tldr.1 (h.2 .tldr), Nat.sub_self]
  · rename_i ho
    have hne := mt hiff.mpr ho
    rw [if_neg hne, if_pos h.counts, BitVec.toNat_add]
    simp only [BitVec.toNat_ofNat]
    omega

/-- A running timer is a wheel of as many places as it counts edges from one overflow to the next. -/
theorem rounds (hcount : reload.toNat < 2 ^ 32 - 1) :
    Wheel.Rounds beat overflowsAt (2 ^ 32 - reload.toNat) (Runs reload)
    (fun d => (d.reg .tcrr).toNat - reload.toNat) (· = .edge) where
  keeps d b h := by
    cases b with
    | edge => exact h.edge hcount
    | ack => exact h.ack
  below d h := by
    have habove := h.1.counter.above (h.2 .tcrr)
    have hlt := (d.reg .tcrr).isLt
    omega
  goes d b h := by
    cases b with
    | edge =>
      show (d.edge.reg .tcrr).toNat - reload.toNat = _
      rw [edge_tcrr, h.next]
      rfl
    | ack => rfl
  wraps d b h := by
    unfold overflowsAt
    rw [decide_eq_true_iff, decide_eq_true_iff, h.overflows_iff]

end

end Dmt

/-! ## sp804.c -/

def SP804_LOAD : Word := 0x00#32
def SP804_CTRL : Word := 0x08#32
def SP804_INTCLR : Word := 0x0C#32
def SP804_CTRL_INTEN : Word := 1#32 <<< 5
def SP804_CTRL_PERIODIC : Word := 1#32 <<< 6
def SP804_CTRL_ENABLE : Word := 1#32 <<< 7
def SP804_CTRL_32BIT : Word := 1#32 <<< 1

def sp804_init (dev : timer_device) (period_us : Word) : Driver Unit := do
  let reload := countOf dev period_us
  store (dev.base + SP804_CTRL) 0#32
  store (dev.base + SP804_LOAD) reload
  store (dev.base + SP804_CTRL)
    (SP804_CTRL_ENABLE ||| SP804_CTRL_PERIODIC ||| SP804_CTRL_INTEN ||| SP804_CTRL_32BIT)

def qemu_timer0 : timer_device := ⟨0x10011000#32, 1000000#32⟩

/-- `ris` is the raw interrupt. -/
structure Sp804 where
  ctrl : Word
  load : Word
  value : Word
  ris : Bool

namespace Sp804

def enabled (d : Sp804) : Prop := d.ctrl &&& SP804_CTRL_ENABLE ≠ 0#32

instance (d : Sp804) : Decidable d.enabled := inferInstanceAs (Decidable (_ ≠ _))

/-- The counter comes to 0 and is loaded again. -/
def expires (d : Sp804) : Prop := d.enabled ∧ d.value.toNat ≤ 1

instance (d : Sp804) : Decidable d.expires := inferInstanceAs (Decidable (_ ∧ _))

/-- Where the counter begins again: at LOAD, or at all ones if the timer runs freely, and from 16
bits of it if it is not a 32-bit one. -/
def again (d : Sp804) : Word :=
  let v := if d.ctrl &&& SP804_CTRL_PERIODIC = 0#32 then 0xFFFFFFFF#32 else d.load
  if d.ctrl &&& SP804_CTRL_32BIT = 0#32 then v &&& 0xFFFF#32 else v

def edge (d : Sp804) : Sp804 :=
  if d.expires then { d with value := d.again, ris := true }
  else if d.enabled then { d with value := d.value - 1#32 }
  else d

def writeReg (d : Sp804) (off v : Word) : Sp804 :=
  if off = SP804_LOAD then { d with load := v, value := v }
  else if off = SP804_CTRL then { d with ctrl := v }
  else if off = SP804_INTCLR then { d with ris := false }
  else d

def beat (d : Sp804) : Beat → Sp804
  | .edge => d.edge
  | .ack => d.writeReg SP804_INTCLR 1#32

def expiresAt (d : Sp804) (b : Beat) : Bool := b = .edge ∧ d.expires

def device (base : Word) : Device Sp804 Word Word where
  read _ _ := 0#32
  after d _ := d
  write d a v := d.writeReg (a - base) v
  own d d' := d' = d.edge

/-- The period changes only while the timer is off. -/
def Allowed (base : Word) (d : Sp804) (a _ : Word) : Prop := a - base = SP804_LOAD → ¬ d.enabled

/-- Counting down from `reload`, periodically, with its interrupt on. -/
structure Runs (reload : Word) (d : Sp804) : Prop where
  ctrl : d.ctrl = SP804_CTRL_ENABLE ||| SP804_CTRL_PERIODIC ||| SP804_CTRL_INTEN ||| SP804_CTRL_32BIT
  load : d.load = reload
  pos : 1 ≤ d.value.toNat
  le : d.value.toNat ≤ reload.toNat

section

variable {reload base : Word} {d : Sp804}

theorem Runs.enabled (h : Runs reload d) : d.enabled := by
  unfold Sp804.enabled
  rw [h.ctrl]
  decide

theorem Runs.again (h : Runs reload d) : d.again = reload := by
  unfold Sp804.again
  rw [h.ctrl, if_neg (by decide), if_neg (by decide), h.load]

theorem sub_one_toNat {w : Word} (h : 1 ≤ w.toNat) : (w - 1#32).toNat = w.toNat - 1 := by
  have := w.isLt
  rw [BitVec.toNat_sub]
  simp only [BitVec.toNat_ofNat]
  omega

theorem Runs.edge_value (h : Runs reload d) :
    d.edge.value.toNat = if d.value.toNat = 1 then reload.toNat else d.value.toNat - 1 := by
  have hpos := h.pos
  unfold edge
  by_cases he : d.value.toNat = 1
  · rw [if_pos ⟨h.enabled, by omega⟩, if_pos he]
    exact congrArg _ h.again
  · rw [if_neg fun hx => he (by have := hx.2; omega), if_pos h.enabled, if_neg he]
    exact sub_one_toNat hpos

theorem Runs.edge (h : Runs reload d) : Runs reload d.edge := by
  have hpos := h.pos
  have hle := h.le
  have hval := h.edge_value
  have hkeep : d.edge.ctrl = d.ctrl ∧ d.edge.load = d.load := by
    unfold Sp804.edge
    split_ifs <;> exact ⟨rfl, rfl⟩
  refine ⟨hkeep.1.trans h.ctrl, hkeep.2.trans h.load, ?_, ?_⟩
  · rw [hval]
    split <;> omega
  · rw [hval]
    split <;> omega

theorem rounds :
    Wheel.Rounds beat expiresAt reload.toNat (Runs reload) (fun d => reload.toNat - d.value.toNat)
      (· = .edge) where
  keeps d b h := by
    cases b with
    | edge => exact h.edge
    | ack => exact ⟨h.ctrl, h.load, h.pos, h.le⟩
  below d h := by
    have hpos := h.pos
    have hle := h.le
    omega
  goes d b h := by
    have hpos := h.pos
    have hle := h.le
    cases b with
    | edge =>
      show reload.toNat - d.edge.value.toNat = _
      rw [h.edge_value]
      simp only [decide_true, if_true]
      split_ifs <;> omega
    | ack => rfl
  wraps d b h := by
    have hpos := h.pos
    have hle := h.le
    unfold expiresAt expires
    rw [decide_eq_true_iff, decide_eq_true_iff, and_iff_right h.enabled]
    exact and_congr_right fun _ => by omega

theorem off_edge (h : d.ctrl = 0#32) : d.edge = d := by
  have hoff : ¬ d.enabled := by
    unfold Sp804.enabled
    rw [h]
    decide
  unfold Sp804.edge
  rw [if_neg fun hx => hoff hx.1, if_neg hoff]

theorem init_triple (dev : timer_device) (period_us : Word)
    (hcount : 1 ≤ (countOf dev period_us).toNat) :
    Triple (device dev.base) (fun _ => True) (Allowed dev.base) (sp804_init dev period_us) fun _ =>
      Runs (countOf dev period_us) := by
  unfold sp804_init
  generalize countOf dev period_us = reload at hcount ⊢
  have htrue : Stable (device dev.base) fun _ => True := fun _ _ _ h => h
  have hoff (C : Sp804 → Prop) : Stable (device dev.base) fun d => d.ctrl = 0#32 ∧ C d := by
    rintro d d' rfl hd
    rw [off_edge hd.1]
    exact hd
  have hruns : Stable (device dev.base) (Runs reload) := by
    rintro d d' rfl hd
    exact hd.edge
  refine .seq (.store htrue ?_ ?_ (hoff fun _ => True)) <|
    .seq (.store (hoff fun _ => True) ?_ ?_ (hoff fun d => d.load = reload ∧ d.value = reload)) <|
      .store (hoff _) ?_ ?_ hruns
  · intro d _ h
    rw [offset] at h
    exact absurd h (by decide)
  · intro d _
    simp only [device, offset]
    exact ⟨rfl, trivial⟩
  · intro d hd _
    unfold Sp804.enabled
    rw [hd.1]
    decide
  · intro d hd
    simp only [device, offset]
    exact ⟨hd.1, rfl, rfl⟩
  · intro d _ h
    rw [offset] at h
    exact absurd h (by decide)
  · intro d hd
    simp only [device, offset]
    exact ⟨rfl, hd.2.1, (congrArg BitVec.toNat hd.2.2) ▸ hcount, (congrArg BitVec.toNat hd.2.2).le⟩

end

end Sp804

/-! ## Both boards -/

theorem reload_toNat {c : Word} (h : 1 ≤ c.toNat) : (0#32 - c).toNat = 2 ^ 32 - c.toNat := by
  have := c.isLt
  rw [BitVec.toNat_sub]
  simp only [BitVec.toNat_ofNat]
  omega

/-- `timer_init` leaves a timer that overflows once in every `period_us * (clk_hz / 1000000)` edges
of its clock, whatever the boot loader has left and however long the device takes. A posted write
takes at most `delay` edges, and the timer ticks so from when the last one is in. -/
theorem timer_init_ticks (period_us : Word) (delay : Nat)
    (hqemu : 1 ≤ (countOf qemu_timer0 period_us).toNat)
    (hbbb : delay + 1 < (countOf bbb_timer2 period_us).toNat) :
    (Triple (Sp804.device qemu_timer0.base) (fun _ => True) (Sp804.Allowed qemu_timer0.base)
        (sp804_init qemu_timer0 period_us) (fun _ => Sp804.Runs (countOf qemu_timer0 period_us)) ∧
      ∀ d, Sp804.Runs (countOf qemu_timer0 period_us) d → ∀ bs,
        Wheel.turns Sp804.beat Sp804.expiresAt d bs =
          ((countOf qemu_timer0 period_us).toNat - d.value.toNat + edges bs) /
            (countOf qemu_timer0 period_us).toNat) ∧
    (Triple (Dmt.device delay) (fun _ => True) Dmt.Allowed
        (do clock_enable_timer2; dmtimer_init bbb_timer2 period_us)
        (fun _ => Dmt.Running (0#32 - countOf bbb_timer2 period_us)) ∧
      Stable (Dmt.device delay) (Dmt.Running (0#32 - countOf bbb_timer2 period_us)) ∧
      (∀ d d', Dmt.Running (0#32 - countOf bbb_timer2 period_us) d → Dmt.Elapsed delay d (delay + 1) d' →
        Dmt.Runs (0#32 - countOf bbb_timer2 period_us) d') ∧
      ∀ d, Dmt.Runs (0#32 - countOf bbb_timer2 period_us) d → ∀ bs,
        Wheel.turns Dmt.beat Dmt.overflowsAt d bs =
          ((d.reg .tcrr).toNat - (0#32 - countOf bbb_timer2 period_us).toNat + edges bs) /
            (countOf bbb_timer2 period_us).toNat) := by
  have hreload := reload_toNat (c := countOf bbb_timer2 period_us) (by omega)
  have hlt := (countOf bbb_timer2 period_us).isLt
  refine ⟨⟨Sp804.init_triple qemu_timer0 period_us hqemu, fun d hd bs => ?_⟩, ?_, ?_,
    fun d d' hd he => ?_, fun d hd bs => ?_⟩
  · exact (Sp804.rounds.run hd bs).2
  · exact Dmt.clock_triple.seq (Dmt.init_triple rfl period_us (by omega))
  · exact Dmt.running_stable (by omega)
  · exact hd.runs (by omega) he (Nat.lt_succ_self delay)
  · have hrun := ((Dmt.rounds (by omega)).run hd bs).2
    rw [hreload] at hrun ⊢
    rw [hrun]
    congr 1
    omega

/-- The kernel's own period, 10 ms: 10000 edges at 1 MHz and 240000 at 24 MHz. -/
theorem timer_init_ticks_ten_ms :
    (countOf qemu_timer0 10000#32).toNat = 10000 ∧ (countOf bbb_timer2 10000#32).toNat = 240000 ∧
      (∀ d, Dmt.Runs (0#32 - countOf bbb_timer2 10000#32) d → ∀ bs,
        Wheel.turns Dmt.beat Dmt.overflowsAt d bs =
          ((d.reg .tcrr).toNat - (0#32 - countOf bbb_timer2 10000#32).toNat + edges bs) /
            (countOf bbb_timer2 10000#32).toNat) :=
  ⟨by decide, by decide, (timer_init_ticks 10000#32 3 (by decide) (by decide)).2.2.2.2⟩

end CortexAOS.Drivers
