import CortexAOS.Syscall
import CortexAOS.Lib.Run

/-!
# exception_handlers.c, and the system as a whole

Kernel code runs with IRQs masked, so an event is taken in user mode only. A step is the code of
one handler up to its call of `schedule()`, or that call, or the code from its return on.
-/

namespace CortexAOS

open task_state_t

variable {cfg : Config}

/-! ## Where the CPU and the suspended threads stand -/

/-- The caller that `schedule()`, or the first `context_switch`, returns to. -/
inductive KPoint where
  | firstEntry
  | irqTail
  | svcTail
  | readWait (buf len : Word)
  | faultTail
  deriving DecidableEq

inductive Ctl where
  | user
  /-- `schedule()` is about to run. -/
  | sched (p : KPoint)
  /-- `schedule()` has returned, to the thread that is now current. -/
  | resume (p : KPoint)
  /-- `halt_forever` -/
  | halted
  deriving DecidableEq

structure Sys (cfg : Config) where
  k : Kernel cfg
  /-- What a thread that `context_switch` has suspended goes on with. -/
  kont : Tid cfg → KPoint
  ctl : Ctl

/-! ## Interrupts -/

def timer_tick (k : Kernel cfg) : Kernel cfg :=
  scheduler_tick { k with tick_count := k.tick_count + 1#32 }

/-- `pl011_rx_irq` and `ns16550_rx_irq`; `fifo` is what the chip holds until its FIFO reads empty. -/
def uart_rx_irq (k : Kernel cfg) (fifo : List Byte) : Kernel cfg × List (Obs cfg) :=
  (scheduler_wake_reader (rx_drain k fifo).1, (rx_drain k fifo).2)

inductive Irq where
  | timer
  | uart (fifo : List Byte)
  | spurious

def irq_dispatch (k : Kernel cfg) : Irq → Kernel cfg × List (Obs cfg)
  | .timer => (timer_tick k, [])
  | .uart fifo => uart_rx_irq k fifo
  | .spurious => (k, [])

def handle_irq (k : Kernel cfg) (i : Irq) : Kernel cfg × List (Obs cfg) × Ctl :=
  ((irq_dispatch k i).1, (irq_dispatch k i).2, .sched .irqTail)

/-! ## System calls -/

/-- Where `handle_svc` stands when its next `schedule()` comes. -/
def svcCtl : Outcome → Ctl
  | .returns _ => .sched .svcTail
  | .sleeps buf len => .sched (.readWait buf len)

def handle_svc (k : Kernel cfg) (umem : Word → Byte) (ctx : exception_context_t) :
    Kernel cfg × List (Obs cfg) × Ctl :=
  let r := syscall_dispatch k umem ctx
  (r.1, r.2.1, svcCtl r.2.2)

/-- The rest of `sys_read` and of `syscall_dispatch`, once `scheduler_block_on_input` returns. -/
def read_again (k : Kernel cfg) (buf len : Word) : Kernel cfg × List (Obs cfg) × Ctl :=
  let r := finish k.current (sys_read_loop k buf len)
  (r.1, r.2.1, svcCtl r.2.2)

/-! ## Faults -/

def fault_from_user (ctx : exception_context_t) : Bool := ctx.spsr &&& 0x1F#32 = 0x10#32

def mode_name (cpsr : Word) : CStr :=
  let m := cpsr &&& 0x1F#32
  if m = 0x10#32 then ascii "USR" else if m = 0x11#32 then ascii "FIQ"
  else if m = 0x12#32 then ascii "IRQ" else if m = 0x13#32 then ascii "SVC"
  else if m = 0x17#32 then ascii "ABT" else if m = 0x1B#32 then ascii "UND"
  else if m = 0x1F#32 then ascii "SYS" else ascii "???"

def maskText (w : Word) (bit : Nat) : PrintArg :=
  .str (some (if w.getLsbD bit then ascii "masked" else ascii "on"))

def dump_context (ctx : exception_context_t) : List (Obs cfg) :=
  [.printf "  SPSR = 0x%08x  (mode=%s, IRQ=%s, FIQ=%s)\n"
      [.u32 ctx.spsr, .str (some (mode_name ctx.spsr)), maskText ctx.spsr 7, maskText ctx.spsr 6],
    .printf "  PC   = 0x%08x  (faulting/return address)\n" [.u32 ctx.lr],
    .printf "  r0 =%08x  r1 =%08x  r2 =%08x  r3 =%08x\n"
      [.u32 (ctx.r 0), .u32 (ctx.r 1), .u32 (ctx.r 2), .u32 (ctx.r 3)],
    .printf "  r4 =%08x  r5 =%08x  r6 =%08x  r7 =%08x\n"
      [.u32 (ctx.r 4), .u32 (ctx.r 5), .u32 (ctx.r 6), .u32 (ctx.r 7)],
    .printf "  r8 =%08x  r9 =%08x  r10=%08x  r11=%08x\n"
      [.u32 (ctx.r 8), .u32 (ctx.r 9), .u32 (ctx.r 10), .u32 (ctx.r 11)],
    .printf "  r12=%08x\n" [.u32 (ctx.r 12)]]

def halt_forever : List (Obs cfg) := [.printf "[PANIC] system halted.\n" []]

/-- Up to its call of `schedule()`. -/
def user_fault_kill (k : Kernel cfg) (kind : String) : Kernel cfg × List (Obs cfg) :=
  (scheduler_request_resched (k.retire (k.threads k.current).proc),
    [.printf "[KILL] %s killed by %s (faulting t%u, whole process retired)\n"
      [.str (k.nameOf k.current), .str (some (ascii kind)), k.indexArg k.current]])

/-- Fault status and address, as far as the handler reads them. -/
inductive Fault where
  | dataAbort (dfsr dfar : Word)
  | prefetchAbort (ifsr ifar : Word)
  | undefined

def Fault.kind : Fault → String
  | .dataAbort .. => "data abort"
  | .prefetchAbort .. => "prefetch abort"
  | .undefined => "undefined instruction"

def Fault.report (ctx : exception_context_t) : Fault → List (Obs cfg)
  | .dataAbort dfsr dfar =>
    [.printf "[FAULT] data abort  DFAR=0x%08x DFSR=0x%08x PC=0x%08x\n"
      [.u32 dfar, .u32 dfsr, .u32 ctx.lr]]
  | .prefetchAbort ifsr ifar =>
    [.printf "[FAULT] prefetch abort  IFAR=0x%08x IFSR=0x%08x\n" [.u32 ifar, .u32 ifsr]]
  | .undefined => [.printf "[FAULT] undefined instr at PC=0x%08x\n" [.u32 ctx.lr]]

def Fault.panic : Fault → List (Obs cfg)
  | .dataAbort dfsr dfar =>
    [.printf "\n[PANIC] *** DATA ABORT (kernel) ***\n" [],
      .printf "  DFAR = 0x%08x  (faulting address)\n" [.u32 dfar],
      .printf "  DFSR = 0x%08x  (fault status)\n" [.u32 dfsr]]
  | .prefetchAbort ifsr ifar =>
    [.printf "\n[PANIC] *** PREFETCH ABORT (kernel) ***\n" [],
      .printf "  IFAR = 0x%08x  (faulting address)\n" [.u32 ifar],
      .printf "  IFSR = 0x%08x  (fault status)\n" [.u32 ifsr]]
  | .undefined => [.printf "\n[PANIC] *** UNDEFINED INSTRUCTION (kernel) ***\n" []]

/-- The common shape of `handle_data_abort`, `handle_prefetch_abort` and `handle_undefined`. -/
def handle_fault (k : Kernel cfg) (f : Fault) (ctx : exception_context_t) :
    Kernel cfg × List (Obs cfg) × Ctl :=
  if fault_from_user ctx then
    ((user_fault_kill k f.kind).1, f.report ctx ++ (user_fault_kill k f.kind).2, .sched .faultTail)
  else (k, f.panic ++ dump_context ctx ++ halt_forever, .halted)

def handle_data_abort (k : Kernel cfg) (dfsr dfar : Word) (ctx : exception_context_t) :=
  handle_fault k (.dataAbort dfsr dfar) ctx

def handle_prefetch_abort (k : Kernel cfg) (ifsr ifar : Word) (ctx : exception_context_t) :=
  handle_fault k (.prefetchAbort ifsr ifar) ctx

def handle_undefined (k : Kernel cfg) (ctx : exception_context_t) := handle_fault k .undefined ctx

/-! ## Steps -/

/-- The context of an entry from user mode: the hardware puts the user CPSR into SPSR. -/
abbrev UserContext := { ctx : exception_context_t // fault_from_user ctx = true }

inductive Event where
  | irq (i : Irq)
  | svc (ctx : UserContext) (umem : Word → Byte)
  | dataAbort (dfsr dfar : Word) (ctx : UserContext)
  | prefetchAbort (ifsr ifar : Word) (ctx : UserContext)
  | undefined (ctx : UserContext)

def handle (k : Kernel cfg) : Event → Kernel cfg × List (Obs cfg) × Ctl
  | .irq i => handle_irq k i
  | .svc ctx umem => handle_svc k umem ctx
  | .dataAbort dfsr dfar ctx => handle_data_abort k dfsr dfar ctx
  | .prefetchAbort ifsr ifar ctx => handle_prefetch_abort k ifsr ifar ctx
  | .undefined ctx => handle_undefined k ctx

def enter (s : Sys cfg) (e : Event) : Sys cfg × List (Obs cfg) :=
  ({ s with k := (handle s.k e).1, ctl := (handle s.k e).2.2 }, (handle s.k e).2.1)

/-- `schedule()`, with the `context_switch` that its `perform_switch` ends in. -/
def call_schedule (s : Sys cfg) (p : KPoint) : Sys cfg × List (Obs cfg) :=
  match schedule s.k with
  | (k, none) => ({ s with k := k, ctl := .resume p }, [])
  | (k, some (prev, cand)) =>
    ({ k := k, kont := Function.update s.kont prev p, ctl := .resume (s.kont cand) },
      [.switched prev cand])

def return_to (s : Sys cfg) : KPoint → Sys cfg × List (Obs cfg)
  | .firstEntry | .irqTail | .svcTail => ({ s with ctl := .user }, [])
  | .readWait buf len =>
    let r := read_again s.k buf len
    ({ s with k := r.1, ctl := r.2.2 }, r.2.1)
  | .faultTail =>
    ({ s with ctl := .halted },
      .printf "[PANIC] no runnable thread left after user fault\n" [] :: halt_forever)

def kernelStep (s : Sys cfg) : Sys cfg × List (Obs cfg) :=
  match s.ctl with
  | .user | .halted => (s, [])
  | .sched p => call_schedule s p
  | .resume p => return_to s p

/-- The event that a step takes, if it is one in user mode, and what it is seen to do. -/
structure Label (cfg : Config) where
  ev : Option Event
  obs : List (Obs cfg)

inductive Step : Sys cfg → Label cfg → Sys cfg → Prop
  | event {s : Sys cfg} (e : Event) (h : s.ctl = .user) : Step s ⟨some e, (enter s e).2⟩ (enter s e).1
  | kernel {s : Sys cfg} (h : s.ctl ≠ .user) : Step s ⟨none, (kernelStep s).2⟩ (kernelStep s).1

/-- `thread_first_run(&threads[0])`, at its `bx lr` to `ret_from_first_entry`. -/
def start (cfg : Config) : Sys cfg where
  k := boot cfg
  kont := fun _ => .firstEntry
  ctl := .resume .firstEntry

def Reachable (s : Sys cfg) : Prop := ∃ tr, Lib.Run Step (start cfg) tr s

theorem Reachable.step {s s' : Sys cfg} {l : Label cfg} (h : Reachable s) (hs : Step s l s') :
    Reachable s' := by
  obtain ⟨tr, hr⟩ := h
  exact ⟨tr ++ [l], hr.snoc hs⟩

/-- A step whose event, if it takes one, comes when `ok` holds. -/
def StepWhere (ok : Sys cfg → Event → Prop) (s : Sys cfg) (l : Label cfg) (s' : Sys cfg) : Prop :=
  Step s l s' ∧ ∀ e, l.ev = some e → ok s e

/-! ## Running -/

/-- Kernel code up to user mode, for at most `n` steps. -/
def settle : Nat → Sys cfg → Sys cfg
  | 0, s => s
  | n + 1, s => if s.ctl = .user then s else settle n (kernelStep s).1

/-- One event after the other; an event that comes when the CPU is not in user mode is not taken. -/
def drive (n : Nat) : Sys cfg → List Event → Sys cfg
  | s, [] => settle n s
  | s, e :: es => drive n (if (settle n s).ctl = .user then (enter (settle n s) e).1 else settle n s) es

@[simp] theorem settle_zero (s : Sys cfg) : settle 0 s = s := rfl

theorem settle_succ (n : Nat) (s : Sys cfg) (h : s.ctl ≠ .user) :
    settle (n + 1) s = settle n (kernelStep s).1 :=
  if_neg h

theorem settle_user (n m : Nat) (s : Sys cfg) (h : (settle n s).ctl = .user) (hm : n ≤ m) :
    settle m s = settle n s := by
  induction n generalizing s m with
  | zero =>
    cases m with
    | zero => rfl
    | succ m => exact if_pos h
  | succ n ih =>
    obtain ⟨m, rfl⟩ : ∃ m', m = m' + 1 := ⟨m - 1, by omega⟩
    by_cases hs : s.ctl = .user
    · rw [settle, settle, if_pos hs, if_pos hs]
    · rw [settle_succ n s hs] at h
      rw [settle_succ n s hs, settle_succ m s hs]
      exact ih m _ h (by omega)

theorem settle_snoc (n : Nat) (s : Sys cfg) (h : (settle n s).ctl ≠ .user) :
    settle (n + 1) s = (kernelStep (settle n s)).1 := by
  induction n generalizing s with
  | zero => exact settle_succ 0 s h
  | succ n ih =>
    have hs : s.ctl ≠ .user := by
      intro hu
      rw [settle, if_pos hu] at h
      exact h hu
    rw [settle_succ n s hs] at h ⊢
    rw [settle_succ (n + 1) s hs]
    exact ih _ h

def settleTrace : Nat → Sys cfg → List (Label cfg)
  | 0, _ => []
  | n + 1, s => if s.ctl = .user then [] else ⟨none, (kernelStep s).2⟩ :: settleTrace n (kernelStep s).1

def driveTrace (n : Nat) : Sys cfg → List Event → List (Label cfg)
  | s, [] => settleTrace n s
  | s, e :: es =>
    settleTrace n s ++
      if (settle n s).ctl = .user then
        ⟨some e, (enter (settle n s) e).2⟩ :: driveTrace n (enter (settle n s) e).1 es
      else driveTrace n (settle n s) es

/-- Every event that `drive` takes comes when `ok` holds. -/
def driveOk (ok : Sys cfg → Event → Prop) [∀ s e, Decidable (ok s e)] (n : Nat) :
  Sys cfg → List Event → Bool
  | _, [] => true
  | s, e :: es =>
    if (settle n s).ctl = .user then ok (settle n s) e && driveOk ok n (enter (settle n s) e).1 es
    else driveOk ok n (settle n s) es

section

variable (ok : Sys cfg → Event → Prop)

theorem settle_trace (n : Nat) (s : Sys cfg) :
    Lib.Run (StepWhere ok) s (settleTrace n s) (settle n s) := by
  induction n generalizing s with
  | zero => exact .refl
  | succ n ih =>
    unfold settleTrace
    by_cases hu : s.ctl = .user
    · rw [settle, if_pos hu, if_pos hu]; exact .refl
    · rw [settle_succ n s hu, if_neg hu]
      exact .cons ⟨.kernel hu, by simp⟩ (ih (kernelStep s).1)

theorem settle_run (n : Nat) (s : Sys cfg) : ∃ tr, Lib.Run (StepWhere ok) s tr (settle n s) :=
  ⟨_, settle_trace ok n s⟩

theorem drive_trace [∀ s e, Decidable (ok s e)] (n : Nat) (s : Sys cfg) (es : List Event)
    (h : driveOk ok n s es = true) : Lib.Run (StepWhere ok) s (driveTrace n s es) (drive n s es) := by
  induction es generalizing s with
  | nil => exact settle_trace ok n s
  | cons e es ih =>
    unfold drive driveTrace
    unfold driveOk at h
    by_cases hu : (settle n s).ctl = .user
    · rw [if_pos hu, Bool.and_eq_true, decide_eq_true_iff] at h
      rw [if_pos hu, if_pos hu]
      refine (settle_trace ok n s).trans (.cons ⟨.event e hu, ?_⟩ (ih _ h.2))
      intro e' he
      cases he
      exact h.1
    · rw [if_neg hu] at h ⊢
      rw [if_neg hu]
      exact (settle_trace ok n s).trans (ih _ h)

theorem drive_run [∀ s e, Decidable (ok s e)] (n : Nat) (s : Sys cfg) (es : List Event)
    (h : driveOk ok n s es = true) : ∃ tr, Lib.Run (StepWhere ok) s tr (drive n s es) :=
  ⟨_, drive_trace ok n s es h⟩

end

theorem Reachable.run {s s' : Sys cfg} {tr : List (Label cfg)} {ok : Sys cfg → Event → Prop}
    (h : Reachable s) (hr : Lib.Run (StepWhere ok) s tr s') : Reachable s' := by
  obtain ⟨tr', hr'⟩ := h
  exact ⟨_, hr'.trans (hr.mono fun _ _ _ hs => hs.1)⟩

theorem settle_reachable (n : Nat) (s : Sys cfg) (h : Reachable s) : Reachable (settle n s) := by
  obtain ⟨tr, hr⟩ := settle_run (fun _ _ => True) n s
  exact h.run hr

theorem drive_reachable (n : Nat) (s : Sys cfg) (es : List Event) (h : Reachable s) :
    Reachable (drive n s es) := by
  have hok : driveOk (fun _ _ => True) n s es = true := by
    induction es generalizing s with
    | nil => rfl
    | cons e es ih =>
      unfold driveOk
      split
      · rename_i hu
        simpa using ih _ ((settle_reachable n s h).step (.event e hu))
      · exact ih _ (settle_reachable n s h)
  obtain ⟨tr, hr⟩ := drive_run (fun _ _ => True) n s es hok
  exact h.run hr

def svcContext (num r0 r1 r2 : Word) : UserContext :=
  ⟨{ spsr := 0x10#32
     r := fun i =>
       if i = 7 then num else if i = 0 then r0 else if i = 1 then r1 else if i = 2 then r2 else 0
     lr := 0 }, by simp [fault_from_user]⟩

def svcEvent (num r0 r1 r2 : Word) : Event := .svc (svcContext num r0 r1 r2) fun _ => 0

end CortexAOS
