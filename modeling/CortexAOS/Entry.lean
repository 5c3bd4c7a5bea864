import CortexAOS.Exception
import CortexAOS.Pgtable

/-!
# exception_entry.S and context_switch.S

The registers and the kernel stacks under the system of `Exception.lean`. Compiled code is known by
what the AAPCS promises of it: it moves SP below the frame that its caller has pushed and writes
there, and when it returns SP is back. `mem` is kernel memory by virtual address.
-/

namespace CortexAOS

variable {cfg : Config}

structure Cpu where
  r : Fin 13 → Word
  sp_usr : Word
  lr_usr : Word
  sp_svc : Word
  lr_svc : Word
  /-- Of user mode. It is the next instruction, and that behind the `svc` when one is taken: the
  address of an instruction, of which the load that goes back to it clears no bit. -/
  pc : Word
  /-- Of user mode. -/
  cpsr : Word

/-- thread.h, the fields that context_switch.S uses. -/
structure cpu_context_t where
  sp_svc : Word
  sp_usr : Word
  lr_usr : Word

/-- What compiled code relies on when its call of `context_switch` returns. -/
structure CallSite where
  r : Fin 13 → Word
  lr : Word
  sp : Word
  mem : Mem

structure Core (cfg : Config) where
  sys : Sys cfg
  cpu : Cpu
  mem : Mem
  ctx : Tid cfg → cpu_context_t
  /-- SP when the handler that a thread is in was called: its argument, and where it returns to. -/
  entrySp : Tid cfg → Word
  site : Tid cfg → CallSite

namespace Core

abbrev current (m : Core cfg) : Tid cfg := m.sys.k.current

/-! ## Instructions -/

/-- `[sp, #4 * i]`. -/
def word (m : Core cfg) (i : Nat) : Word := m.mem (m.cpu.sp_svc.toNat / 4 + i)

/-- `stmfd sp!` of `n` registers, where `f 0` is stored lowest. -/
def push (m : Core cfg) (n : Nat) (f : Nat → Word) : Core cfg :=
  let sp := m.cpu.sp_svc - BitVec.ofNat 32 (4 * n)
  { m with
    mem := fun j => if sp.toNat / 4 ≤ j ∧ j < sp.toNat / 4 + n then f (j - sp.toNat / 4) else m.mem j
    cpu := { m.cpu with sp_svc := sp } }

/-- `{r0-r12, lr}`. -/
def gprs (r : Fin 13 → Word) (lr : Word) (i : Nat) : Word := if h : i < 13 then r ⟨i, h⟩ else lr

/-- `{r4-r11, lr}`. -/
def calleeSaved (r : Fin 13 → Word) (lr : Word) (i : Nat) : Word :=
  if h : i < 8 then r ⟨i + 4, by omega⟩ else lr

/-! ## exception_entry.S -/

/-- LR_svc is the return address and SPSR_svc the interrupted CPSR. -/
def exception_entry_svc (m : Core cfg) : Core cfg :=
  let m := m.push 14 (gprs m.cpu.r m.cpu.pc)
  m.push 1 fun _ => m.cpu.cpsr

/-- LR_irq is the return address plus 4. `srsdb` stores it, and SPSR_irq above it, on the SVC stack. -/
def exception_entry_irq (m : Core cfg) : Core cfg :=
  let lr_irq := m.cpu.pc + 4#32 - 4#32
  let m := m.push 2 fun i => if i = 0 then lr_irq else m.cpu.cpsr
  m.push 14 (gprs m.cpu.r m.cpu.lr_svc)

/-- `ldmfd sp!, {r0}`, `msr spsr_cxsf, r0`, `ldmfd sp!, {r0-r12, pc}^`. -/
def svc_exit (m : Core cfg) : Core cfg :=
  { m with cpu := { m.cpu with
      r := fun i => m.word (i.val + 1)
      pc := m.word 14
      cpsr := m.word 0
      sp_svc := m.cpu.sp_svc + 60#32 } }

/-- `ldmfd sp!, {r0-r12, lr}`, `rfefd sp!`. -/
def irq_exit (m : Core cfg) : Core cfg :=
  { m with cpu := { m.cpu with
      r := fun i => m.word i.val
      lr_svc := m.word 13
      pc := m.word 14
      cpsr := m.word 15
      sp_svc := m.cpu.sp_svc + 64#32 } }

def ret_from_first_entry (m : Core cfg) : Core cfg := m.irq_exit

/-! ## context_switch.S -/

def save_prev (m : Core cfg) (prev : Tid cfg) : Core cfg :=
  let site : CallSite := ⟨m.cpu.r, m.cpu.lr_svc, m.cpu.sp_svc, m.mem⟩
  let m := m.push 9 (calleeSaved m.cpu.r m.cpu.lr_svc)
  { m with
    ctx := Function.update m.ctx prev ⟨m.cpu.sp_svc, m.cpu.sp_usr, m.cpu.lr_usr⟩
    site := Function.update m.site prev site }

/-- From `.Lload_next` on. -/
def load_next (m : Core cfg) (next : Tid cfg) : Core cfg :=
  let m := { m with cpu := { m.cpu with
      sp_usr := (m.ctx next).sp_usr
      lr_usr := (m.ctx next).lr_usr
      sp_svc := (m.ctx next).sp_svc } }
  { m with cpu := { m.cpu with
      r := fun i => if 4 ≤ i.val ∧ i.val ≤ 11 then m.word (i.val - 4) else m.cpu.r i
      lr_svc := m.word 8
      sp_svc := m.cpu.sp_svc + 36#32 } }

def context_switch (m : Core cfg) (prev next : Tid cfg) : Core cfg := (m.save_prev prev).load_next next

/-- The `bx lr` of `context_switch` goes where thread `t` goes on with `p`, and compiled code finds
its registers and its frames as it left them. -/
def Returns (m : Core cfg) (t : Tid cfg) : KPoint → Prop
  | .firstEntry => m.cpu.lr_svc = cfg.ret_from_first_entry
  | _ =>
    (∀ i : Fin 13, 4 ≤ i.val → i.val ≤ 11 → m.cpu.r i = (m.site t).r i) ∧
    m.cpu.lr_svc = (m.site t).lr ∧ m.cpu.sp_svc = (m.site t).sp ∧
    ∀ j, (m.site t).sp.toNat / 4 ≤ j → j < (m.entrySp t).toNat / 4 → m.mem j = (m.site t).mem j

end Core

/-! ## Kernel stacks -/

def stackBase (t : Tid cfg) : Nat := cfg.thread_kstack.toNat + t.val * 8192
def stackTop (t : Tid cfg) : Nat := stackBase t + 8192

def InStack (t : Tid cfg) (j : Nat) : Prop := stackBase t / 4 ≤ j ∧ j < stackTop t / 4

/-- `thread_kstack` is an array of words that does not wrap around. -/
structure Stacked (cfg : Config) : Prop where
  aligned : cfg.thread_kstack.toNat % 8 = 0
  fits : cfg.thread_kstack.toNat + cfg.NUM_THREADS * 8192 < 2 ^ 32

/-- Compiled code runs on behalf of the current thread, up to its next call of `schedule()` or to its
end. There is room for what `context_switch` pushes. -/
structure CRuns (m m' : Core cfg) : Prop where
  sys : m'.sys = m.sys
  ctx : m'.ctx = m.ctx
  entrySp : m'.entrySp = m.entrySp
  site : m'.site = m.site
  sp_usr : m'.cpu.sp_usr = m.cpu.sp_usr
  lr_usr : m'.cpu.lr_usr = m.cpu.lr_usr
  aligned : m'.cpu.sp_svc.toNat % 4 = 0
  room : stackBase m.current + 36 ≤ m'.cpu.sp_svc.toNat
  below : m'.cpu.sp_svc.toNat ≤ (m.entrySp m.current).toNat
  mem : ∀ u j, InStack u j → (u = m.current → (m.entrySp m.current).toNat / 4 ≤ j) → m'.mem j = m.mem j

/-! ## Steps -/

namespace Core

/-- `bl handle_...`, from where compiled code runs. -/
def call (m : Core cfg) : Core cfg :=
  { m with entrySp := Function.update m.entrySp m.current m.cpu.sp_svc }

/-- `ctx->r[0] = ret`, when `syscall_dispatch` gets there. -/
def dispatched (m : Core cfg) (o : List (Obs cfg)) : Core cfg :=
  { m with mem := o.foldl (fun mem x =>
      match x with
      | .sysret _ ret => Function.update mem ((m.entrySp m.current).toNat / 4 + 1) ret
      | _ => mem) m.mem }

/-- A fault is entered on the stack of its own mode and goes on with SP_svc as it is. -/
def entry (m : Core cfg) (o : List (Obs cfg)) : Event → Core cfg
  | .irq _ => m.exception_entry_irq.call
  | .svc .. => m.exception_entry_svc.call.dispatched o
  | .dataAbort .. | .prefetchAbort .. | .undefined .. => m.call

def atEntry (m : Core cfg) : Core cfg := { m with cpu := { m.cpu with sp_svc := m.entrySp m.current } }

end Core

/-- The context that the entry code pushes is that of the interrupted user code. -/
def Event.From (c : Cpu) : Event → Prop
  | .irq _ => True
  | .svc ctx _ | .dataAbort _ _ ctx | .prefetchAbort _ _ ctx | .undefined ctx =>
    ctx.val.spsr = c.cpsr ∧ ctx.val.r = c.r ∧ ctx.val.lr = c.pc

/-- `actor` is the thread that a step in user mode is of. -/
structure KLabel (cfg : Config) where
  actor : Option (Tid cfg)
  ev : Option Event
  obs : List (Obs cfg)

inductive KStep : Core cfg → KLabel cfg → Core cfg → Prop
  /-- Instructions in user mode: the mode and the banked registers of SVC stay. -/
  | user {m : Core cfg} {c : Cpu} (hu : m.sys.ctl = .user) (hsp : c.sp_svc = m.cpu.sp_svc)
      (hlr : c.lr_svc = m.cpu.lr_svc) (hmode : c.cpsr &&& 0x1F#32 = 0x10#32) :
      KStep m ⟨some m.current, none, []⟩ { m with cpu := c }
  | event {m m' : Core cfg} (e : Event) (hu : m.sys.ctl = .user) (he : e.From m.cpu)
      (hc : CRuns (({ m with sys := (enter m.sys e).1 } : Core cfg).entry (enter m.sys e).2 e) m') :
      KStep m ⟨some m.current, some e, (enter m.sys e).2⟩ m'
  | stay {m : Core cfg} {p : KPoint} (hp : m.sys.ctl = .sched p) (hs : (schedule m.sys.k).2 = none) :
      KStep m ⟨none, none, (call_schedule m.sys p).2⟩ { m with sys := (call_schedule m.sys p).1 }
  | switch {m : Core cfg} {p : KPoint} {prev next : Tid cfg} (hp : m.sys.ctl = .sched p)
      (hs : (schedule m.sys.k).2 = some (prev, next))
      (hr : (m.context_switch prev next).Returns next (m.sys.kont next)) :
      KStep m ⟨none, none, (call_schedule m.sys p).2⟩
        { m.context_switch prev next with sys := (call_schedule m.sys p).1 }
  /-- Code that is resumed with other registers or frames than it left may do anything. -/
  | wild {m m' : Core cfg} {p : KPoint} {prev next : Tid cfg} {l : KLabel cfg}
      (hp : m.sys.ctl = .sched p) (hs : (schedule m.sys.k).2 = some (prev, next))
      (hr : ¬ (m.context_switch prev next).Returns next (m.sys.kont next)) : KStep m l m'
  | exitFirst {m : Core cfg} (hp : m.sys.ctl = .resume .firstEntry) :
      KStep m ⟨none, none, []⟩ { m.ret_from_first_entry with sys := (return_to m.sys .firstEntry).1 }
  | exitIrq {m m' : Core cfg} (hp : m.sys.ctl = .resume .irqTail) (hc : CRuns m m') :
      KStep m ⟨none, none, []⟩ { m'.atEntry.irq_exit with sys := (return_to m.sys .irqTail).1 }
  | exitSvc {m m' : Core cfg} (hp : m.sys.ctl = .resume .svcTail) (hc : CRuns m m') :
      KStep m ⟨none, none, []⟩ { m'.atEntry.svc_exit with sys := (return_to m.sys .svcTail).1 }
  | read {m m' : Core cfg} {buf len : Word} (hp : m.sys.ctl = .resume (.readWait buf len))
      (hc : CRuns (({ m with sys := (return_to m.sys (.readWait buf len)).1 } : Core cfg).dispatched
        (return_to m.sys (.readWait buf len)).2) m') :
      KStep m ⟨none, none, (return_to m.sys (.readWait buf len)).2⟩ m'
  | stop {m : Core cfg} (hp : m.sys.ctl = .resume .faultTail ∨ m.sys.ctl = .halted) :
      KStep m ⟨none, none, (kernelStep m.sys).2⟩ { m with sys := (kernelStep m.sys).1 }

/-! ## Boot -/

/-- `thread_build_initial_frame`, from its lowest word up. -/
def initialFrame (cfg : Config) (entry arg : Word) (i : Nat) : Word :=
  if i = 8 then cfg.ret_from_first_entry
  else if i = 9 then arg
  else if i = 23 then entry
  else if i = 24 then 0x10#32
  else 0#32

def initialSp (t : Tid cfg) : Word := (thread_init cfg t).kstack_base + KSTACK_SIZE - 100#32

def thread_build_initial_frame (m : Mem) (t : Tid cfg) : Mem := fun j =>
  if (initialSp t).toNat / 4 ≤ j ∧ j < (initialSp t).toNat / 4 + 25 then
    initialFrame cfg USER_VIRT_BASE (BitVec.ofNat 32 (indexOf t).val) (j - (initialSp t).toNat / 4)
  else m j

/-- At the `bx lr` of `context_switch(NULL, &threads[0])`, from any memory and registers. -/
def bootCore (cfg : Config) (m : Mem) (c : Cpu) (site : CallSite) : Core cfg :=
  Core.load_next
    { sys := start cfg
      cpu := c
      mem := (List.finRange cfg.NUM_THREADS).foldl thread_build_initial_frame m
      ctx := fun t => ⟨initialSp t, (thread_init cfg t).user_stack_top, 0#32⟩
      entrySp := fun _ => 0#32
      site := fun _ => site } Kernel.first

end CortexAOS
