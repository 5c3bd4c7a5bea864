import CortexAOS.Exception

/-!
# The kernel as a queue of readers and a stream of bytes

`Abs` is what the scheduler and the console are for: the states of the threads, who waits for
input, and the bytes that wait to be read. `step_refines` ties every step of the code to it.
-/

namespace CortexAOS

open task_state_t Kernel

variable {cfg : Config}

@[ext]
structure Abs (cfg : Config) where
  current : Tid cfg
  state : Tid cfg → task_state_t
  queue : List (Tid cfg)
  ring : List Byte
  hint : Option (Tid cfg)
  need : Bool
  kont : Tid cfg → KPoint
  ctl : Ctl

def Sys.abs (s : Sys cfg) : Abs cfg where
  current := s.k.current
  state := s.k.state
  queue := s.k.queue
  ring := s.k.ring
  hint := s.k.wake_hint
  need := s.k.need_reschedule
  kont := s.kont
  ctl := s.ctl

/-- Leaves for user mode at once. -/
def KPoint.Exits (p : KPoint) : Prop := p = .firstEntry ∨ p = .irqTail ∨ p = .svcTail

def Event.isFault : Event → Bool
  | .irq _ | .svc .. => false
  | .dataAbort .. | .prefetchAbort .. | .undefined .. => true

/-! ## Steps -/

namespace Abs

/-- `sys_read` finds bytes: it takes as many as it has asked for, or all. -/
def got (a : Abs cfg) (len : Word) : Abs cfg :=
  { a with ring := a.ring.drop len.toNat, ctl := .sched .svcTail }

def gotObs (a : Abs cfg) (buf len : Word) : List (Obs cfg) :=
  stores buf (a.ring.take len.toNat) ++ [.readDone a.current len (a.ring.take len.toNat)] ++
    [.sysret a.current (BitVec.ofNat 32 (a.ring.take len.toNat).length)]

/-- `sys_read` finds none: the current thread goes to the end of the queue, or keeps its place. -/
def slept (a : Abs cfg) (buf len : Word) : Abs cfg :=
  { a with
    state := fun u => if u = a.current then TASK_BLOCKED else a.state u
    queue := if a.current ∈ a.queue then a.queue else a.queue ++ [a.current]
    need := true
    ctl := .sched (.readWait buf len) }

def sleptObs (a : Abs cfg) : List (Obs cfg) := if a.current ∈ a.queue then [] else [.queued a.current]

/-- The chip's bytes go into the ring as long as there is room. -/
def fill (a : Abs cfg) (fifo : List Byte) : Abs cfg :=
  { a with ring := a.ring ++ fifo.take (127 - a.ring.length) }

/-- Threads die and the processor is given up. -/
def kill (a : Abs cfg) (dies : Tid cfg → Prop) [DecidablePred dies] (p : KPoint) : Abs cfg :=
  { a with
    state := fun u => if dies u then TASK_DEAD else a.state u
    need := true
    ctl := .sched p }

def switch (a : Abs cfg) (p : KPoint) (c : Tid cfg) : Abs cfg :=
  { a with
    current := c
    state := switchStates a.state a.current c
    need := false
    hint := none
    kont := Function.update a.kont a.current p
    ctl := .resume (a.kont c) }

end Abs

/-- The observations of `rx_drain`. -/
def RxObs (o : List (Obs cfg)) : Prop := ∀ x ∈ o, (∃ c, x = .accepted c) ∨ ∃ c, x = .rejected c

inductive AStep : Abs cfg → Label cfg → Abs cfg → Prop
  | timer {a : Abs cfg} (h : a.ctl = .user) :
      AStep a ⟨some (.irq .timer), []⟩ { a with need := true, ctl := .sched .irqTail }
  | spurious {a : Abs cfg} (h : a.ctl = .user) :
      AStep a ⟨some (.irq .spurious), []⟩ { a with ctl := .sched .irqTail }
  | uartNone {a : Abs cfg} {fifo : List Byte} {o : List (Obs cfg)} (h : a.ctl = .user) (ho : RxObs o)
      (hacc : acceptedBytes o = fifo.take (127 - a.ring.length))
      (hcorpses : ∀ u ∈ a.queue, a.state u ≠ TASK_BLOCKED) :
      AStep a ⟨some (.irq (.uart fifo)), o⟩ { a.fill fifo with queue := [], ctl := .sched .irqTail }
  | uartWake {a : Abs cfg} {fifo : List Byte} {o : List (Obs cfg)} {corpses : List (Tid cfg)}
      {w : Tid cfg} {rest : List (Tid cfg)} (h : a.ctl = .user) (ho : RxObs o)
      (hacc : acceptedBytes o = fifo.take (127 - a.ring.length))
      (hq : a.queue = corpses ++ w :: rest) (hcorpses : ∀ u ∈ corpses, a.state u ≠ TASK_BLOCKED)
      (hw : a.state w = TASK_BLOCKED) :
      AStep a ⟨some (.irq (.uart fifo)), o⟩ { a.fill fifo with
        queue := rest
        state := fun u => if u = w then TASK_READY else a.state u
        hint := some w
        need := true
        ctl := .sched .irqTail }
  | svcQuiet {a : Abs cfg} {ctx : UserContext} {umem : Word → Byte} {o : List (Obs cfg)} {ret : Word}
      {need : Bool} (h : a.ctl = .user) (ho : ∀ x ∈ o, x.plain) (hneed : a.need = true → need = true)
      (hread : ctx.val.r 7 = SYS_READ → ¬ ReadOk (ctx.val.r 1) (ctx.val.r 2)) :
      AStep a ⟨some (.svc ctx umem), o ++ [.sysret a.current ret]⟩
        { a with need := need, ctl := .sched .svcTail }
  | svcExit {a : Abs cfg} {ctx : UserContext} {umem : Word → Byte} {o : List (Obs cfg)}
      (h : a.ctl = .user) (hnum : ctx.val.r 7 = SYS_EXIT) (ho : ∀ x ∈ o, x.plain) :
      AStep a ⟨some (.svc ctx umem), o ++ [.sysret a.current 0]⟩ (a.kill (· = a.current) .svcTail)
  | svcKill {a : Abs cfg} {ctx : UserContext} {umem : Word → Byte} {o : List (Obs cfg)} {p : Pid cfg}
      (h : a.ctl = .user) (hnum : ctx.val.r 7 = SYS_KILL) (hp : (ctx.val.r 0).toNat = p.val)
      (halive : ∃ t, pidOf t = p ∧ a.state t ≠ TASK_DEAD) (ho : ∀ x ∈ o, x.plain) :
      AStep a ⟨some (.svc ctx umem), o ++ [.sysret a.current 0]⟩ (a.kill (pidOf · = p) .svcTail)
  | svcGot {a : Abs cfg} {ctx : UserContext} {umem : Word → Byte} (h : a.ctl = .user)
      (hnum : ctx.val.r 7 = SYS_READ) (hok : ReadOk (ctx.val.r 1) (ctx.val.r 2)) (hr : a.ring ≠ []) :
      AStep a ⟨some (.svc ctx umem), a.gotObs (ctx.val.r 1) (ctx.val.r 2)⟩ (a.got (ctx.val.r 2))
  | svcSlept {a : Abs cfg} {ctx : UserContext} {umem : Word → Byte} (h : a.ctl = .user)
      (hnum : ctx.val.r 7 = SYS_READ) (hok : ReadOk (ctx.val.r 1) (ctx.val.r 2)) (hr : a.ring = []) :
      AStep a ⟨some (.svc ctx umem), a.sleptObs⟩ (a.slept (ctx.val.r 1) (ctx.val.r 2))
  | fault {a : Abs cfg} {e : Event} {o : List (Obs cfg)} (h : a.ctl = .user) (he : e.isFault = true)
      (ho : ∀ x ∈ o, x.plain) :
      AStep a ⟨some e, o⟩ (a.kill (pidOf · = pidOf a.current) .faultTail)
  | schedIdle {a : Abs cfg} {p : KPoint} (h : a.ctl = .sched p) (hn : a.need = false) :
      AStep a ⟨none, []⟩ { a with ctl := .resume p }
  | schedNone {a : Abs cfg} {p : KPoint} (h : a.ctl = .sched p) (hn : a.need = true)
      (hno : ∀ t, t ≠ a.current → runnable (a.state t) = false) :
      AStep a ⟨none, []⟩ { a with need := false, hint := none, ctl := .resume p }
  | schedSwitch {a : Abs cfg} {p : KPoint} {c : Tid cfg} (h : a.ctl = .sched p) (hn : a.need = true)
      (hne : c ≠ a.current) (hc : runnable (a.state c) = true)
      (hhint : ∀ w, a.hint = some w → w ≠ a.current → a.state w = TASK_READY → c = w) :
      AStep a ⟨none, [.switched a.current c]⟩ (a.switch p c)
  | toUser {a : Abs cfg} {p : KPoint} (h : a.ctl = .resume p) (hp : p.Exits) :
      AStep a ⟨none, []⟩ { a with ctl := .user }
  | readGot {a : Abs cfg} {buf len : Word} (h : a.ctl = .resume (.readWait buf len))
      (hok : ReadOk buf len) (hr : a.ring ≠ []) :
      AStep a ⟨none, a.gotObs buf len⟩ (a.got len)
  | readSlept {a : Abs cfg} {buf len : Word} (h : a.ctl = .resume (.readWait buf len))
      (hok : ReadOk buf len) (hr : a.ring = []) :
      AStep a ⟨none, a.sleptObs⟩ (a.slept buf len)
  | panic {a : Abs cfg} {o : List (Obs cfg)} (h : a.ctl = .resume .faultTail) (ho : ∀ x ∈ o, x.plain) :
      AStep a ⟨none, o⟩ { a with ctl := .halted }
  | halted {a : Abs cfg} (h : a.ctl = .halted) : AStep a ⟨none, []⟩ a

/-! ## Inversion -/

section

variable {a a' : Abs cfg} {l : Label cfg}

theorem AStep.inv_sched (h : AStep a l a') {p : KPoint} (hc : a.ctl = .sched p) :
    (a.need = false ∧ l = ⟨none, []⟩ ∧ a' = { a with ctl := .resume p }) ∨
    (a.need = true ∧ (∀ t, t ≠ a.current → runnable (a.state t) = false) ∧ l = ⟨none, []⟩ ∧
      a' = { a with need := false, hint := none, ctl := .resume p }) ∨
    ∃ c, a.need = true ∧ c ≠ a.current ∧ runnable (a.state c) = true ∧
      (∀ w, a.hint = some w → w ≠ a.current → a.state w = TASK_READY → c = w) ∧
      l = ⟨none, [.switched a.current c]⟩ ∧ a' = a.switch p c := by
  cases h with
  | schedIdle h hn => rw [hc] at h; cases h; exact Or.inl ⟨hn, rfl, rfl⟩
  | schedNone h hn hno => rw [hc] at h; cases h; exact Or.inr (Or.inl ⟨hn, hno, rfl, rfl⟩)
  | schedSwitch h hn hne hr hh =>
      rw [hc] at h; cases h; exact Or.inr (Or.inr ⟨_, hn, hne, hr, hh, rfl, rfl⟩)
  | timer h | spurious h | uartNone h | uartWake h | svcQuiet h | svcExit h | svcKill h
  | svcGot h | svcSlept h
  | fault h | toUser h | readGot h | readSlept h | panic h | halted h => rw [hc] at h; cases h

theorem AStep.inv_exits (h : AStep a l a') {p : KPoint} (hc : a.ctl = .resume p) (hp : p.Exits) :
    l = ⟨none, []⟩ ∧ a' = { a with ctl := .user } := by
  cases h with
  | toUser => exact ⟨rfl, rfl⟩
  | readGot h | readSlept h | panic h => rw [hc] at h; cases h; rcases hp with hp | hp | hp <;> cases hp
  | timer h | spurious h | uartNone h | uartWake h | svcQuiet h | svcExit h | svcKill h
  | svcGot h | svcSlept h
  | fault h | schedIdle h | schedNone h | schedSwitch h | halted h => rw [hc] at h; cases h

theorem AStep.inv_read (h : AStep a l a') {buf len : Word} (hc : a.ctl = .resume (.readWait buf len)) :
    (a.ring ≠ [] ∧ l = ⟨none, a.gotObs buf len⟩ ∧ a' = a.got len) ∨
    (a.ring = [] ∧ l = ⟨none, a.sleptObs⟩ ∧ a' = a.slept buf len) := by
  cases h with
  | readGot h _ hr => rw [hc] at h; cases h; exact Or.inl ⟨hr, rfl, rfl⟩
  | readSlept h _ hr => rw [hc] at h; cases h; exact Or.inr ⟨hr, rfl, rfl⟩
  | toUser h hp => rw [hc] at h; cases h; rcases hp with hp | hp | hp <;> cases hp
  | timer h | spurious h | uartNone h | uartWake h | svcQuiet h | svcExit h | svcKill h
  | svcGot h | svcSlept h
  | fault h | schedIdle h | schedNone h | schedSwitch h | panic h | halted h => rw [hc] at h; cases h

theorem AStep.inv_fault (h : AStep a l a') (hc : a.ctl = .resume .faultTail) :
    (∀ x ∈ l.obs, x.plain) ∧ a' = { a with ctl := .halted } := by
  cases h with
  | panic _ ho => exact ⟨ho, rfl⟩
  | toUser h hp => rw [hc] at h; cases h; rcases hp with hp | hp | hp <;> cases hp
  | timer h | spurious h | uartNone h | uartWake h | svcQuiet h | svcExit h | svcKill h
  | svcGot h | svcSlept h
  | fault h | schedIdle h | schedNone h | schedSwitch h | readGot h | readSlept h | halted h =>
      rw [hc] at h; cases h

theorem AStep.inv_halted (h : AStep a l a') (hc : a.ctl = .halted) : a' = a := by
  cases h with
  | halted => rfl
  | timer h | spurious h | uartNone h | uartWake h | svcQuiet h | svcExit h | svcKill h
  | svcGot h | svcSlept h
  | fault h | schedIdle h | schedNone h | schedSwitch h | toUser h | readGot h | readSlept h | panic h =>
    rw [hc] at h; cases h

theorem plain_not_mem {o : List (Obs cfg)} (ho : ∀ x ∈ o, x.plain) {x : Obs cfg}
    (hx : x.plain = false) : x ∉ o := by
  intro hm
  rw [ho x hm] at hx
  cases hx

theorem rx_not_mem {o : List (Obs cfg)} (ho : RxObs o) {x : Obs cfg} (ha : ∀ c, x ≠ .accepted c)
    (hr : ∀ c, x ≠ .rejected c) : x ∉ o := by
  intro hm
  rcases ho x hm with ⟨c, hc⟩ | ⟨c, hc⟩
  · exact ha c hc
  · exact hr c hc

theorem AStep.inv_queued (h : AStep a l a') {t : Tid cfg} (hm : .queued t ∈ l.obs) :
    t = a.current ∧ a.current ∉ a.queue ∧ a.ring = [] ∧ a'.queue = a.queue ++ [t] ∧
      ∃ buf len, a' = a.slept buf len ∧ (a.ctl = .user ∨ a.ctl = .resume (.readWait buf len)) := by
  have hslept : ∀ buf len, .queued t ∈ a.sleptObs → t = a.current ∧ a.current ∉ a.queue ∧
      (a.slept buf len).queue = a.queue ++ [t] := by
    intro buf len hq
    unfold Abs.sleptObs at hq
    split at hq
    · cases hq
    · rename_i hfree
      obtain rfl : t = a.current := by simpa using hq
      exact ⟨rfl, hfree, if_neg hfree⟩
  cases h with
  | svcSlept hc _ _ hr =>
    obtain ⟨h1, h2, h3⟩ := hslept _ _ hm
    exact ⟨h1, h2, hr, h3, _, _, rfl, Or.inl hc⟩
  | readSlept hc _ hr =>
    obtain ⟨h1, h2, h3⟩ := hslept _ _ hm
    exact ⟨h1, h2, hr, h3, _, _, rfl, Or.inr hc⟩
  | svcGot | readGot =>
    simp only [Abs.gotObs, List.mem_append, List.mem_singleton, reduceCtorEq, or_false] at hm
    exact absurd hm (plain_not_mem (stores_plain _ _) rfl)
  | uartNone _ ho | uartWake _ ho => exact absurd hm (rx_not_mem ho (by simp) (by simp))
  | svcQuiet _ ho | svcExit _ _ ho | svcKill _ _ _ _ ho =>
    simp only [List.mem_append, List.mem_singleton, reduceCtorEq, or_false] at hm
    exact absurd hm (plain_not_mem ho rfl)
  | fault _ _ ho | panic _ ho => exact absurd hm (plain_not_mem ho rfl)
  | timer | spurious | schedIdle | schedNone | schedSwitch | toUser | halted => simp at hm

/-- The `svc` of `sys_read(0, buf, len)`. -/
def Label.Asks (l : Label cfg) (buf len : Word) : Prop :=
  ∃ ctx umem, l.ev = some (.svc ctx umem) ∧ ctx.val.r 7 = SYS_READ ∧ ctx.val.r 1 = buf ∧
    ctx.val.r 2 = len

theorem AStep.inv_readDone (h : AStep a l a') {t : Tid cfg} {len : Word} {bs : List Byte}
    (hm : .readDone t len bs ∈ l.obs) :
    t = a.current ∧ a.ring ≠ [] ∧ bs = a.ring.take len.toNat ∧ a' = a.got len ∧
      ∃ buf, ReadOk buf len ∧ l.obs = a.gotObs buf len ∧
        (a.ctl = .user ∧ l.Asks buf len ∨ a.ctl = .resume (.readWait buf len) ∧ l.ev = none) := by
  have hgot : ∀ buf len', .readDone t len bs ∈ a.gotObs buf len' →
      t = a.current ∧ len = len' ∧ bs = a.ring.take len.toNat := by
    intro buf len' hq
    simp only [Abs.gotObs, List.mem_append, List.mem_singleton, reduceCtorEq, or_false,
      Obs.readDone.injEq] at hq
    rcases hq with hq | ⟨h1, h2, h3⟩
    · exact absurd hq (plain_not_mem (stores_plain _ _) rfl)
    · exact ⟨h1, h2, by rw [h2]; exact h3⟩
  cases h with
  | @svcGot ctx umem hc hnum hok hr =>
    obtain ⟨h1, rfl, h3⟩ := hgot _ _ hm
    exact ⟨h1, hr, h3, rfl, _, hok, rfl, Or.inl ⟨hc, ctx, umem, rfl, hnum, rfl, rfl⟩⟩
  | readGot hc hok hr =>
    obtain ⟨h1, rfl, h3⟩ := hgot _ _ hm
    exact ⟨h1, hr, h3, rfl, _, hok, rfl, Or.inr ⟨hc, rfl⟩⟩
  | svcSlept | readSlept =>
    simp only [Abs.sleptObs] at hm
    split at hm <;> simp at hm
  | uartNone _ ho | uartWake _ ho => exact absurd hm (rx_not_mem ho (by simp) (by simp))
  | svcQuiet _ ho | svcExit _ _ ho | svcKill _ _ _ _ ho =>
    simp only [List.mem_append, List.mem_singleton, reduceCtorEq, or_false] at hm
    exact absurd hm (plain_not_mem ho rfl)
  | fault _ _ ho | panic _ ho => exact absurd hm (plain_not_mem ho rfl)
  | timer | spurious | schedIdle | schedNone | schedSwitch | toUser | halted => simp at hm

theorem sleptObs_sysret {a : Abs cfg} (t : Tid cfg) (ret : Word) : .sysret t ret ∉ a.sleptObs := by
  unfold Abs.sleptObs
  split <;> simp

/-- A system call comes back at its end only, and only the current one. -/
theorem AStep.inv_sysret (h : AStep a l a') :
    (a'.ctl = .sched .svcTail ∧ ∃ o ret, l.obs = o ++ [.sysret a.current ret] ∧ ∀ u r, .sysret u r ∉ o) ∨
    (a'.ctl ≠ .sched .svcTail ∧ ∀ u r, .sysret u r ∉ l.obs) := by
  cases h with
  | svcQuiet _ ho | svcExit _ _ ho | svcKill _ _ _ _ ho =>
    exact Or.inl ⟨rfl, _, _, rfl, fun u r => plain_not_mem ho rfl⟩
  | svcGot | readGot =>
    refine Or.inl ⟨rfl, _, _, rfl, fun u r hm => ?_⟩
    rcases List.mem_append.mp hm with hm | hm
    · exact plain_not_mem (stores_plain _ _) rfl hm
    · simp at hm
  | svcSlept | readSlept => exact Or.inr ⟨by simp [Abs.slept], sleptObs_sysret⟩
  | uartNone _ ho | uartWake _ ho => exact Or.inr ⟨by simp, fun u r => rx_not_mem ho (by simp) (by simp)⟩
  | fault _ _ ho | panic _ ho => exact Or.inr ⟨by simp [Abs.kill], fun u r => plain_not_mem ho rfl⟩
  | halted hc => exact Or.inr ⟨by rw [hc]; simp, by simp⟩
  | timer | spurious | schedIdle | schedNone | schedSwitch | toUser =>
    exact Or.inr ⟨by simp [Abs.switch], by simp⟩

theorem AStep.inv_switch (h : AStep a l a') :
    (∃ p c, a.ctl = .sched p ∧ c ≠ a.current ∧ a' = a.switch p c) ∨
    (a'.current = a.current ∧ a'.kont = a.kont) := by
  cases h with
  | schedSwitch hc _ hne => exact Or.inl ⟨_, _, hc, hne, rfl⟩
  | timer | spurious | uartNone | uartWake | svcQuiet | svcExit | svcKill | svcGot | svcSlept
  | fault | schedIdle
  | schedNone | toUser | readGot | readSlept | panic | halted => exact Or.inr ⟨rfl, rfl⟩

theorem AStep.inv_current (h : AStep a l a') :
    (a'.current = a.current ∧ ∀ p n, .switched p n ∉ l.obs) ∨
      (l.obs = [.switched a.current a'.current] ∧ ∃ p, a.ctl = .sched p) := by
  cases h with
  | schedSwitch hc => exact Or.inr ⟨rfl, _, hc⟩
  | uartNone _ ho | uartWake _ ho => exact Or.inl ⟨rfl, fun p n => rx_not_mem ho (by simp) (by simp)⟩
  | svcQuiet _ ho | svcExit _ _ ho | svcKill _ _ _ _ ho =>
    refine Or.inl ⟨rfl, fun p n hm => ?_⟩
    simp only [List.mem_append, List.mem_singleton, reduceCtorEq, or_false] at hm
    exact plain_not_mem ho rfl hm
  | svcGot | readGot =>
    refine Or.inl ⟨rfl, fun p n hm => ?_⟩
    simp only [Abs.gotObs, List.mem_append, List.mem_singleton, reduceCtorEq, or_false] at hm
    exact plain_not_mem (stores_plain _ _) rfl hm
  | svcSlept | readSlept =>
    refine Or.inl ⟨rfl, fun p n hm => ?_⟩
    simp only [Abs.sleptObs] at hm
    split at hm <;> simp at hm
  | fault _ _ ho | panic _ ho => exact Or.inl ⟨rfl, fun p n => plain_not_mem ho rfl⟩
  | timer | spurious | schedIdle | schedNone | toUser | halted => exact Or.inl ⟨rfl, by simp⟩

end

/-! ## The code refines it -/

/-- The representation behind `Sys.abs`, and what a sleeping `sys_read` has checked. -/
structure Rep (s : Sys cfg) : Prop where
  tables : s.k.TablesOk
  rx : s.k.RxOk
  queueOk : s.k.QueueOk
  kont : ∀ t buf len, s.kont t = .readWait buf len → ReadOk buf len
  ctl : ∀ buf len, s.ctl = .sched (.readWait buf len) ∨ s.ctl = .resume (.readWait buf len) →
    ReadOk buf len

/-- A handler that neither touches the wait queue nor the ring, nor sleeps. -/
theorem Rep.frame {s : Sys cfg} (h : Rep s) {k : Kernel cfg} {c : Ctl} (ht : k.TablesOk)
    (hrx : k.RxOk) (hq : k.QueueOk) (hc : ∀ buf len, c ≠ .sched (.readWait buf len))
    (hc' : ∀ buf len, c ≠ .resume (.readWait buf len)) : Rep { s with k := k, ctl := c } :=
  ⟨ht, hrx, hq, h.kont, fun buf len hs => (hs.elim (hc buf len) (hc' buf len)).elim⟩

theorem fill_wake (k : Kernel cfg) (hrx : k.RxOk) (hq : k.QueueOk) (fifo : List Byte) :
    Drained k fifo (rx_drain k fifo) ∧
      (Emptied (rx_drain k fifo).1 (uart_rx_irq k fifo).1 ∨
        ∃ w rest, Woken (rx_drain k fifo).1 (uart_rx_irq k fifo).1 w rest) := by
  have hd := rx_drain_spec k hrx fifo
  refine ⟨hd, ?_⟩
  obtain ⟨buf, head, tail, he⟩ := hd.same
  apply scheduler_wake_reader_spec
  rw [he]
  exact hq.frame rfl rfl rfl

theorem uart_refines {s : Sys cfg} (h : Rep s) (hu : s.ctl = .user) (fifo : List Byte) :
    Rep (enter s (.irq (.uart fifo))).1 ∧
    AStep s.abs ⟨some (.irq (.uart fifo)), (enter s (.irq (.uart fifo))).2⟩
      (enter s (.irq (.uart fifo))).1.abs := by
  obtain ⟨hd, hw⟩ := fill_wake s.k h.rx h.queueOk fifo
  obtain ⟨buf, head, tail, he⟩ := hd.same
  have hring := hd.ring
  rw [hd.accepted] at hring
  have hok := hd.ok
  rw [he] at hw hring hok
  have henter : (enter s (.irq (.uart fifo))).1 =
      { s with k := (uart_rx_irq s.k fifo).1, ctl := .sched .irqTail } := rfl
  rw [henter]
  generalize (uart_rx_irq s.k fifo).1 = k' at hw
  rcases hw with hw | ⟨w, rest, hw⟩
  · obtain ⟨q, qh, n, rfl⟩ := hw.eq
    refine ⟨h.frame (h.tables.frame rfl (fun _ => ⟨_, rfl⟩)) hok hw.ok (by simp) (by simp), ?_⟩
    have habs :
        Sys.abs { s with k := ((s.k.withRx buf head tail).withQueue q qh n), ctl := .sched .irqTail } =
        { s.abs.fill fifo with queue := [], ctl := .sched .irqTail } := by
      ext1
      case queue => exact hw.queue
      case ring => exact hring
      all_goals rfl
    rw [habs]
    exact AStep.uartNone hu hd.rxOnly hd.accepted hw.corpses
  · obtain ⟨corpses, hq, hcorpses⟩ := hw.found
    obtain ⟨q, qh, n, rfl⟩ := hw.eq
    refine ⟨h.frame (h.tables.frame rfl ?_) hok hw.ok (by simp) (by simp), ?_⟩
    · intro t; rw [setState_eq]; exact ⟨_, rfl⟩
    have habs : Sys.abs { s with
        k := { ((s.k.withRx buf head tail).withQueue q qh n).setState w TASK_READY with
          wake_hint := some w, need_reschedule := true }
        ctl := .sched .irqTail } = { s.abs.fill fifo with
          queue := rest
          state := fun u => if u = w then TASK_READY else s.abs.state u
          hint := some w
          need := true
          ctl := .sched .irqTail } := by
      ext1
      case queue => exact hw.queue
      case ring => exact hring
      case state => funext u; exact setState_state ..
      all_goals rfl
    rw [habs]
    exact AStep.uartWake hu hd.rxOnly hd.accepted hq hcorpses hw.blocked

theorem irq_refines {s : Sys cfg} (h : Rep s) (hu : s.ctl = .user) (i : Irq) :
    Rep (enter s (.irq i)).1 ∧
    AStep s.abs ⟨some (.irq i), (enter s (.irq i)).2⟩ (enter s (.irq i)).1.abs := by
  cases i with
  | timer =>
    refine ⟨h.frame (h.tables.frame rfl (fun _ => ⟨_, rfl⟩)) h.rx (h.queueOk.frame rfl rfl rfl)
      (by simp [handle, handle_irq]) (by simp [handle, handle_irq]), ?_⟩
    exact AStep.timer hu
  | spurious =>
    refine ⟨h.frame h.tables h.rx h.queueOk (by simp [handle, handle_irq])
      (by simp [handle, handle_irq]), ?_⟩
    exact AStep.spurious hu
  | uart fifo => exact uart_refines h hu fifo

theorem tables_states {k : Kernel cfg} (h : k.TablesOk) (f : Tid cfg → task_state_t) :
    (k.withStates f).TablesOk := h.frame rfl (fun _ => ⟨_, rfl⟩)

/-- Where a handler's result leaves the system. -/
def Sys.after (s : Sys cfg) (r : Result cfg) : Sys cfg :=
  { s with k := (finish s.k.current r).1, ctl := svcCtl (finish s.k.current r).2.2 }

theorem read_refines {s : Sys cfg} (h : Rep s) {buf len : Word} (hok : ReadOk buf len) {r : Result cfg}
    (heff : ReadEffect s.k buf len r) : Rep (s.after r) ∧
    ((s.k.ring ≠ [] ∧ (finish s.k.current r).2.1 = s.abs.gotObs buf len ∧
      (s.after r).abs = s.abs.got len) ∨
    (s.k.ring = [] ∧ (finish s.k.current r).2.1 = s.abs.sleptObs ∧
      (s.after r).abs = s.abs.slept buf len)) := by
  cases heff with
  | got hne same ok ring =>
    obtain ⟨b, hd, tl, rfl⟩ := same
    refine ⟨?_, Or.inl ⟨hne, rfl, ?_⟩⟩
    · exact h.frame (h.tables.frame rfl (fun _ => ⟨_, rfl⟩)) ok (h.queueOk.frame rfl rfl rfl)
        (by simp [finish, svcCtl]) (by simp [finish, svcCtl])
    · ext1
      case ring => exact ring
      all_goals rfl
  | slept hnil hs =>
    obtain ⟨q, n, rfl⟩ := hs.eq
    have htab : (s.k.setState s.k.current TASK_BLOCKED).TablesOk := by
      rw [setState_eq]; exact tables_states h.tables _
    refine ⟨?_, Or.inr ⟨hnil, ?_, ?_⟩⟩
    · refine ⟨htab.frame rfl (fun _ => ⟨_, rfl⟩), h.rx, hs.ok, h.kont, ?_⟩
      rintro b l (he | he)
      · cases he; exact hok
      · cases he
    · rcases hs.queue with ⟨hm, -, rfl⟩ | ⟨hm, -, rfl⟩
      · exact (if_pos hm).symm
      · exact (if_neg hm).symm
    · ext1
      case queue =>
        rcases hs.queue with ⟨hm, hq, -⟩ | ⟨hm, hq, -⟩
        · exact hq.trans (if_pos hm).symm
        · exact hq.trans (if_neg hm).symm
      case state => funext u; exact setState_state ..
      all_goals rfl

theorem svc_refines {s : Sys cfg} (h : Rep s) (hu : s.ctl = .user) (ctx : UserContext)
    (umem : Word → Byte) : Rep (enter s (.svc ctx umem)).1 ∧
      AStep s.abs ⟨some (.svc ctx umem), (enter s (.svc ctx umem)).2⟩
        (enter s (.svc ctx umem)).1.abs := by
  obtain ⟨r, heff, hr⟩ := syscall_dispatch_effect s.k h.rx h.queueOk umem ctx
  have henter : enter s (.svc ctx umem) = (s.after r, (finish s.k.current r).2.1) := by
    simp only [enter, handle, handle_svc, hr]
    rfl
  rw [henter]
  cases heff with
  | quiet ho hread =>
    refine ⟨h.frame h.tables h.rx h.queueOk (by simp [finish, svcCtl]) (by simp [finish, svcCtl]), ?_⟩
    exact AStep.svcQuiet hu ho id hread
  | yield hnum =>
    refine ⟨h.frame (h.tables.frame rfl (fun _ => ⟨_, rfl⟩)) h.rx (h.queueOk.frame rfl rfl rfl)
      (by simp [finish, svcCtl]) (by simp [finish, svcCtl]), ?_⟩
    exact AStep.svcQuiet hu (by simp) (fun _ => rfl) fun h => by rw [hnum] at h; cases h
  | exit hnum ho =>
    rw [setState_eq]
    refine ⟨h.frame ((tables_states h.tables _).frame rfl (fun _ => ⟨_, rfl⟩)) h.rx
      (h.queueOk.frame rfl rfl rfl) (by simp [finish, svcCtl]) (by simp [finish, svcCtl]), ?_⟩
    exact AStep.svcExit hu hnum ho
  | kill p hnum hp halive ho =>
    have hal : ∃ t, pidOf t = p ∧ s.k.state t ≠ TASK_DEAD := by
      obtain ⟨t, ht, hs⟩ := halive
      exact ⟨t, (mem_threadsOf h.tables p t).mp ht, hs⟩
    rw [retire_eq h.tables]
    refine ⟨h.frame ((tables_states h.tables _).frame rfl (fun _ => ⟨_, rfl⟩)) h.rx
      (h.queueOk.frame rfl rfl rfl) (by simp [finish, svcCtl]) (by simp [finish, svcCtl]), ?_⟩
    exact AStep.svcKill hu hnum hp hal ho
  | read hnum hok hr =>
    obtain ⟨hrep, ⟨hne, hobs, habs⟩ | ⟨hnil, hobs, habs⟩⟩ := read_refines h hok hr
    · refine ⟨hrep, ?_⟩
      rw [hobs, habs]
      exact AStep.svcGot hu hnum hok hne
    · refine ⟨hrep, ?_⟩
      rw [hobs, habs]
      exact AStep.svcSlept hu hnum hok hnil

theorem fault_enter (s : Sys cfg) (e : Event) (he : e.isFault = true) :
    ∃ o, (∀ x ∈ o, x.plain) ∧ enter s e =
      ({ s with k := scheduler_request_resched (s.k.retire (s.k.threads s.k.current).proc)
                ctl := .sched .faultTail }, o) := by
  refine ⟨(enter s e).2, ?_⟩
  cases e with
  | irq | svc => cases he
  | dataAbort dfsr dfar ctx =>
    simp [enter, handle, handle_data_abort, handle_fault, ctx.property, user_fault_kill,
      Fault.report, Obs.plain]
  | prefetchAbort ifsr ifar ctx =>
    simp [enter, handle, handle_prefetch_abort, handle_fault, ctx.property, user_fault_kill,
      Fault.report, Obs.plain]
  | undefined ctx =>
    simp [enter, handle, handle_undefined, handle_fault, ctx.property, user_fault_kill,
      Fault.report, Obs.plain]

theorem fault_refines {s : Sys cfg} (h : Rep s) (hu : s.ctl = .user) (e : Event)
    (he : e.isFault = true) :
    Rep (enter s e).1 ∧ AStep s.abs ⟨some e, (enter s e).2⟩ (enter s e).1.abs := by
  obtain ⟨o, ho, hk⟩ := fault_enter s e he
  rw [hk, h.tables.proc, retire_eq h.tables]
  refine ⟨h.frame ((tables_states h.tables _).frame rfl (fun _ => ⟨_, rfl⟩)) h.rx
    (h.queueOk.frame rfl rfl rfl) (by simp) (by simp), ?_⟩
  exact AStep.fault hu he ho

theorem schedule_refines {s : Sys cfg} (h : Rep s) {p : KPoint} (hc : s.ctl = .sched p) :
    Rep (call_schedule s p).1 ∧ AStep s.abs ⟨none, (call_schedule s p).2⟩ (call_schedule s p).1.abs := by
  have hp : ∀ buf len, p = .readWait buf len → ReadOk buf len := by
    rintro buf len rfl
    exact h.ctl buf len (Or.inl hc)
  have hresume : ∀ buf len, Ctl.resume p = .sched (.readWait buf len) ∨
      Ctl.resume p = .resume (.readWait buf len) → ReadOk buf len := by
    rintro buf len (he | he)
    · cases he
    · exact hp buf len (Ctl.resume.inj he)
  unfold call_schedule
  rcases schedule_cases s.k with ⟨hn, hs⟩ | ⟨hn, hpick, hs⟩ | ⟨c, hn, hpick, hs⟩
  · rw [hs]
    exact ⟨⟨h.tables, h.rx, h.queueOk, h.kont, hresume⟩, AStep.schedIdle hc hn⟩
  · rw [hs]
    refine ⟨⟨h.tables.frame rfl (fun _ => ⟨_, rfl⟩), h.rx, h.queueOk.frame rfl rfl rfl, h.kont,
      hresume⟩, ?_⟩
    exact AStep.schedNone hc hn fun t ht => pick_none hpick t ht
  · rw [hs, perform_switch_eq]
    obtain ⟨hne, hr⟩ := pick_some hpick
    refine ⟨⟨(tables_states h.tables _).frame rfl (fun _ => ⟨_, rfl⟩), h.rx,
      h.queueOk.frame rfl rfl rfl, ?_, ?_⟩, ?_⟩
    · intro t buf len ht
      have ht' : Function.update s.kont s.k.current p t = .readWait buf len := ht
      by_cases hcur : t = s.k.current
      · subst hcur
        rw [Function.update_self] at ht'
        exact hp buf len ht'
      · rw [Function.update_of_ne hcur] at ht'
        exact h.kont t buf len ht'
    · rintro buf len (he | he)
      · cases he
      · exact h.kont c buf len (Ctl.resume.inj he)
    · refine AStep.schedSwitch hc hn hne hr ?_
      intro w hw hwc hready
      have := pick_hint hw hwc hready
      rw [hpick] at this
      exact Option.some.inj this

theorem return_exits (s : Sys cfg) {p : KPoint} (hp : p.Exits) :
    return_to s p = ({ s with ctl := .user }, []) := by
  rcases hp with rfl | rfl | rfl <;> rfl

theorem return_refines {s : Sys cfg} (h : Rep s) {p : KPoint} (hc : s.ctl = .resume p) :
    Rep (return_to s p).1 ∧ AStep s.abs ⟨none, (return_to s p).2⟩ (return_to s p).1.abs := by
  have hexits :
      p.Exits → Rep (return_to s p).1 ∧ AStep s.abs ⟨none, (return_to s p).2⟩ (return_to s p).1.abs := by
    intro hp
    rw [return_exits s hp]
    exact ⟨h.frame h.tables h.rx h.queueOk (by simp) (by simp), AStep.toUser hc hp⟩
  cases p with
  | firstEntry => exact hexits (Or.inl rfl)
  | irqTail => exact hexits (Or.inr (Or.inl rfl))
  | svcTail => exact hexits (Or.inr (Or.inr rfl))
  | readWait buf len =>
    have hok := h.ctl buf len (Or.inr hc)
    have heff := sys_read_loop_effect s.k h.rx h.queueOk buf len hok.1
    have hret : return_to s (.readWait buf len) =
        (s.after (sys_read_loop s.k buf len),
          (finish s.k.current (sys_read_loop s.k buf len)).2.1) := rfl
    rw [hret]
    obtain ⟨hrep, ⟨hne, hobs, habs⟩ | ⟨hnil, hobs, habs⟩⟩ := read_refines h hok heff
    · refine ⟨hrep, ?_⟩
      rw [hobs, habs]
      exact AStep.readGot hc hok hne
    · refine ⟨hrep, ?_⟩
      rw [hobs, habs]
      exact AStep.readSlept hc hok hnil
  | faultTail =>
    exact ⟨h.frame h.tables h.rx h.queueOk (by simp) (by simp),
      AStep.panic hc (by simp [return_to, halt_forever, Obs.plain])⟩

theorem step_refines {s s' : Sys cfg} {l : Label cfg} (h : Rep s) (hs : Step s l s') :
    Rep s' ∧ AStep s.abs l s'.abs := by
  cases hs with
  | event e hu =>
    cases e with
    | irq i => exact irq_refines h hu i
    | svc ctx umem => exact svc_refines h hu ctx umem
    | dataAbort | prefetchAbort | undefined => exact fault_refines h hu _ rfl
  | kernel hu =>
    unfold kernelStep
    cases hc : s.ctl with
    | user => exact absurd hc hu
    | halted => exact ⟨h, AStep.halted hc⟩
    | sched p => exact schedule_refines h hc
    | resume p => exact return_refines h hc

theorem rep_start : Rep (start cfg) := by
  have hq : (boot cfg).queue = [] := by rw [boot_eq]; rfl
  refine ⟨boot_tables_ok, ?_, ?_, ?_, ?_⟩
  · show (boot cfg).RxOk
    rw [boot_eq]
    show (0#32 - 0#32 : Word).toNat ≤ 127
    decide
  · show (boot cfg).QueueOk
    refine ⟨?_, ?_, ?_, ?_, ?_⟩
    · rw [boot_eq]; exact Nat.zero_le _
    · rw [boot_eq]; exact cfg.num_threads_pos
    · rw [hq, boot_eq]; rfl
    · rw [hq]; exact List.nodup_nil
    · rw [boot_eq]; intro j _ _; rfl
  · intro t buf len ht; cases ht
  · rintro buf len (he | he) <;> cases he

theorem start_abs : (start cfg).abs =
    { current := first, state := fun _ => TASK_READY, queue := [], ring := [], hint := none,
      need := false
      kont := fun _ => .firstEntry, ctl := .resume .firstEntry } := by
  have hring : (boot cfg).ring = [] := (rx_empty_iff _).mp (by rw [boot_eq]; rfl)
  ext1
  case ring => exact hring
  case current => exact congrArg Kernel.current boot_eq
  case state => exact congrArg Kernel.state boot_eq
  case queue => exact congrArg Kernel.queue boot_eq
  case hint => exact congrArg Kernel.wake_hint boot_eq
  case need => exact congrArg Kernel.need_reschedule boot_eq
  all_goals rfl

/-- A run of the code is a run of `AStep` with the same labels. -/
theorem run_refines {s s' : Sys cfg} {tr : List (Label cfg)} (h : Rep s) (hr : Lib.Run Step s tr s') :
    Rep s' ∧ Lib.Run AStep s.abs tr s'.abs := by
  induction hr with
  | refl => exact ⟨h, .refl⟩
  | snoc _ hs ih =>
    obtain ⟨hrep, hrun⟩ := ih
    obtain ⟨hrep', hstep⟩ := step_refines hrep hs
    exact ⟨hrep', hrun.snoc hstep⟩

end CortexAOS
