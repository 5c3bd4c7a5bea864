import CortexAOS.Invariant

/-!
# A receive interrupt and the reader it wakes

The reader that was woken is switched to and takes its bytes before user code runs again. What it
leaves in the ring stays there, while the next reader in the queue goes on sleeping.
-/

namespace CortexAOS

open task_state_t Kernel

variable {cfg : Config}

def Abs.waiting (a : Abs cfg) : List (Tid cfg) := a.queue.filter (a.state · = TASK_BLOCKED)

def Kernel.waiting (k : Kernel cfg) : List (Tid cfg) := k.queue.filter (k.state · = TASK_BLOCKED)

def Kernel.filled (k : Kernel cfg) (fifo : List Byte) : List Byte :=
  k.ring ++ fifo.take (127 - k.ring.length)

/-- The interrupt handler has woken `w`, and `rest` still waits. -/
def Abs.woken (a : Abs cfg) (fifo : List Byte) (w : Tid cfg) (rest : List (Tid cfg)) : Abs cfg :=
  { a.fill fifo with
    queue := rest
    state := fun u => if u = w then TASK_READY else a.state u
    hint := some w
    need := true
    ctl := .sched .irqTail }

theorem mem_waiting {a : Abs cfg} (h : Inv a) (t : Tid cfg) :
    t ∈ a.waiting ↔ a.state t = TASK_BLOCKED := by
  unfold Abs.waiting
  rw [List.mem_filter, decide_eq_true_iff]
  exact ⟨And.right, fun ht => ⟨h.mem_queue t ht, ht⟩⟩

theorem waiting_cons {a : Abs cfg} {corpses rest : List (Tid cfg)} {w : Tid cfg}
    (hq : a.queue = corpses ++ w :: rest) (hcorpses : ∀ u ∈ corpses, a.state u ≠ TASK_BLOCKED)
    (hw : a.state w = TASK_BLOCKED) : a.waiting = w :: rest.filter (a.state · = TASK_BLOCKED) := by
  have hnil : corpses.filter (a.state · = TASK_BLOCKED) = [] :=
    List.filter_eq_nil_iff.mpr fun u hu => by simpa using hcorpses u hu
  unfold Abs.waiting
  rw [hq, List.filter_append, hnil, List.nil_append, List.filter_cons_of_pos (by simpa using hw)]

theorem AStep.inv_uart {a a' : Abs cfg} {fifo : List Byte} {o : List (Obs cfg)}
    (h : AStep a ⟨some (.irq (.uart fifo)), o⟩ a') :
    RxObs o ∧ acceptedBytes o = fifo.take (127 - a.ring.length) ∧
    ((a.waiting = [] ∧ a' = { a.fill fifo with queue := [], ctl := .sched .irqTail }) ∨
      ∃ w rest, a.waiting = w :: rest.filter (a.state · = TASK_BLOCKED) ∧ a' = a.woken fifo w rest) := by
  generalize hl : (⟨some (.irq (.uart fifo)), o⟩ : Label cfg) = l at h
  cases h with
  | uartNone _ ho hacc hcorpses =>
    cases hl
    exact ⟨ho, hacc, Or.inl ⟨List.filter_eq_nil_iff.mpr fun u hu => by simpa using hcorpses u hu, rfl⟩⟩
  | uartWake _ ho hacc hq hcorpses hw =>
    cases hl
    exact ⟨ho, hacc, Or.inr ⟨_, _, waiting_cons hq hcorpses hw, rfl⟩⟩
  | fault _ he => cases hl; cases he
  | timer | spurious | svcQuiet | svcExit | svcKill | svcGot | svcSlept | schedIdle | schedNone
  | schedSwitch | toUser | readGot | readSlept | panic | halted => cases hl

/-! ## Kernel steps with one outcome -/

section

variable {s : Sys cfg}

theorem kernel_refines (h : Rep s) (hu : s.ctl ≠ .user) :
    Rep (kernelStep s).1 ∧ AStep s.abs ⟨none, (kernelStep s).2⟩ (kernelStep s).1.abs :=
  step_refines h (.kernel hu)

theorem kernel_hint (h : Rep s) (hi : Inv s.abs) {w : Tid cfg} (hw : s.abs.hint = some w) :
    Rep (kernelStep s).1 ∧ (kernelStep s).2 = [.switched s.k.current w] ∧
      (kernelStep s).1.abs = s.abs.switch .irqTail w := by
  obtain ⟨hne, hready, -, hneed, hc⟩ := hi.hint w hw
  obtain ⟨hrep, hstep⟩ := kernel_refines h (show s.abs.ctl ≠ .user by rw [hc]; simp)
  rcases hstep.inv_sched hc with ⟨hn, -⟩ | ⟨-, hno, -⟩ | ⟨c, -, -, -, hhint, hl, ha⟩
  · rw [hneed] at hn; cases hn
  · have := hno w hne
    rw [hready] at this; cases this
  · obtain rfl := hhint w hw hne hready
    exact ⟨hrep, congrArg Label.obs hl, ha⟩

theorem kernel_got (h : Rep s) {buf len : Word} (hc : s.ctl = .resume (.readWait buf len))
    (hr : s.k.ring ≠ []) :
    Rep (kernelStep s).1 ∧ (kernelStep s).2 = s.abs.gotObs buf len ∧
    (kernelStep s).1.abs = s.abs.got len := by
  obtain ⟨hrep, hstep⟩ := kernel_refines h (by rw [hc]; simp)
  rcases hstep.inv_read hc with ⟨-, hl, ha⟩ | ⟨hnil, -⟩
  · exact ⟨hrep, congrArg Label.obs hl, ha⟩
  · exact absurd hnil hr

theorem kernel_idle (h : Rep s) {p : KPoint} (hc : s.ctl = .sched p) (hn : s.k.need_reschedule = false) :
    Rep (kernelStep s).1 ∧ (kernelStep s).2 = [] ∧
    (kernelStep s).1.abs = { s.abs with ctl := .resume p } := by
  obtain ⟨hrep, hstep⟩ := kernel_refines h (by rw [hc]; simp)
  rcases hstep.inv_sched hc with ⟨-, hl, ha⟩ | ⟨hneed, -⟩ | ⟨c, hneed, -⟩
  · exact ⟨hrep, congrArg Label.obs hl, ha⟩
  · rw [show s.abs.need = false from hn] at hneed; cases hneed
  · rw [show s.abs.need = false from hn] at hneed; cases hneed

theorem kernel_exits (h : Rep s) {p : KPoint} (hc : s.ctl = .resume p) (hp : p.Exits) :
    Rep (kernelStep s).1 ∧ (kernelStep s).2 = [] ∧
    (kernelStep s).1.abs = { s.abs with ctl := .user } := by
  obtain ⟨hrep, hstep⟩ := kernel_refines h (by rw [hc]; simp)
  obtain ⟨hl, ha⟩ := hstep.inv_exits hc hp
  exact ⟨hrep, congrArg Label.obs hl, ha⟩

end

/-! ## From the interrupt to the reader's user code -/

/-- The reader `w` has been woken in `s0`, and its `sys_read` asks for `len` bytes at `buf`. Then come
the switch to it, its copy loop, and the way back to its user code. -/
structure Served (s s0 : Sys cfg) (fifo : List Byte) (w : Tid cfg) (rest : List (Tid cfg))
    (buf len : Word) : Prop where
  waiting : s.k.waiting = w :: rest.filter (s.k.state · = TASK_BLOCKED)
  asks : s.kont w = .readWait buf len
  woken : s0.abs = s.abs.woken fifo w rest
  switch : (kernelStep s0).2 = [.switched s.k.current w] ∧ (settle 1 s0).abs = s0.abs.switch .irqTail w
  read : (kernelStep (settle 1 s0)).2 = (settle 1 s0).abs.gotObs buf len ∧
    (settle 2 s0).abs = (settle 1 s0).abs.got len
  sched :
    (kernelStep (settle 2 s0)).2 = [] ∧
    (settle 3 s0).abs = { (settle 2 s0).abs with ctl := .resume .svcTail }
  user : (kernelStep (settle 3 s0)).2 = [] ∧ (settle 4 s0).abs = { (settle 2 s0).abs with ctl := .user }

theorem served {s : Sys cfg} (hrep : Rep s) (hinv : Inv s.abs) (hu : s.ctl = .user) (fifo : List Byte)
    {w : Tid cfg} (hw : s.k.waiting.head? = some w) (hne : s.k.filled fifo ≠ []) :
    ∃ rest buf len, Served s (enter s (.irq (.uart fifo))).1 fifo w rest buf len := by
  obtain ⟨hrep0, hstep0⟩ := step_refines hrep (.event (.irq (.uart fifo)) hu)
  have hinv0 := inv_step hinv hstep0
  obtain ⟨-, -, ⟨hnil, -⟩ | ⟨w', rest, hwait, habs0⟩⟩ := hstep0.inv_uart
  · rw [show s.k.waiting = [] from hnil] at hw
    cases hw
  obtain rfl : w' = w := by
    rw [show s.k.waiting = _ from hwait] at hw
    exact Option.some.inj hw
  have hblocked : s.k.state w' = TASK_BLOCKED := (mem_waiting hinv w').mp (by rw [hwait]; simp)
  have hcur : w' ≠ s.k.current := by rintro rfl; exact (hinv.user hu).2.2.1 hblocked
  obtain ⟨buf, len, (hkont : s.kont w' = _)⟩ := hinv.asleep w' hcur hblocked
  generalize (enter s (.irq (.uart fifo))).1 = s0 at hrep0 hinv0 habs0
  have hctl0 : s0.ctl = .sched .irqTail := congrArg Abs.ctl habs0
  have hcur0 : s0.k.current = s.k.current := congrArg Abs.current habs0
  have hkont0 : s0.kont = s.kont := congrArg Abs.kont habs0
  have hring0 : s0.k.ring = s.k.filled fifo := congrArg Abs.ring habs0
  obtain ⟨hrep1, hobs1, habs1⟩ := kernel_hint hrep0 hinv0 (congrArg Abs.hint habs0)
  have hone : settle 1 s0 = (kernelStep s0).1 := settle_snoc 0 s0 (by rw [settle_zero, hctl0]; simp)
  rw [← hone] at hrep1 habs1
  have hctl1 : (settle 1 s0).ctl = .resume (.readWait buf len) := by
    rw [← hkont, ← hkont0]; exact congrArg Abs.ctl habs1
  have hring1 : (settle 1 s0).k.ring = s0.k.ring := congrArg Abs.ring habs1
  obtain ⟨hrep2, hobs2, habs2⟩ := kernel_got hrep1 hctl1 (by rw [hring1, hring0]; exact hne)
  rw [← settle_snoc 1 s0 (by rw [hctl1]; simp)] at hrep2 habs2
  have hctl2 : (settle 2 s0).ctl = .sched .svcTail := congrArg Abs.ctl habs2
  have hneed2 : (settle 2 s0).k.need_reschedule = false := by
    have h2 : (settle 2 s0).k.need_reschedule = (settle 1 s0).k.need_reschedule :=
      congrArg Abs.need habs2
    have h1 : (settle 1 s0).k.need_reschedule = false := congrArg Abs.need habs1
    rw [h2, h1]
  obtain ⟨hrep3, hobs3, habs3⟩ := kernel_idle hrep2 hctl2 hneed2
  rw [← settle_snoc 2 s0 (by rw [hctl2]; simp)] at hrep3 habs3
  have hctl3 : (settle 3 s0).ctl = .resume .svcTail := congrArg Abs.ctl habs3
  obtain ⟨-, hobs4, habs4⟩ := kernel_exits hrep3 hctl3 (Or.inr (Or.inr rfl))
  rw [← settle_snoc 3 s0 (by rw [hctl3]; simp)] at habs4
  refine ⟨rest, buf, len, hwait, hkont, habs0, ⟨by rw [hobs1, hcur0], habs1⟩, ⟨hobs2, habs2⟩,
    ⟨hobs3, habs3⟩, hobs4, ?_⟩
  rw [habs4, habs3]

theorem Served.final {s s0 : Sys cfg} {fifo : List Byte} {w : Tid cfg} {rest : List (Tid cfg)}
    {buf len : Word} (h : Served s s0 fifo w rest buf len) :
    (settle 4 s0).abs = { ((s.abs.woken fifo w rest).switch .irqTail w).got len with ctl := .user } := by
  rw [h.user.2, h.read.2, h.switch.2, h.woken]

theorem Served.final_state {s s0 : Sys cfg} {fifo : List Byte} {w : Tid cfg} {rest : List (Tid cfg)}
    {buf len : Word} (h : Served s s0 fifo w rest buf len) (t : Tid cfg) :
    (settle 4 s0).k.state t = TASK_BLOCKED ↔ t ≠ w ∧ s.k.state t = TASK_BLOCKED := by
  rw [show (settle 4 s0).k.state t = _ from congrFun (congrArg Abs.state h.final) t]
  show switchStates (fun u => if u = w then TASK_READY else s.k.state u) s.k.current w t = _ ↔ _
  unfold switchStates
  by_cases hw : t = w
  · simp [hw]
  · by_cases hcur :
      t = s.k.current ∧ (if s.k.current = w then TASK_READY else s.k.state s.k.current) = TASK_RUNNING
    · obtain ⟨rfl, hrun⟩ := hcur
      rw [if_neg hw] at hrun
      simp [hw, hrun]
    · simp only [hw, hcur, if_false, not_false_eq_true, true_and, ne_eq]

/-! ## Bytes that nobody comes for -/

def KPoint.asks : KPoint → Nat
  | .readWait _ len => len.toNat
  | _ => 0

/-- A receive interrupt leaves no byte behind for a second reader: there is none, or the first one
takes all. -/
def Fits (s : Sys cfg) : Event → Prop
  | .irq (.uart fifo) =>
    match s.k.waiting with
    | w :: _ :: _ => (s.k.filled fifo).length ≤ (s.kont w).asks
    | _ => True
  | _ => True

instance (s : Sys cfg) : (e : Event) → Decidable (Fits s e)
  | .irq (.uart fifo) =>
    match h : s.k.waiting with
    | w :: _ :: _ => decidable_of_iff ((s.k.filled fifo).length ≤ (s.kont w).asks) (by simp [Fits, h])
    | [_] | [] => .isTrue (by simp [Fits, h])
  | .irq .timer | .irq .spurious | .svc .. | .dataAbort .. | .prefetchAbort ..
  | .undefined .. => .isTrue trivial

def Abs.left (a : Abs cfg) : List Byte :=
  match a.ctl, a.hint with
  | .sched .irqTail, some w => a.ring.drop (a.kont w).asks
  | .resume p, _ => a.ring.drop p.asks
  | _, _ => a.ring

def NoneLost (a : Abs cfg) : Prop := a.left ≠ [] → ∀ t, a.state t ≠ TASK_BLOCKED

theorem exits_asks {p : KPoint} (h : p.Exits) : p.asks = 0 := by
  rcases h with rfl | rfl | rfl <;> rfl

theorem NoneLost.user {a : Abs cfg} (h : NoneLost a) (hu : a.ctl = .user) (hr : a.ring ≠ [])
    (t : Tid cfg) : a.state t ≠ TASK_BLOCKED := by
  refine h ?_ t
  rw [Abs.left, hu]
  exact hr

theorem left_ring {a : Abs cfg} (h : a.left ≠ []) : a.ring ≠ [] := by
  intro hr
  apply h
  unfold Abs.left
  split <;> simp [hr]

theorem left_sched {a : Abs cfg} {p : KPoint} (hc : a.ctl = .sched p) (hh : a.hint = none) :
    a.left = a.ring := by
  unfold Abs.left
  rw [hc, hh]
  cases p <;> rfl

theorem NoneLost.keeps {a a' : Abs cfg} (h : NoneLost a) (hleft : a'.left ≠ [] → a.left ≠ [])
    (hst : ∀ t, a'.state t = TASK_BLOCKED → a.state t = TASK_BLOCKED) : NoneLost a' :=
  fun hl t ht => h (hleft hl) t (hst t ht)

theorem NoneLost.from_user {a a' : Abs cfg} (h : NoneLost a) (hu : a.ctl = .user)
    (hring : a'.ring ≠ [] → a.ring ≠ [])
    (hst : ∀ t, a'.state t = TASK_BLOCKED → a.state t = TASK_BLOCKED) : NoneLost a' :=
  fun hl t ht => h.user hu (hring (left_ring hl)) t (hst t ht)

theorem kill_blocked {a : Abs cfg} (dies : Tid cfg → Prop) [DecidablePred dies] (p : KPoint)
    (t : Tid cfg) (h : (a.kill dies p).state t = TASK_BLOCKED) : a.state t = TASK_BLOCKED := by
  have h' : (if dies t then TASK_DEAD else a.state t) = TASK_BLOCKED := h
  split at h'
  · cases h'
  · exact h'

theorem switch_blocked {a : Abs cfg} (p : KPoint) (c t : Tid cfg)
    (h : (a.switch p c).state t = TASK_BLOCKED) : a.state t = TASK_BLOCKED := by
  have h' : switchStates a.state a.current c t = TASK_BLOCKED := h
  by_cases ht : t = c
  · rw [ht, switchStates_cand] at h'; cases h'
  · rcases switchStates_of_ne ht with ⟨-, he⟩ | ⟨-, -, he⟩
    · rwa [he] at h'
    · rw [he] at h'; cases h'

theorem woken_none_lost {a : Abs cfg} (hi : Inv a) {fifo : List Byte} {w : Tid cfg}
    {rest : List (Tid cfg)} (hw : a.waiting = w :: rest.filter (a.state · = TASK_BLOCKED))
    (hfits : ∀ v vs, a.waiting = w :: v :: vs → (a.fill fifo).ring.length ≤ (a.kont w).asks) :
    NoneLost (a.woken fifo w rest) := by
  intro hleft t ht
  have hleft' : (a.fill fifo).ring.drop (a.kont w).asks ≠ [] := hleft
  have ht' : (if t = w then TASK_READY else a.state t) = TASK_BLOCKED := ht
  split at ht'
  · cases ht'
  · rename_i hne
    have hm := (mem_waiting hi t).mpr ht'
    rw [hw, List.mem_cons] at hm
    cases hrest : rest.filter (a.state · = TASK_BLOCKED) with
    | nil => rw [hrest] at hm; simp [hne] at hm
    | cons v vs =>
      have hlen := hfits v vs (by rw [hw, hrest])
      exact hleft' (List.drop_eq_nil_of_le hlen)

theorem none_lost_step {a a' : Abs cfg} {l : Label cfg} (hi : Inv a) (h : NoneLost a) (hs : AStep a l a')
    (hfits : ∀ fifo w v vs, l.ev = some (.irq (.uart fifo)) → a.waiting = w :: v :: vs →
      (a.fill fifo).ring.length ≤ (a.kont w).asks) : NoneLost a' := by
  cases hs with
  | timer hu | spurious hu | svcQuiet hu => exact h.from_user hu id fun _ => id
  | uartNone hu _ _ hcorpses =>
    intro _ t ht
    exact hcorpses t (hi.mem_queue t ht) ht
  | @uartWake fifo o corpses w rest hu _ _ hq hcorpses hw =>
    exact woken_none_lost hi (waiting_cons hq hcorpses hw) fun v vs hv => hfits fifo w v vs rfl hv
  | svcExit hu | svcKill hu | fault hu => exact h.from_user hu id (kill_blocked _ _)
  | @svcGot ctx umem hu =>
    refine h.from_user hu ?_ fun _ => id
    intro hr hnil
    have hr' : a.ring.drop (ctx.val.r 2).toNat ≠ [] := hr
    rw [hnil] at hr'
    simp at hr'
  | svcSlept _ _ _ hr | readSlept _ _ hr => exact fun hl => (left_ring hl hr).elim
  | schedIdle hc hn =>
    refine h.keeps ?_ fun _ => id
    intro hl
    have hring := left_ring hl
    rw [left_sched hc (hi.hint_need hn)]
    exact hring
  | schedNone hc _ hno =>
    refine h.keeps ?_ fun _ => id
    intro hl
    have hring := left_ring hl
    rw [left_sched hc (hi.hint_other hno)]
    exact hring
  | @schedSwitch p c hc _ hne hr hhint =>
    refine h.keeps ?_ (switch_blocked p c)
    intro hl
    cases hw : a.hint with
    | none =>
      have hring := left_ring hl
      rw [left_sched hc hw]
      exact hring
    | some w =>
      -- The woken reader is the one switched to, so it leaves the same bytes.
      obtain ⟨hwne, hready, -, -, hirq⟩ := hi.hint w hw
      obtain rfl := hhint w hw hwne hready
      rw [Abs.left, hirq, hw]
      exact hl
  | @toUser p hc hp =>
    refine h.keeps ?_ fun _ => id
    intro hl
    rw [Abs.left, hc]
    simpa [exits_asks hp] using left_ring hl
  | @readGot buf len hc =>
    refine h.keeps ?_ fun _ => id
    intro hl
    rw [Abs.left, hc]
    exact left_ring hl
  | panic hc =>
    refine h.keeps ?_ fun _ => id
    intro hl
    rw [Abs.left, hc]
    simpa [KPoint.asks] using left_ring hl
  | halted => exact h

theorem fits_abs {s : Sys cfg} {fifo : List Byte} (h : Fits s (.irq (.uart fifo))) (w v : Tid cfg)
    (vs : List (Tid cfg)) (hw : s.abs.waiting = w :: v :: vs) :
    (s.abs.fill fifo).ring.length ≤ (s.abs.kont w).asks := by
  simp only [Fits, show s.k.waiting = w :: v :: vs from hw] at h
  exact h

/-- In every run whose receive interrupts leave no byte behind for a second reader, no reader sleeps
in user mode while bytes wait. -/
theorem no_lost_wakeup {s : Sys cfg} {tr : List (Label cfg)}
    (hr : Lib.Run (StepWhere Fits) (start cfg) tr s)
    (hu : s.ctl = .user) (hring : uart_rx_empty s.k = false) (t : Tid cfg) :
    s.k.state t ≠ TASK_BLOCKED := by
  have hall : Rep s ∧ Inv s.abs ∧ NoneLost s.abs := by
    refine hr.invariant (I := fun s => Rep s ∧ Inv s.abs ∧ NoneLost s.abs) ?_ ⟨rep_start, inv_start, ?_⟩
    · rintro s l s' ⟨hrep, hi, hn⟩ ⟨hs, hok⟩
      obtain ⟨hrep', hstep⟩ := step_refines hrep hs
      refine ⟨hrep', inv_step hi hstep, none_lost_step hi hn hstep ?_⟩
      intro fifo w v vs hl hw
      exact fits_abs (hok _ hl) w v vs hw
    · rw [start_abs]
      intro _ t ht
      cases ht
  refine hall.2.2.user hu ?_ t
  intro hnil
  unfold uart_rx_empty at hring
  rw [decide_eq_false_iff_not, rx_empty_iff] at hring
  exact hring hnil

def readEvent (len : Word) : Event := svcEvent SYS_READ 0 USER_VIRT_BASE len

/-- One reader of one byte, and two bytes. -/
def oneReader : Sys demo := drive 5 (start demo) [readEvent 1#32, .irq (.uart [0x41#8, 0x42#8])]

theorem no_lost_wakeup_one_reader :
    oneReader.ctl = .user ∧ oneReader.k.ring = [0x42#8] ∧ oneReader.k.state (wrap 0) ≠ TASK_BLOCKED := by
  obtain ⟨tr, hr⟩ :=
    drive_run Fits 5 (start demo) [readEvent 1#32, .irq (.uart [0x41#8, 0x42#8])] (by decide)
  have hu : oneReader.ctl = .user := by decide
  exact ⟨hu, by decide, no_lost_wakeup hr hu (by decide) (wrap 0)⟩

/-- Two readers of one byte each, and two bytes in one interrupt. -/
def twoReaders : Sys demo :=
  drive 5 (start demo) [readEvent 1#32, readEvent 1#32, .irq (.uart [0x41#8, 0x42#8])]

theorem second_reader_sleeps_on :
    ¬ ∀ s : Sys demo, Reachable s → s.ctl = .user → uart_rx_empty s.k = false →
      ∀ t ∈ s.k.queue, s.k.state t ≠ TASK_BLOCKED := by
  intro h
  have hs : Reachable twoReaders := drive_reachable 5 (start demo) _ ⟨[], .refl⟩
  exact h twoReaders hs (by decide) (by decide) (wrap 1) (by decide) (by decide)

/-- The condition is exact: an interrupt that leaves a byte behind loses a wake-up. -/
theorem unfit_loses {s : Sys cfg} (hs : Reachable s) (hu : s.ctl = .user) (fifo : List Byte)
    (hfit : ¬ Fits s (.irq (.uart fifo))) :
    ∃ n, (settle n (enter s (.irq (.uart fifo))).1).ctl = .user ∧
      (settle n (enter s (.irq (.uart fifo))).1).k.ring ≠ [] ∧
      ∃ t, (settle n (enter s (.irq (.uart fifo))).1).k.state t = TASK_BLOCKED := by
  have hrep := reachable_rep hs
  have hinv := reachable_inv hs
  obtain ⟨w, v, vs, hwait, hlen⟩ : ∃ w v vs, s.k.waiting = w :: v :: vs ∧
      (s.kont w).asks < (s.k.filled fifo).length := by
    simp only [Fits] at hfit
    split at hfit
    · rename_i w v vs hwait
      exact ⟨w, v, vs, hwait, by omega⟩
    · exact absurd trivial hfit
  have hne : s.k.filled fifo ≠ [] := by
    intro hnil
    rw [hnil] at hlen
    simp at hlen
  obtain ⟨rest, buf, len, hserved⟩ := served hrep hinv hu fifo (by rw [hwait]; rfl) hne
  generalize (enter s (.irq (.uart fifo))).1 = s0 at hserved
  have hvblocked : s.k.state v = TASK_BLOCKED :=
    (mem_waiting hinv v).mp (by rw [show s.abs.waiting = _ from hwait]; simp)
  have hvw : v ≠ w := by
    have hnodup : s.k.waiting.Nodup := hinv.nodup.filter _
    rw [hwait] at hnodup
    rintro rfl
    simp at hnodup
  refine ⟨4, congrArg Abs.ctl hserved.final, ?_, v, (hserved.final_state v).mpr ⟨hvw, hvblocked⟩⟩
  · rw [show (settle 4 s0).k.ring = (s.k.filled fifo).drop len.toNat from congrArg Abs.ring
      hserved.final]
    rw [hserved.asks, KPoint.asks] at hlen
    intro hnil
    rw [List.drop_eq_nil_iff] at hnil
    omega

end CortexAOS
