import CortexAOS.Readers

/-!
# Whether a sleeping reader can still be woken

Input comes in user mode only. The kernel gets back there unless it goes round in `sys_read` on an
empty ring, or has no thread to switch to after a fault.
-/

namespace CortexAOS

open task_state_t Kernel

variable {cfg : Config}

/-- The thread whose `sys_read` looks at the ring next. -/
def Abs.nextReader (a : Abs cfg) : Option (Tid cfg) :=
  match a.ctl with
  | .sched .irqTail => a.hint
  | .sched (.readWait _ _) | .resume (.readWait _ _) => some a.current
  | _ => none

/-- The kernel never gets back to user mode. -/
def Abs.Stuck (a : Abs cfg) : Prop :=
  match a.ctl with
  | .halted => True
  | .sched .faultTail | .resume .faultTail => ∀ u, u ≠ a.current → a.state u ≠ TASK_READY
  | _ => ∃ r, a.nextReader = some r ∧ a.ring = [] ∧ ∀ u, u ≠ r → runnable (a.state u) = false

/-- Some run from here on completes the `sys_read` of `t`, with at least one byte, and returns to `t`. -/
def CanComplete (s : Sys cfg) (t : Tid cfg) : Prop :=
  ∃ tr s', Lib.Run Step s tr s' ∧ (∃ l ∈ tr, ∃ len bs, .readDone t len bs ∈ l.obs ∧ 1 ≤ bs.length) ∧
    s'.ctl = .user ∧ s'.k.current = t

/-! ## Stuck for good -/

theorem stuck_sched {a a' : Abs cfg} {l : Label cfg} (hi : Inv a) (h : a.Stuck) (hs : AStep a l a')
    {p : KPoint} (hc : a.ctl = .sched p) : a'.Stuck := by
  have hp := hi.sched hc
  cases p with
  | firstEntry => exact hp.elim
  | svcTail => simp [Abs.Stuck, Abs.nextReader, hc] at h
  | irqTail =>
    simp only [Abs.Stuck, Abs.nextReader, hc] at h
    obtain ⟨r, hr, hring, hno⟩ := h
    obtain ⟨hne, hready, ⟨buf, len, hk⟩, hneed, -⟩ := hi.hint r hr
    rcases hs.inv_sched hc with ⟨hn, -⟩ | ⟨-, hnone, -⟩ | ⟨c, -, -, -, hhint, -, rfl⟩
    · rw [hneed] at hn; cases hn
    · have := hnone r hne
      rw [hready] at this; cases this
    · obtain rfl := hhint r hr hne hready
      simp only [Abs.Stuck, Abs.nextReader, Abs.switch, hk]
      refine ⟨c, rfl, hring, fun u hu => ?_⟩
      rw [switchStates_kept hu]
      · exact hno u hu
      · intro _ hrun
        have := hno u hu
        rw [hrun] at this; cases this
  | readWait buf len =>
    simp only [Abs.Stuck, Abs.nextReader, hc] at h
    obtain ⟨r, hr, hring, hno⟩ := h
    obtain rfl := Option.some.inj hr
    rcases hs.inv_sched hc with ⟨hn, -⟩ | ⟨-, -, -, rfl⟩ | ⟨c, -, hne, hrun, -⟩
    · rw [hp.2.2] at hn; cases hn
    · exact ⟨a.current, rfl, hring, hno⟩
    · rw [hno c hne] at hrun; cases hrun
  | faultTail =>
    simp only [Abs.Stuck, hc] at h
    rcases hs.inv_sched hc with ⟨hn, -⟩ | ⟨-, -, -, rfl⟩ | ⟨c, -, hne, hrun, -⟩
    · rw [hp.2] at hn; cases hn
    · exact h
    · exact absurd (hi.runnable hne hrun).1 (h c hne)

theorem stuck_resume {a a' : Abs cfg} {l : Label cfg} (h : a.Stuck) (hs : AStep a l a') {p : KPoint}
    (hc : a.ctl = .resume p) : a'.Stuck := by
  cases p with
  | firstEntry | irqTail | svcTail => simp [Abs.Stuck, Abs.nextReader, hc] at h
  | readWait buf len =>
    simp only [Abs.Stuck, Abs.nextReader, hc] at h
    obtain ⟨r, hr, hring, hno⟩ := h
    obtain rfl := Option.some.inj hr
    rcases hs.inv_read hc with ⟨hne, -⟩ | ⟨-, -, rfl⟩
    · exact absurd hring hne
    · refine ⟨a.current, rfl, hring, fun u hu => ?_⟩
      show runnable (if u = a.current then TASK_BLOCKED else a.state u) = false
      rw [if_neg hu]
      exact hno u hu
  | faultTail =>
    rw [(hs.inv_fault hc).2]
    trivial

theorem stuck_step {a a' : Abs cfg} {l : Label cfg} (hi : Inv a) (h : a.Stuck) (hs : AStep a l a') :
    a'.Stuck := by
  cases hc : a.ctl with
  | user => simp [Abs.Stuck, Abs.nextReader, hc] at h
  | sched p => exact stuck_sched hi h hs hc
  | resume p => exact stuck_resume h hs hc
  | halted => rw [hs.inv_halted hc]; exact h

theorem stuck_silent {a a' : Abs cfg} {l : Label cfg} (h : a.Stuck) (hs : AStep a l a') (t : Tid cfg) :
    ¬ Completes t l := by
  rintro ⟨len, bs, hm⟩
  obtain ⟨-, hr, -, -, buf, -, -, ⟨hc, -⟩ | ⟨hc, -⟩⟩ := hs.inv_readDone hm
  · simp [Abs.Stuck, Abs.nextReader, hc] at h
  · simp only [Abs.Stuck, hc] at h
    obtain ⟨r, -, hring, -⟩ := h
    exact hr hring

theorem stuck_cannot {s : Sys cfg} (hrep : Rep s) (hi : Inv s.abs) (h : s.abs.Stuck) (t : Tid cfg) :
    ¬ CanComplete s t := by
  rintro ⟨tr, s', hr, ⟨l, hl, len, bs, hm, -⟩, -⟩
  have hall : s'.abs.Stuck ∧ ∀ l ∈ tr, ¬ Completes t l := by
    have hrun := (run_refines hrep hr).2.restrict (fun _ _ _ hi hs => inv_step hi hs) hi
    refine hrun.history (I := fun tr a => a.Stuck ∧ ∀ l ∈ tr, ¬ Completes t l) ?_ ⟨h, by simp⟩
    rintro tr a l a' ⟨hst, hnone⟩ ⟨hs, hia, -⟩
    refine ⟨stuck_step hia hst hs, ?_⟩
    intro l' hl'
    rcases List.mem_append.mp hl' with hl' | hl'
    · exact hnone l' hl'
    · obtain rfl := List.mem_singleton.mp hl'
      exact stuck_silent hst hs t
  exact hall.2 l hl ⟨len, bs, hm⟩

/-! ## Back to user mode -/

def ReachesUser (s : Sys cfg) : Prop :=
  ∃ n, (settle n s).ctl = .user ∧ ∀ t, s.k.state t = TASK_BLOCKED → (settle n s).k.state t = TASK_BLOCKED

section

variable {s : Sys cfg}

theorem ReachesUser.prepend (hu : s.ctl ≠ .user)
    (hb : ∀ t, s.k.state t = TASK_BLOCKED → (kernelStep s).1.k.state t = TASK_BLOCKED)
    (h : ReachesUser (kernelStep s).1) : ReachesUser s := by
  obtain ⟨n, hn, hkeep⟩ := h
  refine ⟨n + 1, ?_, fun t ht => ?_⟩
  · rw [settle_succ n s hu]; exact hn
  · rw [settle_succ n s hu]; exact hkeep t (hb t ht)

theorem exits_reaches (hrep : Rep s) {p : KPoint} (hc : s.ctl = .resume p) (hp : p.Exits) :
    ReachesUser s := by
  obtain ⟨-, -, habs⟩ := kernel_exits hrep hc hp
  have hst : (kernelStep s).1.k.state = s.k.state := congrArg Abs.state habs
  refine ReachesUser.prepend (by rw [hc]; simp) (fun t ht => by rw [hst]; exact ht)
    ⟨0, ?_, fun t ht => ht⟩
  exact congrArg Abs.ctl habs

theorem switch_keeps_blocked {a : Abs cfg} {p : KPoint} {c : Tid cfg}
    (hr : runnable (a.state c) = true) (t : Tid cfg)
    (ht : a.state t = TASK_BLOCKED) : (a.switch p c).state t = TASK_BLOCKED := by
  have hne : t ≠ c := by rintro rfl; rw [ht] at hr; cases hr
  exact (switchStates_kept hne fun _ => by rw [ht]; simp).trans ht

theorem sched_reaches (hrep : Rep s) (hi : Inv s.abs) {p : KPoint} (hc : s.ctl = .sched p)
    (hh : s.k.wake_hint = none) (hp : p.Exits ∨ ∃ u, u ≠ s.k.current ∧ s.k.state u = TASK_READY) :
    ReachesUser s := by
  have hu : s.ctl ≠ .user := by rw [hc]; simp
  obtain ⟨hrep', hstep⟩ := kernel_refines hrep hu
  rcases hstep.inv_sched hc with ⟨hn, -, habs⟩ | ⟨-, hno, -, habs⟩ | ⟨c, -, hne, hr, -, -, habs⟩
  · have hexits : p.Exits := by
      have hsched := hi.sched hc
      cases p with
      | firstEntry => exact hsched.elim
      | irqTail => exact Or.inr (Or.inl rfl)
      | svcTail => exact Or.inr (Or.inr rfl)
      | readWait buf len => rw [hsched.2.2] at hn; cases hn
      | faultTail => rw [hsched.2] at hn; cases hn
    have hst : (kernelStep s).1.k.state = s.k.state := congrArg Abs.state habs
    exact .prepend hu (fun t ht => by rw [hst]; exact ht)
      (exits_reaches hrep' (congrArg Abs.ctl habs) hexits)
  · have hexits : p.Exits := by
      refine hp.resolve_right ?_
      rintro ⟨u, hne, hready⟩
      have := hno u hne
      rw [show s.abs.state u = TASK_READY from hready] at this
      cases this
    have hst : (kernelStep s).1.k.state = s.k.state := congrArg Abs.state habs
    exact .prepend hu (fun t ht => by rw [hst]; exact ht)
      (exits_reaches hrep' (congrArg Abs.ctl habs) hexits)
  · have hst : (kernelStep s).1.k.state = _ := congrArg Abs.state habs
    have hexits : (s.kont c).Exits :=
      hi.ready c hne (hi.runnable hne hr).1 (by rw [show s.abs.hint = none from hh]; simp)
    refine .prepend hu (fun t ht => ?_) (exits_reaches hrep' (congrArg Abs.ctl habs) hexits)
    rw [hst]
    exact switch_keeps_blocked hr t ht

theorem read_reaches (hrep : Rep s) (hi : Inv s.abs) {buf len : Word}
    (hc : s.ctl = .resume (.readWait buf len))
    (hr : s.k.ring ≠ [] ∨ ∃ u, u ≠ s.k.current ∧ s.k.state u = TASK_READY) : ReachesUser s := by
  have hu : s.ctl ≠ .user := by rw [hc]; simp
  obtain ⟨hrep', hstep⟩ := kernel_refines hrep hu
  have hi' := inv_step hi hstep
  rcases hstep.inv_read hc with ⟨-, -, habs⟩ | ⟨hnil, -, habs⟩
  · have hst : (kernelStep s).1.k.state = s.k.state := congrArg Abs.state habs
    have hc' : (kernelStep s).1.ctl = .sched .svcTail := congrArg Abs.ctl habs
    refine .prepend hu (fun t ht => by rw [hst]; exact ht)
      (sched_reaches hrep' hi' hc' ?_ (Or.inl (Or.inr (Or.inr rfl))))
    exact hi'.no_hint (show (kernelStep s).1.ctl ≠ _ by rw [hc']; simp)
  · obtain ⟨u, hne, hready⟩ := hr.resolve_left fun h => h hnil
    have hst : ∀ t, (kernelStep s).1.k.state t = if t = s.k.current then TASK_BLOCKED else s.k.state t :=
      fun t => congrFun (congrArg Abs.state habs) t
    have hcur : (kernelStep s).1.k.current = s.k.current := congrArg Abs.current habs
    have hc' : (kernelStep s).1.ctl = .sched (.readWait buf len) := congrArg Abs.ctl habs
    refine .prepend hu (fun t ht => ?_) (sched_reaches hrep' hi' hc' ?_ (Or.inr ⟨u, ?_, ?_⟩))
    · rw [hst, ht, ite_self]
    · exact hi'.no_hint (show (kernelStep s).1.ctl ≠ _ by rw [hc']; simp)
    · rw [hcur]; exact hne
    · rw [hst, if_neg hne]; exact hready

theorem hint_reaches (hrep : Rep s) (hi : Inv s.abs) {w : Tid cfg} (hw : s.k.wake_hint = some w)
    (hr : s.k.ring ≠ [] ∨ ∃ u, u ≠ w ∧ runnable (s.k.state u) = true) : ReachesUser s := by
  obtain ⟨hne, hready, ⟨buf, len, hk⟩, -, (hc : s.ctl = _)⟩ := hi.hint w hw
  obtain ⟨hrep', -, habs⟩ := kernel_hint hrep hi hw
  have hu : s.ctl ≠ .user := by rw [hc]; simp
  have hi' : Inv (kernelStep s).1.abs := inv_step hi (kernel_refines hrep hu).2
  have hc' : (kernelStep s).1.ctl = .resume (.readWait buf len) := by
    rw [← hk]; exact congrArg Abs.ctl habs
  have hst : (kernelStep s).1.k.state = _ := congrArg Abs.state habs
  refine .prepend hu (fun t ht => ?_) (read_reaches hrep' hi' hc' ?_)
  · rw [hst]
    exact switch_keeps_blocked (by rw [hready]; rfl) t ht
  · rcases hr with hr | ⟨u, huw, hrun⟩
    · left
      rw [show (kernelStep s).1.k.ring = s.k.ring from congrArg Abs.ring habs]
      exact hr
    · right
      rw [show (kernelStep s).1.k.current = w from congrArg Abs.current habs]
      refine ⟨u, huw, ?_⟩
      rw [hst]
      show switchStates s.k.state s.k.current w u = TASK_READY
      rcases switchStates_of_ne huw with ⟨hkept, he⟩ | ⟨-, -, he⟩
      · rw [he]
        rcases (by simpa [runnable] using hrun : s.k.state u = TASK_READY ∨
          s.k.state u = TASK_RUNNING) with h | h
        · exact h
        · exact absurd h (hkept (hi.running u h))
      · exact he

theorem not_stuck_reaches (hrep : Rep s) (hi : Inv s.abs) (h : ¬ s.abs.Stuck) : ReachesUser s := by
  have hhint : s.ctl ≠ .sched .irqTail → s.k.wake_hint = none := hi.no_hint
  have hother : (∃ u, u ≠ s.k.current ∧ runnable (s.k.state u) = true) →
      ∃ u, u ≠ s.k.current ∧ s.k.state u = TASK_READY := by
    rintro ⟨u, hne, hr⟩
    exact ⟨u, hne, (hi.runnable hne hr).1⟩
  cases hc : s.ctl with
  | user => exact ⟨0, hc, fun t ht => ht⟩
  | halted => exact absurd (by rw [Abs.Stuck, show s.abs.ctl = _ from hc]; trivial) h
  | sched p =>
    have hp := hi.sched hc
    cases p with
    | firstEntry => exact hp.elim
    | svcTail => exact sched_reaches hrep hi hc (hhint (by rw [hc]; simp)) (Or.inl (Or.inr (Or.inr rfl)))
    | irqTail =>
      cases hw : s.k.wake_hint with
      | none => exact sched_reaches hrep hi hc hw (Or.inl (Or.inr (Or.inl rfl)))
      | some w =>
        refine hint_reaches hrep hi hw ?_
        simp only [Abs.Stuck, Abs.nextReader, show s.abs.ctl = _ from hc, not_exists, not_and,
          not_forall] at h
        by_contra hn
        rw [not_or, not_not] at hn
        obtain ⟨u, hu, hr⟩ := h w hw hn.1
        exact hn.2 ⟨u, hu, eq_true_of_ne_false hr⟩
    | readWait buf len =>
      simp only [Abs.Stuck, Abs.nextReader, show s.abs.ctl = _ from hc, not_exists, not_and,
        not_forall] at h
      obtain ⟨u, hu, hr⟩ := h _ rfl hp.2.1
      exact sched_reaches hrep hi hc (hhint (by rw [hc]; simp))
        (Or.inr (hother ⟨u, hu, eq_true_of_ne_false hr⟩))
    | faultTail =>
      simp only [Abs.Stuck, show s.abs.ctl = _ from hc, not_forall, not_not] at h
      obtain ⟨u, hu, hr⟩ := h
      exact sched_reaches hrep hi hc (hhint (by rw [hc]; simp)) (Or.inr ⟨u, hu, hr⟩)
  | resume p =>
    cases p with
    | firstEntry => exact exits_reaches hrep hc (Or.inl rfl)
    | irqTail => exact exits_reaches hrep hc (Or.inr (Or.inl rfl))
    | svcTail => exact exits_reaches hrep hc (Or.inr (Or.inr rfl))
    | readWait buf len =>
      refine read_reaches hrep hi hc ?_
      simp only [Abs.Stuck, Abs.nextReader, show s.abs.ctl = _ from hc, not_exists, not_and,
        not_forall] at h
      by_cases hring : s.k.ring = []
      · obtain ⟨u, hu, hr⟩ := h _ rfl hring
        exact Or.inr (hother ⟨u, hu, eq_true_of_ne_false hr⟩)
      · exact Or.inl hring
    | faultTail =>
      simp only [Abs.Stuck, show s.abs.ctl = _ from hc, not_forall, not_not] at h
      obtain ⟨u, hu, hr⟩ := h
      have := (hi.resume hc).2.2 u hu
      rw [hr] at this
      cases this

end

/-! ## One byte for each sleeper -/

theorem one_byte {s : Sys cfg} (hs : Reachable s) (hu : s.ctl = .user) {w : Tid cfg}
    (hw : s.k.waiting.head? = some w) :
    ∃ tr s' len bs, Lib.Run Step s tr s' ∧ s'.ctl = .user ∧ s'.k.current = w ∧
      (∃ l ∈ tr, .readDone w len bs ∈ l.obs) ∧ 1 ≤ bs.length ∧
      s'.k.waiting.length < s.k.waiting.length ∧
      ∀ t, t ≠ w → s.k.state t = TASK_BLOCKED → s'.k.state t = TASK_BLOCKED := by
  have hrep := reachable_rep hs
  have hi := reachable_inv hs
  have hne : s.k.filled [0x0D#8] ≠ [] := fill_ne_nil s.abs (by simp)
  obtain ⟨rest, buf, len, hserved⟩ := served hrep hi hu [0x0D#8] hw hne
  obtain ⟨s0, hfirst⟩ := serves_first hrep hi hu (show [0x0D#8] ≠ [] by simp) hw
  rw [hfirst.enter] at hserved
  obtain ⟨buf', len', bs, hbs, hread⟩ := hfirst.read
  have hctl0 :
    s0.ctl ≠ .user := by rw [show s0.ctl = _ from congrArg Abs.ctl hserved.woken]; simp [Abs.woken]
  have hctl1 : (settle 1 s0).ctl ≠ .user := by
    rw [show (settle 1 s0).ctl = _ from congrArg Abs.ctl hserved.switch.2]; simp [Abs.switch]
  have hctl2 : (settle 2 s0).ctl ≠ .user := by
    rw [show (settle 2 s0).ctl = _ from congrArg Abs.ctl hserved.read.2]; simp [Abs.got]
  have hctl3 : (settle 3 s0).ctl ≠ .user := by
    rw [show (settle 3 s0).ctl = _ from congrArg Abs.ctl hserved.sched.2]; simp
  have h0 := Step.event (.irq (.uart [0x0D#8])) hu
  have h1 := Step.kernel hctl0
  have h2 := Step.kernel hctl1
  have h3 := Step.kernel hctl2
  have h4 := Step.kernel hctl3
  rw [hfirst.enter] at h0
  rw [hfirst.switch.1] at h1
  rw [hread] at h2
  rw [hfirst.leave.1] at h3
  rw [hfirst.leave.2] at h4
  have hrun := Lib.Run.cons h0 (.cons h1 (.cons h2 (.cons h3 (.single h4))))
  refine ⟨_, settle 4 s0, len', bs, hrun, hfirst.user.1, hfirst.user.2, ?_, hbs, ?_, ?_⟩
  · exact ⟨_, List.mem_cons_of_mem _ (List.mem_cons_of_mem _ (List.mem_cons_self ..)), by simp⟩
  · have hq : (settle 4 s0).k.queue = rest := congrArg Abs.queue hserved.final
    rw [hserved.waiting, List.length_cons, Kernel.waiting, hq, ← List.countP_eq_length_filter,
      ← List.countP_eq_length_filter]
    refine Nat.lt_succ_of_le (List.countP_mono_left fun t _ ht => ?_)
    rw [decide_eq_true_iff] at ht ⊢
    exact ((hserved.final_state t).mp ht).2
  · exact fun t htw ht => (hserved.final_state t).mpr ⟨htw, ht⟩

theorem user_can_complete {s : Sys cfg} (hs : Reachable s) (hu : s.ctl = .user) (t : Tid cfg)
    (ht : s.k.state t = TASK_BLOCKED) : CanComplete s t := by
  induction hn : s.k.waiting.length using Nat.strong_induction_on generalizing s with
  | _ n ih =>
    have hm := (mem_waiting (reachable_inv hs) t).mpr ht
    obtain ⟨w, rest, hw⟩ := List.exists_cons_of_ne_nil (List.ne_nil_of_mem hm)
    have hhead : s.k.waiting.head? = some w := by rw [show s.k.waiting = _ from hw]; rfl
    obtain ⟨tr, s', len, bs, hr, hu', hcur, ⟨l, hl, hdone⟩, hbs, hlt, hkeep⟩ := one_byte hs hu hhead
    by_cases htw : t = w
    · subst htw
      exact ⟨tr, s', hr, ⟨l, hl, len, bs, hdone, hbs⟩, hu', hcur⟩
    · have hs' : Reachable s' := by
        obtain ⟨tr0, hr0⟩ := hs
        exact ⟨_, hr0.trans hr⟩
      obtain ⟨tr', s'', hr', ⟨l', hl', hd⟩, hend⟩ := ih _ (hn ▸ hlt) hs' hu' (hkeep t htw ht) rfl
      exact ⟨tr ++ tr', s'', hr.trans hr', ⟨l', by simp [hl'], hd⟩, hend⟩

/-! ## Exactly when -/

theorem blocked_read_completes_iff {s : Sys cfg} (hs : Reachable s) (t : Tid cfg)
    (ht : s.k.state t = TASK_BLOCKED) : CanComplete s t ↔ ¬ s.abs.Stuck := by
  have hrep := reachable_rep hs
  have hi := reachable_inv hs
  constructor
  · exact fun hc hst => stuck_cannot hrep hi hst t hc
  · intro hst
    obtain ⟨n, hu, hkeep⟩ := not_stuck_reaches hrep hi hst
    obtain ⟨tr, hr⟩ := settle_run (fun _ _ => True) n s
    obtain ⟨tr', s', hr', ⟨l, hl, hd⟩, hend⟩ := user_can_complete (hs.run hr) hu t (hkeep t ht)
    exact ⟨tr ++ tr', s', (hr.mono fun _ _ _ h => h.1).trans hr', ⟨l, by simp [hl], hd⟩, hend⟩

/-- The second of two sleepers, while a third thread runs. -/
theorem blocked_read_completes_two : CanComplete twoAsleep (wrap 1) := by
  have hs : Reachable twoAsleep := drive_reachable 5 (start demo) _ ⟨[], .refl⟩
  have hu : twoAsleep.abs.ctl = .user := by decide
  exact (blocked_read_completes_iff hs (wrap 1) (by decide)).mpr
    (by simp [Abs.Stuck, Abs.nextReader, hu])

/-- Five threads sleep, and the sixth one has just called `scheduler_block_on_input`. -/
def lastAsleep : Sys demo :=
  (enter (drive 5 (start demo) (List.replicate 5 (readEvent 1#32))) (readEvent 1#32)).1

theorem last_reader_hangs :
    ¬ ∀ (s : Sys demo) (t : Tid demo), Reachable s → s.k.state t = TASK_BLOCKED → CanComplete s t := by
  intro h
  have hs : Reachable lastAsleep :=
    (drive_reachable 5 (start demo) _ ⟨[], .refl⟩).step (.event (readEvent 1#32) (by decide))
  have hc : lastAsleep.abs.ctl = .sched (.readWait USER_VIRT_BASE 1#32) := by decide
  have hring : lastAsleep.abs.ring = [] := by decide
  have hno : ∀ u, u ≠ lastAsleep.abs.current → runnable (lastAsleep.abs.state u) = false := by decide
  have hst : lastAsleep.abs.Stuck := by
    simp only [Abs.Stuck, Abs.nextReader, hc]
    exact ⟨_, rfl, hring, hno⟩
  exact stuck_cannot (reachable_rep hs) (reachable_inv hs) hst (wrap 0)
    (h lastAsleep (wrap 0) hs (by decide))

end CortexAOS
