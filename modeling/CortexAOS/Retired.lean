import CortexAOS.Invariant

/-!
# Retired threads

A thread that retires itself is left behind by the next switch, if there is one. When nobody else
is READY, `schedule()` comes back and the kernel returns to the dead thread.
-/

namespace CortexAOS

open task_state_t Kernel

variable {cfg : Config}

/-- The event is a `sys_exit`, or a `sys_kill` of the caller's own process, that leaves no READY
thread to switch to. -/
def Strands (s : Sys cfg) : Event → Prop
  | .svc ctx _ =>
    (ctx.val.r 7 = SYS_EXIT ∧ ∀ t, t ≠ s.k.current → s.k.state t ≠ TASK_READY) ∨
    (ctx.val.r 7 = SYS_KILL ∧ (ctx.val.r 0).toNat = (s.k.threads s.k.current).proc.val ∧
      ∀ t, (s.k.threads t).proc ≠ (s.k.threads s.k.current).proc → s.k.state t ≠ TASK_READY)
  | _ => False

def Abs.Strands (a : Abs cfg) : Event → Prop
  | .svc ctx _ =>
    (ctx.val.r 7 = SYS_EXIT ∧ ∀ t, t ≠ a.current → a.state t ≠ TASK_READY) ∨
    (ctx.val.r 7 = SYS_KILL ∧ (ctx.val.r 0).toNat = (pidOf a.current).val ∧
      ∀ t, pidOf t ≠ pidOf a.current → a.state t ≠ TASK_READY)
  | _ => False

theorem strands_abs {s : Sys cfg} (h : Rep s) (e : Event) : Strands s e ↔ s.abs.Strands e := by
  cases e with
  | svc ctx umem => simp only [Strands, Abs.Strands, h.tables.proc]; rfl
  | irq | dataAbort | prefetchAbort | undefined => rfl

instance (s : Sys cfg) : (e : Event) → Decidable (Strands s e)
  | .svc ctx _ => inferInstanceAs (Decidable (
      (ctx.val.r 7 = SYS_EXIT ∧ ∀ t, t ≠ s.k.current → s.k.state t ≠ TASK_READY) ∨
      (ctx.val.r 7 = SYS_KILL ∧ (ctx.val.r 0).toNat = (s.k.threads s.k.current).proc.val ∧
        ∀ t, (s.k.threads t).proc ≠ (s.k.threads s.k.current).proc → s.k.state t ≠ TASK_READY)))
  | .irq _ | .dataAbort .. | .prefetchAbort .. | .undefined .. => inferInstanceAs (Decidable False)

/-- No event strands its thread. -/
def SoundStep : Sys cfg → Label cfg → Sys cfg → Prop := StepWhere fun s e => ¬ Strands s e

/-- Where the current thread may be DEAD: in `schedule()`, with another one to switch to, or on
the way to a panic. -/
def NoCorpse (a : Abs cfg) : Prop :=
  match a.ctl with
  | .user | .sched .irqTail | .resume .firstEntry | .resume .irqTail | .resume .svcTail =>
    a.state a.current ≠ TASK_DEAD
  | .sched .svcTail => a.state a.current = TASK_DEAD → a.need = true ∧ ¬ NoOther a
  | _ => True

theorem NoCorpse.user {a : Abs cfg} (h : NoCorpse a) (hu : a.ctl = .user) :
    a.state a.current ≠ TASK_DEAD := by
  rwa [NoCorpse, hu] at h

theorem switch_alive {a : Abs cfg} (p : KPoint) (c : Tid cfg) : NoCorpse (a.switch p c) := by
  have hcur : (a.switch p c).state (a.switch p c).current ≠ TASK_DEAD := by
    rw [show (a.switch p c).state (a.switch p c).current = TASK_RUNNING from if_pos rfl]; simp
  unfold NoCorpse
  split <;> first | exact hcur | trivial

theorem not_noOther {a : Abs cfg} {t : Tid cfg} (hne : t ≠ a.current) (hr : a.state t = TASK_READY) :
    ¬ NoOther a := by
  intro h
  have := h t hne
  rw [hr] at this
  cases this

/-- The states of the dead after one step. -/
def DeadKept (a a' : Abs cfg) : Prop := ∀ t, a.state t = TASK_DEAD → a'.state t = TASK_DEAD

theorem kill_dead (a : Abs cfg) (dies : Tid cfg → Prop) [DecidablePred dies] (p : KPoint) :
    DeadKept a (a.kill dies p) := by
  intro t ht
  show (if dies t then TASK_DEAD else a.state t) = TASK_DEAD
  rw [ht, ite_self]

theorem slept_dead {a : Abs cfg} (h : a.state a.current ≠ TASK_DEAD) (buf len : Word) :
    DeadKept a (a.slept buf len) := by
  intro t ht
  have hne : t ≠ a.current := by rintro rfl; exact h ht
  exact (if_neg hne).trans ht

theorem switch_dead {a : Abs cfg} (p : KPoint) {c : Tid cfg} (hr : runnable (a.state c) = true) :
    DeadKept a (a.switch p c) := by
  intro t ht
  have hne : t ≠ c := by rintro rfl; rw [ht] at hr; cases hr
  refine (if_neg hne).trans ((if_neg ?_).trans ht)
  rintro ⟨rfl, hrun⟩
  rw [ht] at hrun; cases hrun

theorem dead_step {a a' : Abs cfg} {l : Label cfg} (hi : Inv a) (hn : NoCorpse a) (hs : AStep a l a') :
    DeadKept a a' := by
  cases hs with
  | @uartWake fifo o corpses w rest hu _ _ _ _ hw =>
    intro t ht
    have hne : t ≠ w := by rintro rfl; rw [ht] at hw; cases hw
    exact (if_neg hne).trans ht
  | svcExit | svcKill | fault => exact kill_dead a _ _
  | svcSlept hu => exact slept_dead (hn.user hu) _ _
  | readSlept hc =>
    refine slept_dead ?_ _ _
    rcases (hi.resume hc).2 with he | ⟨he, -⟩ <;> rw [he] <;> simp
  | schedSwitch _ _ _ hr => exact switch_dead _ hr
  | timer | spurious | uartNone | svcQuiet | svcGot | schedIdle | schedNone | toUser | readGot | panic
  | halted => exact fun _ ht => ht

theorem no_corpse_step {a a' : Abs cfg} {l : Label cfg} (hi : Inv a) (hn : NoCorpse a)
    (hs : AStep a l a') (hsound : ∀ e, l.ev = some e → ¬ a.Strands e) : NoCorpse a' := by
  cases hs with
  | timer hu | spurious hu | uartNone hu => exact hn.user hu
  | @uartWake fifo o corpses w rest hu _ _ _ _ hw =>
    show (if a.current = w then TASK_READY else a.state a.current) ≠ TASK_DEAD
    split
    · simp
    · exact hn.user hu
  | svcQuiet hu | svcGot hu => exact fun hd => absurd hd (hn.user hu)
  | @svcExit ctx umem o hu hnum =>
    have hns := hsound _ rfl
    simp only [Abs.Strands, hnum, true_and, not_or, not_forall, not_not] at hns
    obtain ⟨⟨t, hne, hr⟩, -⟩ := hns
    exact fun _ => ⟨rfl, not_noOther hne ((if_neg hne).trans hr)⟩
  | @svcKill ctx umem o p hu hnum hp =>
    intro hd
    by_cases hown : pidOf a.current = p
    · subst hown
      have hns := hsound _ rfl
      simp only [Abs.Strands, hnum, hp, true_and, not_or, not_forall, not_not] at hns
      obtain ⟨-, ⟨t, hne, hr⟩⟩ := hns
      have htc : t ≠ a.current := by rintro rfl; exact hne rfl
      exact ⟨rfl, not_noOther htc ((if_neg hne).trans hr)⟩
    · have hcur : (a.kill (pidOf · = p) .svcTail).state a.current = a.state a.current := if_neg hown
      exact absurd (hcur.symm.trans hd) (hn.user hu)
  | svcSlept | fault | readSlept | panic => trivial
  | @schedIdle p hc hneed =>
    have hp := hi.sched hc
    cases p with
    | firstEntry => exact hp.elim
    | irqTail => rw [NoCorpse, hc] at hn; exact hn
    | svcTail =>
      rw [NoCorpse, hc] at hn
      intro hd
      have := (hn hd).1
      rw [hneed] at this; cases this
    | readWait | faultTail => trivial
  | @schedNone p hc _ hno =>
    have hp := hi.sched hc
    cases p with
    | firstEntry => exact hp.elim
    | irqTail => rw [NoCorpse, hc] at hn; exact hn
    | svcTail =>
      rw [NoCorpse, hc] at hn
      exact fun hd => absurd hno (hn hd).2
    | readWait | faultTail => trivial
  | schedSwitch => exact switch_alive _ _
  | @toUser p hc hp =>
    rw [NoCorpse, hc] at hn
    rcases hp with rfl | rfl | rfl <;> exact hn
  | readGot hc =>
    intro hd
    have hd' : a.state a.current = TASK_DEAD := hd
    rcases (hi.resume hc).2 with he | ⟨he, -⟩ <;> rw [hd'] at he <;> cases he
  | halted hc => rw [NoCorpse, hc]; trivial

/-! ## Runs -/

/-- What `SoundStep` keeps. -/
structure Sound (s : Sys cfg) : Prop where
  rep : Rep s
  inv : Inv s.abs
  noCorpse : NoCorpse s.abs

theorem sound_step {s s' : Sys cfg} {l : Label cfg} (h : Sound s) (hs : SoundStep s l s') :
    Sound s' ∧ DeadKept s.abs s'.abs := by
  obtain ⟨hrep, hastep⟩ := step_refines h.rep hs.1
  have hsound : ∀ e, l.ev = some e → ¬ s.abs.Strands e := by
    intro e he
    rw [← strands_abs h.rep]
    exact hs.2 e he
  exact ⟨⟨hrep, inv_step h.inv hastep, no_corpse_step h.inv h.noCorpse hastep hsound⟩,
    dead_step h.inv h.noCorpse hastep⟩

theorem sound_start : Sound (start cfg) := by
  refine ⟨rep_start, inv_start, ?_⟩
  rw [start_abs]
  exact fun hd => by cases hd

theorem sound_run {s s' : Sys cfg} {tr : List (Label cfg)} (h : Sound s)
    (hr : Lib.Run SoundStep s tr s') : Sound s' ∧ DeadKept s.abs s'.abs := by
  refine hr.invariant (I := fun u => Sound u ∧ DeadKept s.abs u.abs) ?_ ⟨h, fun _ ht => ht⟩
  rintro u l u' ⟨hu, hdead⟩ hs
  obtain ⟨hu', hdead'⟩ := sound_step hu hs
  exact ⟨hu', fun t ht => hdead' t (hdead t ht)⟩

theorem retired_stays_retired {s s' : Sys cfg} {tr tr' : List (Label cfg)}
    (hr : Lib.Run SoundStep (start cfg) tr s) (t : Tid cfg) (hd : s.k.state t = TASK_DEAD)
    (hr' : Lib.Run SoundStep s tr' s') :
    s'.k.state t = TASK_DEAD ∧ (s'.ctl = .user → s'.k.current ≠ t) := by
  obtain ⟨hs, -⟩ := sound_run sound_start hr
  obtain ⟨hs', hdead⟩ := sound_run hs hr'
  have hd' : s'.k.state t = TASK_DEAD := hdead t hd
  refine ⟨hd', ?_⟩
  rintro hu rfl
  exact hs'.noCorpse.user hu hd'

def exitEvent : Event := svcEvent SYS_EXIT 0 0 0

def twoExits : Sys demo := drive 4 (start demo) [exitEvent, exitEvent]

theorem retired_stays_retired_two :
    twoExits.k.state (wrap 1) = TASK_DEAD ∧
      (drive 4 twoExits [svcEvent SYS_KILL 2#32 0 0]).k.state (wrap 1) = TASK_DEAD := by
  obtain ⟨tr, hr⟩ :=
    drive_run (fun s e => ¬ Strands s e) 4 (start demo) [exitEvent, exitEvent] (by decide)
  obtain ⟨tr', hr'⟩ :=
    drive_run (fun s e => ¬ Strands s e) 4 twoExits [svcEvent SYS_KILL 2#32 0 0] (by decide)
  have hd : twoExits.k.state (wrap 1) = TASK_DEAD := by decide
  exact ⟨hd, (retired_stays_retired hr (wrap 1) hd hr').1⟩

def allExit : Sys demo := drive 4 (start demo) (List.replicate 6 exitEvent)

/-- The last thread to exit is current in user mode, and its next `sys_read` makes it BLOCKED. -/
theorem last_exit_returns :
    ¬ ∀ (s s' : Sys demo) (tr : List (Label demo)) (t : Tid demo), Reachable s →
      s.k.state t = TASK_DEAD →
      Lib.Run Step s tr s' → s'.k.state t = TASK_DEAD ∧ (s'.ctl = .user → s'.k.current ≠ t) := by
  intro h
  have hs : Reachable allExit := drive_reachable 4 (start demo) _ ⟨[], .refl⟩
  have hu : allExit.ctl = .user := by decide
  exact (h allExit allExit [] allExit.k.current hs (by decide) .refl).2 hu rfl

example :
    (enter allExit (svcEvent SYS_READ 0 USER_VIRT_BASE 8#32)).1.k.state allExit.k.current =
      TASK_BLOCKED := by
  decide

/-! ## The condition is exact -/

theorem exit_dispatch (k : Kernel cfg) (umem : Word → Byte) (ctx : exception_context_t)
    (hnum : ctx.r 7 = SYS_EXIT) : syscall_dispatch k umem ctx = finish k.current (sys_exit k) := by
  unfold syscall_dispatch syscall_table
  rw [hnum]
  rfl

theorem kill_dispatch (k : Kernel cfg) (umem : Word → Byte) (ctx : exception_context_t)
    (hnum : ctx.r 7 = SYS_KILL) :
    syscall_dispatch k umem ctx = finish k.current (sys_kill k (ctx.r 0)) := by
  unfold syscall_dispatch syscall_table
  rw [hnum]
  rfl

/-- Also when it returns early: then all threads of `p` are dead already. -/
theorem sys_kill_spec {k : Kernel cfg} (h : k.TablesOk) (pid : Word) (p : Pid cfg)
    (hp : pid.toNat = p.val) :
    ∃ k' o ret, sys_kill k pid = (k', o, .returns ret) ∧ k'.current = k.current ∧
      ∀ u, k'.state u = if pidOf u = p then TASK_DEAD else k.state u := by
  have hlt : pid.toNat < cfg.NUM_PROCESSES := by rw [hp]; exact p.isLt
  have hfin : (⟨pid.toNat, hlt⟩ : Pid cfg) = p := Fin.ext hp
  unfold sys_kill
  simp only [dif_pos hlt, hfin]
  split
  · rename_i halive
    refine ⟨k, [], 0, rfl, rfl, fun u => ?_⟩
    split
    · rename_i hu
      have hdead := List.countP_eq_zero.mp halive u ((mem_threadsOf h p u).mpr hu)
      simpa using hdead
    · rfl
  · rw [retire_eq h]
    exact ⟨_, _, _, rfl, rfl, fun _ => rfl⟩

/-- A dead current thread and nobody to switch to: the kernel returns to it. -/
theorem returns_to_corpse {s : Sys cfg} (hc : s.ctl = .sched .svcTail)
    (hd : s.k.state s.k.current = TASK_DEAD)
    (hno : ∀ t, t ≠ s.k.current → runnable (s.k.state t) = false) :
    (settle 2 s).ctl = .user ∧ (settle 2 s).k.state (settle 2 s).k.current = TASK_DEAD := by
  have hstep : kernelStep s = call_schedule s .svcTail := by rw [kernelStep, hc]
  rw [settle_succ 1 s (by rw [hc]; simp), hstep]
  unfold call_schedule
  rcases schedule_cases s.k with ⟨-, he⟩ | ⟨-, -, he⟩ | ⟨c, -, hpick, -⟩
  · rw [he]; exact ⟨rfl, hd⟩
  · rw [he]; exact ⟨rfl, hd⟩
  · obtain ⟨hne, hr⟩ := pick_some hpick
    rw [hno c hne] at hr
    cases hr

theorem strands_returns {s : Sys cfg} (hs : Reachable s) (e : Event) (he : Strands s e) :
    (settle 2 (enter s e).1).ctl = .user ∧
      (settle 2 (enter s e).1).k.state (settle 2 (enter s e).1).k.current = TASK_DEAD := by
  have htab := (reachable_rep hs).tables
  have hinv := reachable_inv hs
  have hidle : ∀ t, t ≠ s.k.current → s.k.state t ≠ TASK_READY → runnable (s.k.state t) = false := by
    intro t hne hnr
    rw [Bool.eq_false_iff]
    exact fun hr => hnr (hinv.runnable hne hr).1
  cases e with
  | irq | dataAbort | prefetchAbort | undefined => exact he.elim
  | svc ctx umem =>
    rcases he with ⟨hnum, hno⟩ | ⟨hnum, hp, hno⟩
    · have henter : (enter s (.svc ctx umem)).1 = s.after (sys_exit s.k) := by
        simp only [enter, handle, handle_svc, exit_dispatch s.k umem ctx.val hnum]
        rfl
      rw [henter]
      refine returns_to_corpse rfl ?_ ?_
      · show (s.k.setState s.k.current TASK_DEAD).state s.k.current = _
        simp
      · intro t (hne : t ≠ s.k.current)
        show runnable ((s.k.setState s.k.current TASK_DEAD).state t) = false
        rw [setState_state, if_neg hne]
        exact hidle t hne (hno t hne)
    · have henter : (enter s (.svc ctx umem)).1 = s.after (sys_kill s.k (ctx.val.r 0)) := by
        simp only [enter, handle, handle_svc, kill_dispatch s.k umem ctx.val hnum]
        rfl
      obtain ⟨k', o, ret, hk, hcur, hst⟩ := sys_kill_spec htab _ _ hp
      rw [htab.proc] at hst hno
      rw [henter, hk]
      refine returns_to_corpse rfl ?_ ?_
      · show k'.state k'.current = _
        rw [hcur, hst, if_pos rfl]
      · intro t (hne : t ≠ k'.current)
        rw [hcur] at hne
        show runnable (k'.state t) = false
        rw [hst]
        split
        · rfl
        · rename_i hother
          exact hidle t hne (hno t (by rw [htab.proc]; exact hother))

end CortexAOS
