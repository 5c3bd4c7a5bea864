import CortexAOS.Invariant

/-!
# Round robin

Without wakeups nothing jumps the queue: each switch goes to the next runnable thread in the order
of the tids, so the cyclic distance from the current thread to one that waits shrinks every time.
-/

namespace CortexAOS

open task_state_t Kernel

variable {cfg : Config}

/-! ## One call of schedule -/

/-- The first runnable thread after `prev`, in the cyclic order of the tids. -/
def FirstAfter (k : Kernel cfg) (prev c : Tid cfg) : Prop :=
  ∃ i, 0 < i ∧ i < cfg.NUM_THREADS ∧ wrap (prev.val + i) = c ∧ runnable (k.state c) = true ∧
    ∀ j, 0 < j → j < i → runnable (k.state (wrap (prev.val + j))) = false

theorem wrap_ne {t : Tid cfg} {i : Nat} (hpos : 0 < i) (hi : i < cfg.NUM_THREADS) :
    wrap (t.val + i) ≠ t := by
  intro he
  have hs : Lib.Ring.slot t.val cfg.NUM_THREADS i = Lib.Ring.slot t.val cfg.NUM_THREADS 0 := by
    rw [show Lib.Ring.slot t.val cfg.NUM_THREADS i = t.val from congrArg Fin.val he]
    exact (Nat.mod_eq_of_lt t.isLt).symm
  have := Lib.Ring.slot_inj hi (by omega) hs
  omega

theorem sweep_first {k : Kernel cfg} (h : k.TablesOk) {prev c : Tid cfg} (hs : sweep k prev = some c) :
    FirstAfter k prev c := by
  have hwrap :
      ∀ i, (wrap ((prev.val + 1) % cfg.NUM_THREADS + i) : Tid cfg) = wrap (prev.val + (i + 1)) := by
    intro i
    apply Fin.ext
    show ((prev.val + 1) % cfg.NUM_THREADS + i) % cfg.NUM_THREADS =
      (prev.val + (i + 1)) % cfg.NUM_THREADS
    rw [Nat.mod_add_mod, Nat.add_assoc, Nat.add_comm 1 i]
  obtain ⟨hne, hr⟩ := sweep_some hs
  unfold sweep at hs
  simp only [h.tid, hwrap, List.find?_map, Option.map_eq_some_iff] at hs
  obtain ⟨i, hfind, rfl⟩ := hs
  obtain ⟨-, hmem, hbefore⟩ := List.find?_range_eq_some.mp hfind
  have hi : i + 1 < cfg.NUM_THREADS := by
    have hle := List.mem_range.mp hmem
    rcases Nat.lt_or_eq_of_le hle with hlt | heq
    · exact hlt
    · exfalso
      apply hne
      apply Fin.ext
      show (prev.val + (i + 1)) % cfg.NUM_THREADS = prev.val
      rw [show i + 1 = cfg.NUM_THREADS from heq, Nat.add_mod_right, Nat.mod_eq_of_lt prev.isLt]
  refine ⟨i + 1, by omega, hi, rfl, hr, ?_⟩
  intro j hpos hj
  have hb := hbefore (j - 1) (by omega)
  simpa [show j - 1 + 1 = j by omega, wrap_ne hpos (by omega : j < cfg.NUM_THREADS)] using hb

theorem pick_first {k : Kernel cfg} (h : k.TablesOk) (hh : k.wake_hint = none) {c : Tid cfg}
    (hp : pick k = some c) : FirstAfter k k.current c := by
  unfold pick at hp
  rw [hh] at hp
  exact sweep_first h hp

/-- What `schedule()` does when no thread has been woken. -/
structure Rotates (k : Kernel cfg) : Prop where
  switches : ∀ prev c, (schedule k).2 = some (prev, c) → prev = k.current ∧ FirstAfter k prev c
  keeps : k.need_reschedule = true → (schedule k).2 = none →
    ∀ t, t ≠ k.current → runnable (k.state t) = false
  returns : k.need_reschedule = false → schedule k = (k, none)

theorem schedule_rotates {k : Kernel cfg} (h : k.TablesOk) (hh : k.wake_hint = none) : Rotates k := by
  rcases schedule_cases k with ⟨hn, he⟩ | ⟨hn, hp, he⟩ | ⟨c, hn, hp, he⟩
  · refine ⟨?_, ?_, fun _ => he⟩
    · intro prev c hs
      rw [he] at hs; cases hs
    · intro hn'
      rw [hn] at hn'; cases hn'
  · refine ⟨?_, fun _ _ => pick_none hp, ?_⟩
    · intro prev c hs
      rw [he] at hs; cases hs
    · intro hn'
      rw [hn] at hn'; cases hn'
  · refine ⟨?_, ?_, ?_⟩
    · intro prev d hs
      rw [he] at hs
      cases hs
      exact ⟨rfl, pick_first h hh hp⟩
    · intro _ hs
      rw [he] at hs; cases hs
    · intro hn'
      rw [hn] at hn'; cases hn'

/-! ## Segments -/

/-- The event has no thread woken. -/
def WakesNone (s : Sys cfg) (e : Event) : Prop :=
  ∀ t, s.k.state t = TASK_BLOCKED → (enter s e).1.k.state t ≠ TASK_READY

/-- The event is not another thread's that kills `x`. -/
def Spares (x : Tid cfg) (s : Sys cfg) (e : Event) : Prop :=
  x ≠ s.k.current → (enter s e).1.k.state x ≠ TASK_DEAD

instance (s : Sys cfg) (e : Event) : Decidable (WakesNone s e) :=
  inferInstanceAs (Decidable (∀ t, s.k.state t = TASK_BLOCKED → (enter s e).1.k.state t ≠ TASK_READY))

instance (x : Tid cfg) (s : Sys cfg) (e : Event) : Decidable (Spares x s e) :=
  inferInstanceAs (Decidable (x ≠ s.k.current → (enter s e).1.k.state x ≠ TASK_DEAD))

def switchOf : Obs cfg → Option (Tid cfg × Tid cfg)
  | .switched prev c => some (prev, c)
  | _ => none

def switches (tr : List (Label cfg)) : List (Tid cfg × Tid cfg) :=
  tr.flatMap fun l => l.obs.filterMap switchOf

theorem switches_snoc (tr : List (Label cfg)) (l : Label cfg) :
    switches (tr ++ [l]) = switches tr ++ l.obs.filterMap switchOf := by
  simp [switches]

theorem switchOf_none {o : List (Obs cfg)} (h : ∀ p n, .switched p n ∉ o) :
    o.filterMap switchOf = [] := by
  rw [List.filterMap_eq_nil_iff]
  intro x hx
  cases x with
  | switched p n => exact absurd hx (h p n)
  | printf | putc | accepted | rejected | load | store | queued | readDone | sysret => rfl

theorem Step.enters {s s' : Sys cfg} {l : Label cfg} (hs : Step s l s') {e : Event}
    (he : l.ev = some e) : s' = (enter s e).1 := by
  cases hs with
  | event e' _ => cases he; rfl
  | kernel _ => cases he

section

variable {a a' : Abs cfg} {l : Label cfg}

theorem AStep.hint_none (hs : AStep a l a') (hh : a.hint = none) :
    a'.hint = none ∨ ∃ e w, l.ev = some e ∧ a.state w = TASK_BLOCKED ∧ a'.state w = TASK_READY := by
  cases hs with
  | uartWake _ _ _ _ _ hw => exact Or.inr ⟨_, _, rfl, hw, if_pos rfl⟩
  | schedNone | schedSwitch => exact Or.inl rfl
  | timer | spurious | uartNone | svcQuiet | svcExit | svcKill | svcGot | svcSlept | fault
  | schedIdle | toUser | readGot | readSlept | panic | halted => exact Or.inl hh

theorem kill_ready (dies : Tid cfg → Prop) [DecidablePred dies] {p : KPoint} {x : Tid cfg}
    (hx : a.state x = TASK_READY) (halive : (a.kill dies p).state x ≠ TASK_DEAD) :
    (a.kill dies p).state x = TASK_READY := by
  unfold Abs.kill at halive ⊢
  simp only at halive ⊢
  split at halive
  · exact absurd rfl halive
  · rename_i hd
    rw [if_neg hd]
    exact hx

theorem slept_ready {buf len : Word} {x : Tid cfg} (hx : a.state x = TASK_READY) (hne : x ≠ a.current) :
    (a.slept buf len).state x = TASK_READY := (if_neg hne).trans hx

theorem AStep.stays_ready (hs : AStep a l a') {x : Tid cfg} (hx : a.state x = TASK_READY)
    (hne : x ≠ a.current)
    (hne' : x ≠ a'.current) (halive : ∀ e, l.ev = some e → a'.state x ≠ TASK_DEAD) :
    a'.state x = TASK_READY := by
  cases hs with
  | uartWake =>
    simp only
    split
    · rfl
    · exact hx
  | svcExit | svcKill | fault => exact kill_ready _ hx (halive _ rfl)
  | svcSlept | readSlept => exact slept_ready hx hne
  | @schedSwitch p c =>
    have hc : x ≠ c := hne'
    exact (switchStates_kept hc fun h => absurd h hne).trans hx
  | timer | spurious | uartNone | svcQuiet | svcGot | schedIdle | schedNone | toUser | readGot | panic
  | halted => exact hx

end

theorem step_no_hint {s s' : Sys cfg} {l : Label cfg} (hrep : Rep s) (hs : StepWhere WakesNone s l s')
    (hh : s.k.wake_hint = none) : s'.k.wake_hint = none := by
  rcases (step_refines hrep hs.1).2.hint_none hh with h | ⟨e, w, he, hb, hr⟩
  · exact h
  · have hn := hs.2 e he w hb
    rw [← hs.1.enters he] at hn
    exact absurd hr hn

theorem step_first {s s' : Sys cfg} {l : Label cfg} (hrep : Rep s) (hs : Step s l s')
    (hh : s.k.wake_hint = none) :
    (s'.k.current = s.k.current ∧ l.obs.filterMap switchOf = []) ∨
      (l.obs.filterMap switchOf = [(s.k.current, s'.k.current)] ∧
        FirstAfter s.k s.k.current s'.k.current) := by
  rcases (step_refines hrep hs).2.inv_current with ⟨hcur, hno⟩ | ⟨hobs, p, hc⟩
  · exact Or.inl ⟨hcur, switchOf_none hno⟩
  · right
    refine ⟨by rw [hobs]; rfl, ?_⟩
    have hc' : s.ctl = .sched p := hc
    cases hs with
    | event e hu => rw [hc'] at hu; cases hu
    | kernel hu =>
      simp only [kernelStep, hc'] at hobs ⊢
      unfold call_schedule at hobs ⊢
      rcases schedule_cases s.k with ⟨-, he⟩ | ⟨-, -, he⟩ | ⟨c, -, hp, he⟩
      · rw [he] at hobs; cases hobs
      · rw [he] at hobs; cases hobs
      · rw [he, perform_switch_eq]
        exact pick_first hrep.tables hh hp

/-! ## No starvation -/

/-- `x` has been selected by one of the first `NUM_THREADS - 1` switches, or is near enough to be. -/
def Approaches (x : Tid cfg) (tr : List (Label cfg)) (s : Sys cfg) : Prop :=
  (∃ p, (p, x) ∈ (switches tr).take (cfg.NUM_THREADS - 1)) ∨
    (s.k.state x = TASK_READY ∧ x ≠ s.k.current ∧ s.k.wake_hint = none ∧
      Lib.Ring.ahead cfg.NUM_THREADS s.k.current x + (switches tr).length ≤ cfg.NUM_THREADS - 1)

theorem FirstAfter.nearer {k : Kernel cfg} {prev c x : Tid cfg} (h : FirstAfter k prev c)
    (hx : k.state x = TASK_READY) (hne : x ≠ prev) :
    Lib.Ring.ahead cfg.NUM_THREADS c x + 1 ≤ Lib.Ring.ahead cfg.NUM_THREADS prev x := by
  obtain ⟨i, hpos, hi, hc, -, hskip⟩ := h
  have hfar := Lib.Ring.ahead_lt prev.val x.val cfg.num_threads_pos
  have hat : wrap (prev.val + Lib.Ring.ahead cfg.NUM_THREADS prev x) = x :=
    Fin.ext (Lib.Ring.slot_ahead prev.isLt x.isLt)
  have hle : i ≤ Lib.Ring.ahead cfg.NUM_THREADS prev x := by
    by_contra hlt
    have hno := hskip _ (Lib.Ring.ahead_pos prev.isLt x.isLt fun he => hne (Fin.ext he)) (by omega)
    rw [hat, hx] at hno
    cases hno
  have hcv : c.val = Lib.Ring.slot prev.val cfg.NUM_THREADS i := (congrArg Fin.val hc).symm
  rw [hcv, Lib.Ring.ahead_slot prev.isLt x.isLt hle]
  omega

theorem approaches_step {x : Tid cfg} {tr : List (Label cfg)} {s s' : Sys cfg} {l : Label cfg}
    (hrep : Rep s)
    (h : Approaches x tr s) (hs : StepWhere (fun s e => WakesNone s e ∧ Spares x s e) s l s') :
    Approaches x (tr ++ [l]) s' := by
  unfold Approaches
  rw [switches_snoc]
  rcases h with ⟨p, hp⟩ | ⟨hready, hne, hh, hdist⟩
  · left
    refine ⟨p, ?_⟩
    rw [List.take_append]
    exact List.mem_append_left _ hp
  · have hh' : s'.k.wake_hint = none := step_no_hint hrep ⟨hs.1, fun e he => (hs.2 e he).1⟩ hh
    have halive : ∀ e, l.ev = some e → s'.k.state x ≠ TASK_DEAD := by
      intro e he
      rw [hs.1.enters he]
      exact (hs.2 e he).2 hne
    have hstays := (step_refines hrep hs.1).2.stays_ready (x := x) hready hne
    rcases step_first hrep hs.1 hh with ⟨hcur, hnone⟩ | ⟨hsw, hfirst⟩
    · right
      rw [hnone, hcur, List.append_nil]
      have hne' : x ≠ s'.k.current := by rw [hcur]; exact hne
      exact ⟨hstays hne' halive, hne, hh', hdist⟩
    · rw [hsw]
      have hnear := hfirst.nearer hready hne
      by_cases hx : x = s'.k.current
      · left
        refine ⟨s.k.current, ?_⟩
        rw [List.take_append, ← hx]
        apply List.mem_append_right
        rw [show cfg.NUM_THREADS - 1 - (switches tr).length =
          cfg.NUM_THREADS - 1 - (switches tr).length - 1 + 1 by omega]
        simp
      · right
        refine ⟨hstays hx halive, hx, hh', ?_⟩
        rw [List.length_append, List.length_singleton]
        omega

theorem approaches_run {x : Tid cfg} {s s' : Sys cfg} {tr : List (Label cfg)} (hs : Reachable s)
    (hh : s.k.wake_hint = none) (hready : s.k.state x = TASK_READY) (hne : x ≠ s.k.current)
    (hr : Lib.Run (StepWhere fun s e => WakesNone s e ∧ Spares x s e) s tr s') : Approaches x tr s' := by
  have hlt := Lib.Ring.ahead_lt s.k.current.val x.val cfg.num_threads_pos
  have hrun := hr.restrict (I := Reachable) (fun _ _ _ h hstep => h.step hstep.1) hs
  refine hrun.history (I := Approaches x) ?_ (Or.inr ⟨hready, hne, hh, ?_⟩)
  · rintro tr s l s' h ⟨hstep, hreach, -⟩
    exact approaches_step (reachable_rep hreach) h hstep
  · show _ + 0 ≤ _
    omega

/-- The run begins when no woken thread waits for `schedule()` to prefer it, as always in user mode. -/
theorem round_robin {s : Sys cfg} (hs : Reachable s) (hh : s.k.wake_hint = none) :
    (∀ tr s', Lib.Run (StepWhere WakesNone) s tr s' → ∀ p, s'.ctl = .sched p → Rotates s'.k) ∧
    ∀ x tr s', Lib.Run (StepWhere fun s e => WakesNone s e ∧ Spares x s e) s tr s' →
      s.k.state x = TASK_READY → x ≠ s.k.current → cfg.NUM_THREADS - 1 ≤ (switches tr).length →
      ∃ p, (p, x) ∈ (switches tr).take (cfg.NUM_THREADS - 1) := by
  constructor
  · intro tr s' hr p _
    have hrun := hr.restrict (I := Reachable) (fun _ _ _ h hstep => h.step hstep.1) hs
    refine schedule_rotates (reachable_rep (hs.run hr)).tables ?_
    refine hrun.invariant (I := fun s => s.k.wake_hint = none) ?_ hh
    rintro s l s' hn ⟨hstep, hreach, -⟩
    exact step_no_hint (reachable_rep hreach) hstep hn
  · intro x tr s' hr hready hne hlen
    rcases approaches_run hs hh hready hne hr with h | ⟨-, hne', -, hdist⟩
    · exact h
    · exfalso
      have hpos := Lib.Ring.ahead_pos s'.k.current.isLt x.isLt fun he => hne' (Fin.ext he)
      omega

theorem round_robin_ticks :
    ∃ p,
      (p, wrap 5) ∈
        (switches (driveTrace 4 (settle 1 (start demo)) (List.replicate 5 (.irq .timer)))).take 5 := by
  have hs : Reachable (settle 1 (start demo)) := settle_reachable 1 _ ⟨[], .refl⟩
  refine (round_robin hs (by decide)).2 (wrap 5) _ _ (drive_trace _ 4 _ _ ?_) (by decide)
    (by decide) (by decide)
  decide

/-- Thread 0 sleeps in `sys_read`; when thread 4 runs, a byte comes in for it. -/
def handover : Sys demo :=
  (enter
    (drive 4 (start demo) (svcEvent SYS_READ 0 USER_VIRT_BASE 8#32 :: List.replicate 3 (.irq .timer)))
    (.irq (.uart [0x61#8]))).1

/-- `sys_getpid` leaves `need_reschedule` clear, and `schedule()` keeps thread 0 with thread 1 READY.
And from `handover` on thread 0, woken before, takes thread 5's turn: thread 5 is not among five
switches. -/
theorem keeps_and_jumps :
    (∃ s : Sys demo, Reachable s ∧ s.k.wake_hint = none ∧ s.ctl = .sched .svcTail ∧
      (schedule s.k).2 = none ∧ s.k.current = wrap 0 ∧ s.k.state (wrap 1) = TASK_READY) ∧
    Reachable handover ∧ handover.k.state (wrap 5) = TASK_READY ∧ handover.k.current = wrap 4 ∧
    ∃ tr s', Lib.Run (StepWhere fun s e => WakesNone s e ∧ Spares (wrap 5) s e) handover tr s' ∧
      5 ≤ (switches tr).length ∧ ∀ p, (p, wrap 5) ∉ (switches tr).take 5 := by
  have hdrive : Reachable (drive 4 (start demo)
      (svcEvent SYS_READ 0 USER_VIRT_BASE 8#32 :: List.replicate 3 (.irq .timer))) :=
    drive_reachable 4 _ _ ⟨[], .refl⟩
  refine ⟨⟨(enter (settle 1 (start demo)) (svcEvent SYS_GETPID 0 0 0)).1, ?_, by decide, by decide,
    by decide, by decide, by decide⟩, ?_, by decide, by decide,
    driveTrace 6 handover (List.replicate 4 (.irq .timer)), _, drive_trace _ 6 _ _ ?_,
    by decide, by decide⟩
  · exact (settle_reachable 1 _ ⟨[], .refl⟩).step (.event _ (by decide))
  · exact hdrive.step (.event _ (by decide))
  · decide

end CortexAOS
