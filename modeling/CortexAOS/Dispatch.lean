import CortexAOS.Invariant

/-!
# The scheduler and its wait queue in every reachable state

The representation of the queue, what user mode finds, and what `perform_switch` is called with.
-/

namespace CortexAOS

open task_state_t Kernel

variable {cfg : Config}

/-! ## The wait queue -/

def Kernel.entry (k : Kernel cfg) (i : Nat) : Option (Tid cfg) :=
  k.uart_waitq ((k.waitq_head + i) % cfg.NUM_THREADS)

theorem entry_eq {k : Kernel cfg} (h : k.QueueOk) {i : Nat} (hi : i < k.waitq_count) :
    k.entry i = k.queue[i]? := by
  have hu := congrArg (fun l => l[i]?) h.used
  simp only [List.getElem?_map] at hu
  have hlen : i < k.queue.length := by rw [h.length]; exact hi
  rw [List.getElem?_eq_getElem hlen] at hu ⊢
  simpa [Kernel.entry, Lib.Ring.contents, Lib.Ring.slot, hi] using hu

theorem waitq_push_queued {k : Kernel cfg} (h : k.QueueOk) (t : Tid cfg) :
    ∃ i < (waitq_push k t).1.waitq_count, (waitq_push k t).1.entry i = some t := by
  by_cases ht : t ∈ k.queue
  · rw [waitq_push_mem h t ht]
    exact (h.mem_iff t).mp ht
  · obtain ⟨q, n, hp, hok, hq⟩ := waitq_push_new h t ht
    rw [hp]
    exact (hok.mem_iff t).mp (by rw [hq]; simp)

theorem waitq_representation {s : Sys cfg} (hs : Reachable s) :
    s.k.waitq_count ≤ cfg.NUM_THREADS ∧ s.k.waitq_head < cfg.NUM_THREADS ∧
    (∀ i < s.k.waitq_count, s.k.entry i ≠ none) ∧
    (∀ i < s.k.waitq_count, ∀ j < s.k.waitq_count, i ≠ j → s.k.entry i ≠ s.k.entry j) ∧
    (∀ j < cfg.NUM_THREADS, (∀ i < s.k.waitq_count, (s.k.waitq_head + i) % cfg.NUM_THREADS ≠ j) →
      s.k.uart_waitq j = none) ∧
    (∀ t, s.k.state t = TASK_BLOCKED → ∃! i, i < s.k.waitq_count ∧ s.k.entry i = some t) ∧
    (∀ i < s.k.waitq_count, ∀ t, s.k.entry i = some t →
      s.k.state t = TASK_BLOCKED ∨ s.k.state t = TASK_DEAD) ∧
    (∀ t, (∀ i < s.k.waitq_count, s.k.entry i ≠ some t) → s.k.waitq_count < cfg.NUM_THREADS) ∧
    ∀ t, ∃ i < (waitq_push s.k t).1.waitq_count, (waitq_push s.k t).1.entry i = some t := by
  have hq := (reachable_rep hs).queueOk
  have hinv := reachable_inv hs
  have hlen := hq.length
  have hget : ∀ i (hi : i < s.k.waitq_count), s.k.entry i = some (s.k.queue.get ⟨i, hlen ▸ hi⟩) := by
    intro i hi
    rw [entry_eq hq hi]
    exact List.getElem?_eq_getElem _
  have hdistinct : ∀ i < s.k.waitq_count, ∀ j < s.k.waitq_count, s.k.entry i = s.k.entry j → i = j := by
    intro i hi j hj he
    rw [hget i hi, hget j hj, Option.some.injEq] at he
    exact Fin.val_eq_of_eq (hq.nodup.injective_get he)
  refine ⟨hq.count_le, hq.head_lt, ?_, ?_, hq.unused, ?_, ?_, ?_, waitq_push_queued hq⟩
  · intro i hi
    rw [hget i hi]; simp
  · intro i hi j hj hne he
    exact hne (hdistinct i hi j hj he)
  · intro t ht
    obtain ⟨i, hi, he⟩ := (hq.mem_iff t).mp (hinv.mem_queue t ht)
    refine ⟨i, ⟨hi, he⟩, ?_⟩
    rintro j ⟨hj, hej⟩
    exact hdistinct j hj i hi (hej.trans he.symm)
  · intro i hi t he
    exact hinv.queue_state t ((hq.mem_iff t).mpr ⟨i, hi, he⟩)
  · intro t ht
    refine queue_room hq t fun hm => ?_
    obtain ⟨i, hi, he⟩ := (hq.mem_iff t).mp hm
    exact ht i hi he

/-- Three readers sleep, and the process of the first two is killed. -/
def sleepers : Sys demo :=
  let read := svcEvent SYS_READ 0 USER_VIRT_BASE 8#32
  drive 4 (start demo) [read, read, read, svcEvent SYS_KILL 0 0 0]

theorem waitq_representation_sleepers :
    sleepers.k.waitq_count = 3 ∧ sleepers.k.state (wrap 0) = TASK_DEAD ∧
      ∃! i, i < sleepers.k.waitq_count ∧ sleepers.k.entry i = some (wrap 2) := by
  have hs : Reachable sleepers := drive_reachable 4 (start demo) _ ⟨[], .refl⟩
  obtain ⟨-, -, -, -, -, hb, -⟩ := waitq_representation hs
  exact ⟨by decide, by decide, hb _ (by decide)⟩

/-! ## User mode -/

def Switched (tr : List (Label cfg)) : Prop := ∃ l ∈ tr, ∃ prev next, .switched prev next ∈ l.obs

theorem switched_snoc (tr : List (Label cfg)) (l : Label cfg) :
    Switched (tr ++ [l]) ↔ Switched tr ∨ ∃ prev next, .switched prev next ∈ l.obs := by
  simp [Switched, or_and_right, exists_or]

theorem plain_not_switched {o : List (Obs cfg)} (ho : ∀ x ∈ o, x.plain) (prev next : Tid cfg) :
    .switched prev next ∉ o := by
  intro hm
  have := ho _ hm
  simp [Obs.plain] at this

theorem got_not_switched (a : Abs cfg) (buf len : Word) (prev next : Tid cfg) :
    .switched prev next ∉ a.gotObs buf len := by
  simp only [Abs.gotObs, List.mem_append, List.mem_singleton, reduceCtorEq, or_false]
  exact plain_not_switched (stores_plain _ _) prev next

theorem slept_not_switched (a : Abs cfg) (prev next : Tid cfg) : .switched prev next ∉ a.sleptObs := by
  unfold Abs.sleptObs
  split <;> simp

theorem current_step {a a' : Abs cfg} {l : Label cfg} (h : Inv a) (hs : AStep a l a') :
    a'.state a'.current ≠ TASK_READY ∨
      (a.state a.current = TASK_READY ∧ ∀ prev next, .switched prev next ∉ l.obs) := by
  by_cases hr : a.state a.current = TASK_READY
  · cases hs with
    | schedSwitch hc hn hne => exact Or.inl (by simp [Abs.switch, switchStates])
    | timer | spurious | schedIdle | schedNone | toUser | halted => exact Or.inr ⟨hr, by simp⟩
    | uartNone _ ho | uartWake _ ho =>
      refine Or.inr ⟨hr, fun prev next hm => ?_⟩
      rcases ho _ hm with ⟨c, hc⟩ | ⟨c, hc⟩ <;> cases hc
    | svcQuiet _ ho | svcExit _ _ ho | svcKill _ _ _ _ ho =>
      exact Or.inr ⟨hr, by simpa using plain_not_switched ho⟩
    | fault _ _ ho | panic _ ho => exact Or.inr ⟨hr, plain_not_switched ho⟩
    | svcGot | readGot => exact Or.inr ⟨hr, got_not_switched a _ _⟩
    | svcSlept | readSlept => exact Or.inr ⟨hr, slept_not_switched a⟩
  · left
    cases hs with
    | schedSwitch => simp [Abs.switch, switchStates]
    | @uartWake fifo o corpses w rest hu _ _ _ _ hw =>
      have hne : a.current ≠ w := by rintro rfl; exact (h.user hu).2.2.1 hw
      show (if a.current = w then TASK_READY else a.state a.current) ≠ _
      rw [if_neg hne]
      exact hr
    | svcExit | svcKill | fault =>
      simp only [Abs.kill]
      split
      · simp
      · exact hr
    | svcSlept | readSlept => simp [Abs.slept]
    | timer | spurious | uartNone | svcQuiet | schedIdle | schedNone | toUser | halted | svcGot | readGot
    | panic => exact hr

theorem switched_current {s : Sys cfg} {tr : List (Label cfg)} (hr : Lib.Run Step (start cfg) tr s)
    (hsw : Switched tr) : s.k.state s.k.current ≠ TASK_READY := by
  have hrun := (run_refines rep_start hr).2.restrict (fun _ _ _ hi hs => inv_step hi hs) inv_start
  refine hrun.history (I := fun tr a => Switched tr → a.state a.current ≠ TASK_READY) ?_ ?_ hsw
  · rintro tr a l a' ih ⟨hs, hi, -⟩ hsw
    rcases current_step hi hs with hne | ⟨hready, hno⟩
    · exact hne
    · rcases (switched_snoc tr l).mp hsw with hsw | ⟨prev, next, hm⟩
      · exact absurd hready (ih hsw)
      · exact absurd hm (hno prev next)
  · rintro ⟨l, hl, -⟩
    cases hl

/-- The last part is about the two tests of `schedule()` for `TASK_RUNNING`. -/
theorem user_mode_scheduler {s : Sys cfg} {tr : List (Label cfg)} (hr : Lib.Run Step (start cfg) tr s) :
    (s.ctl = .user → s.k.need_reschedule = false ∧ s.k.wake_hint = none ∧
      (∀ t, t ≠ s.k.current → s.k.state t ≠ TASK_RUNNING) ∧
      (Switched tr → s.k.state s.k.current ≠ TASK_READY ∧ s.k.state s.k.current ≠ TASK_BLOCKED)) ∧
    (∀ p, s.ctl = .sched p → ∀ prev cand, (schedule s.k).2 = some (prev, cand) →
      prev = s.k.current ∧ prev ≠ cand ∧ s.k.state cand = TASK_READY) ∧
    ∀ t, t ≠ s.k.current → s.k.state t ≠ TASK_RUNNING := by
  have hinv := reachable_inv ⟨tr, hr⟩
  have hrun : ∀ t, t ≠ s.k.current → s.k.state t ≠ TASK_RUNNING :=
    fun t hne ht => hne (hinv.running t ht)
  refine ⟨?_, ?_, hrun⟩
  · intro hu
    obtain ⟨hn, hh, hb, -⟩ := hinv.user hu
    exact ⟨hn, hh, hrun, fun hsw => ⟨switched_current hr hsw, hb⟩⟩
  · intro p _ prev cand hsw
    rcases schedule_cases s.k with ⟨-, he⟩ | ⟨-, -, he⟩ | ⟨c, -, hpick, he⟩
    · rw [he] at hsw; cases hsw
    · rw [he] at hsw; cases hsw
    · rw [he] at hsw
      cases hsw
      obtain ⟨hne, hc⟩ := pick_some hpick
      exact ⟨rfl, hne.symm, (hinv.runnable hne hc).1⟩

theorem user_mode_scheduler_sleepers :
    sleepers.ctl = .user ∧ sleepers.k.need_reschedule = false ∧ sleepers.k.wake_hint = none := by
  have hu : sleepers.ctl = .user := by decide
  obtain ⟨tr, hr⟩ : Reachable sleepers := drive_reachable 4 (start demo) _ ⟨[], .refl⟩
  obtain ⟨hn, hh, -⟩ := (user_mode_scheduler hr).1 hu
  exact ⟨hu, hn, hh⟩

end CortexAOS
