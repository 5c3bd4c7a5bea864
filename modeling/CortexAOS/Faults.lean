import CortexAOS.Invariant

/-!
# A fault in user mode

`user_fault_kill` retires the process and calls `schedule()`. When that call comes back, nobody
was READY, and the kernel halts although readers may still be asleep.
-/

namespace CortexAOS

open task_state_t Kernel

variable {cfg : Config}

def SameInput (k k' : Kernel cfg) : Prop :=
  k'.uart_waitq = k.uart_waitq ∧ k'.waitq_head = k.waitq_head ∧ k'.waitq_count = k.waitq_count ∧
    k'.rx_buf = k.rx_buf ∧ k'.rx_head = k.rx_head ∧ k'.rx_tail = k.rx_tail

def Kernel.other (k : Kernel cfg) (t : Tid cfg) : Prop := (k.threads t).proc ≠ (k.threads k.current).proc

instance (k : Kernel cfg) (t : Tid cfg) : Decidable (k.other t) :=
  inferInstanceAs (Decidable ((k.threads t).proc ≠ (k.threads k.current).proc))

/-- The CPU is back in user mode, only the faulting process is dead, and `current` is the one
thread of the others whose state has changed. -/
structure Contained (s s' : Sys cfg) : Prop where
  user : s'.ctl = .user
  dead : ∀ t, ¬ s.k.other t → s'.k.state t = TASK_DEAD
  next : s.k.other s'.k.current ∧ s'.k.state s'.k.current = TASK_RUNNING
  kept : ∀ t, s.k.other t → t ≠ s'.k.current → s'.k.state t = s.k.state t
  input : SameInput s.k s'.k

/-- The kernel deals with the fault and does not halt on the way. -/
def FaultIsolated (s : Sys cfg) (e : Event) : Prop :=
  (∀ n, (settle n (enter s e).1).ctl ≠ .halted) ∧ ∃ n, Contained s (settle n (enter s e).1)

def Kernel.survivors (k : Kernel cfg) (t : Tid cfg) : task_state_t :=
  if pidOf t = pidOf k.current then TASK_DEAD else k.state t

def faulted (s : Sys cfg) : Sys cfg :=
  { s with k := scheduler_request_resched (s.k.withStates s.k.survivors), ctl := .sched .faultTail }

theorem enter_faulted {s : Sys cfg} (h : Rep s) (e : Event) (he : e.isFault = true) :
    (enter s e).1 = faulted s := by
  obtain ⟨o, -, hk⟩ := fault_enter s e he
  rw [hk, h.tables.proc, retire_eq h.tables]
  rfl

theorem other_iff {s : Sys cfg} (h : Rep s) (t : Tid cfg) :
    s.k.other t ↔ pidOf t ≠ pidOf s.k.current := by
  unfold Kernel.other
  rw [h.tables.proc, h.tables.proc]

theorem survivors_ready {s : Sys cfg} (h : Rep s) (hi : Inv s.abs) {c : Tid cfg}
    (hne : c ≠ s.k.current) :
    runnable (s.k.survivors c) = true ↔ s.k.other c ∧ s.k.state c = TASK_READY := by
  rw [other_iff h]
  unfold Kernel.survivors
  split
  · rename_i hp
    simp [runnable, hp]
  · rename_i hp
    constructor
    · intro hr
      exact ⟨hp, (hi.runnable hne hr).1⟩
    · rintro ⟨-, hr⟩
      simp [runnable, hr]

theorem fault_halts {s : Sys cfg} (hno : ∀ c, c ≠ s.k.current → runnable (s.k.survivors c) = false) :
    (settle 2 (faulted s)).ctl = .halted := by
  have hsched : kernelStep (faulted s) =
      ({ faulted s with
          k := { (faulted s).k with need_reschedule := false, wake_hint := none }
          ctl := .resume .faultTail }, []) := by
    show call_schedule (faulted s) .faultTail = _
    unfold call_schedule
    rcases schedule_cases (faulted s).k with ⟨hn, -⟩ | ⟨-, -, hs⟩ | ⟨c, -, hpick, -⟩
    · cases hn
    · rw [hs]
    · obtain ⟨hne, hr⟩ := pick_some hpick
      rw [show (faulted s).k.state c = s.k.survivors c from rfl, hno c hne] at hr
      cases hr
  rw [settle_succ _ _ (by simp [faulted]), hsched]
  rfl

theorem fault_switches {s : Sys cfg} {c : Tid cfg} (hne : c ≠ s.k.current)
    (hr : runnable (s.k.survivors c) = true) :
    ∃ d, d ≠ s.k.current ∧ runnable (s.k.survivors d) = true ∧ (kernelStep (faulted s)).1 =
      { k := perform_switch { (faulted s).k with need_reschedule := false, wake_hint := none }
          s.k.current d
        kont := Function.update s.kont s.k.current .faultTail
        ctl := .resume (s.kont d) } := by
  have hstep : kernelStep (faulted s) = call_schedule (faulted s) .faultTail := rfl
  rw [hstep]
  unfold call_schedule
  rcases schedule_cases (faulted s).k with ⟨hn, -⟩ | ⟨-, hpick, -⟩ | ⟨d, -, hpick, hs⟩
  · cases hn
  · have := pick_none hpick c hne
    rw [show (faulted s).k.state c = s.k.survivors c from rfl, hr] at this
    cases this
  · obtain ⟨hdne, hdr⟩ := pick_some hpick
    rw [hs]
    exact ⟨d, hdne, hdr, rfl⟩

theorem fault_contained {s : Sys cfg} (h : Rep s) (hi : Inv s.abs) (hu : s.ctl = .user) {c : Tid cfg}
    (hc : s.k.other c) (hready : s.k.state c = TASK_READY) :
    (settle 1 (faulted s)).ctl ≠ .halted ∧ Contained s (settle 2 (faulted s)) := by
  have hcne : c ≠ s.k.current := by rintro rfl; exact hc rfl
  obtain ⟨d, hdne, hdr, hstep⟩ := fault_switches hcne ((survivors_ready h hi hcne).mpr ⟨hc, hready⟩)
  obtain ⟨hdo, hdready⟩ := (survivors_ready h hi hdne).mp hdr
  have hexits : (s.kont d).Exits :=
    hi.ready d hdne hdready (by rw [(hi.user hu).2.1]; simp)
  have hone : settle 1 (faulted s) = (kernelStep (faulted s)).1 :=
    settle_succ 0 (faulted s) (by simp [faulted])
  have htwo : settle 2 (faulted s) = (kernelStep (kernelStep (faulted s)).1).1 := by
    rw [settle_succ 1 _ (by simp [faulted]), settle_succ 0 _ (by rw [hstep]; simp)]
    rfl
  have hback : settle 2 (faulted s) = { (kernelStep (faulted s)).1 with ctl := .user } := by
    rw [htwo, hstep]
    show (return_to _ (s.kont d)).1 = _
    rw [return_exits _ hexits]
  have hst : ∀ t, (kernelStep (faulted s)).1.k.state t =
      switchStates s.k.survivors s.k.current d t := by
    intro t
    rw [hstep, perform_switch_eq]
    rfl
  have hcurdead : s.k.survivors s.k.current = TASK_DEAD := if_pos rfl
  have hkeep : ∀ t, t ≠ d → (kernelStep (faulted s)).1.k.state t = s.k.survivors t := by
    intro t ht
    rw [hst]
    apply switchStates_kept ht
    rintro rfl
    rw [hcurdead]; simp
  refine ⟨by rw [hone, hstep]; simp, ?_⟩
  rw [hback]
  have hcur : (kernelStep (faulted s)).1.k.current = d := by rw [hstep, perform_switch_eq]
  refine ⟨rfl, ?_, ?_, ?_, ?_⟩
  · intro t ht
    have hp : pidOf t = pidOf s.k.current := by
      by_contra hp
      exact ht ((other_iff h t).mpr hp)
    have htd : t ≠ d := by rintro rfl; exact ht hdo
    rw [hkeep t htd]
    exact if_pos hp
  · rw [hcur]
    exact ⟨hdo, by rw [hst]; exact if_pos rfl⟩
  · intro t ht htd
    rw [hcur] at htd
    rw [hkeep t htd]
    exact if_neg ((other_iff h t).mp ht)
  · rw [hstep, perform_switch_eq]
    exact ⟨rfl, rfl, rfl, rfl, rfl, rfl⟩

theorem fault_isolation_iff {s : Sys cfg} (hs : Reachable s) (hu : s.ctl = .user) (e : Event)
    (he : e.isFault = true) :
    FaultIsolated s e ↔ ∃ t, s.k.other t ∧ s.k.state t = TASK_READY := by
  have hrep := reachable_rep hs
  have hinv := reachable_inv hs
  unfold FaultIsolated
  rw [enter_faulted hrep e he]
  constructor
  · rintro ⟨hnohalt, -⟩
    by_contra hnone
    refine hnohalt 2 (fault_halts fun c hne => ?_)
    rw [Bool.eq_false_iff]
    intro hr
    exact hnone ⟨c, (survivors_ready hrep hinv hne).mp hr⟩
  · rintro ⟨c, hc, hready⟩
    obtain ⟨hone, hcont⟩ := fault_contained hrep hinv hu hc hready
    refine ⟨fun n => ?_, 2, hcont⟩
    rcases Nat.lt_or_ge n 2 with hn | hn
    · rcases Nat.le_one_iff_eq_zero_or_eq_one.mp (Nat.le_of_lt_succ hn) with rfl | rfl
      · simp [faulted]
      · exact hone
    · rw [settle_user 2 n _ hcont.user hn, hcont.user]
      simp

def someFault : Event := .undefined (svcContext 0 0 0 0)

theorem fault_isolation_iff_ready : FaultIsolated (settle 1 (start demo)) someFault := by
  have hs : Reachable (settle 1 (start demo)) := settle_reachable 1 _ ⟨[], .refl⟩
  have ht : (settle 1 (start demo)).k.other (wrap 2) := by decide
  exact (fault_isolation_iff hs (by decide) someFault rfl).mpr ⟨wrap 2, ht, by decide⟩

/-- Every thread but the current one has gone to sleep in `sys_read`. -/
def allAsleep : Sys demo :=
  drive 4 (start demo) (List.replicate 5 (svcEvent SYS_READ 0 USER_VIRT_BASE 8#32))

/-- It faults, and the four readers of the other two processes are lost with it. -/
theorem fault_halts_readers :
    Reachable allAsleep ∧ allAsleep.ctl = .user ∧ someFault.isFault = true ∧
      (∃ t, allAsleep.k.other t ∧ allAsleep.k.state t ≠ TASK_DEAD) ∧
      ¬ FaultIsolated allAsleep someFault := by
  refine ⟨drive_reachable 4 (start demo) _ ⟨[], .refl⟩, by decide, rfl,
    ⟨wrap 0, by decide, by decide⟩, ?_⟩
  rintro ⟨hnohalt, -⟩
  exact hnohalt 2 (by decide)

end CortexAOS
