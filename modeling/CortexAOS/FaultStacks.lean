import CortexAOS.Faults
import CortexAOS.Retired
import Mathlib.Data.Fintype.Card

/-!
# The stacks of abort and undefined mode

A fault pushes a frame that nobody pops: `user_fault_kill` leaves through `schedule()`. The frames
are as many as the processes that have faulted, and none of these runs again.
-/

namespace CortexAOS

open task_state_t Kernel

variable {cfg : Config}

/-! ## exception_entry.S and the linker script -/

/-- `stmfd sp!, {...}`, for `n` registers. -/
def stmfd (sp : Word) (n : Nat) : Word := sp - BitVec.ofNat 32 (4 * n)

/-- `stmfd sp!, {r0-r12, lr}`, and then SPSR below it. -/
def push_fault_frame (sp : Word) : Word := stmfd (stmfd sp 14) 1

/-- `.stack` from `base` on: 512 bytes for FIQ, then 1 KB each for IRQ, abort and undefined mode. -/
def _abt_stack_top (base : Word) : Word := base + 0x200#32 + 0x400#32 + 0x400#32
def _und_stack_top (base : Word) : Word := _abt_stack_top base + 0x400#32

structure FaultSys (cfg : Config) where
  sys : Sys cfg
  sp_abt : Word
  sp_und : Word

namespace FaultSys

def exception_entry_dabort (m : FaultSys cfg) : FaultSys cfg :=
  { m with sp_abt := push_fault_frame m.sp_abt }
def exception_entry_pabort (m : FaultSys cfg) : FaultSys cfg :=
  { m with sp_abt := push_fault_frame m.sp_abt }
def exception_entry_undef (m : FaultSys cfg) : FaultSys cfg :=
  { m with sp_und := push_fault_frame m.sp_und }

/-- Nothing else that the kernel runs is in one of the two modes. -/
def entry (m : FaultSys cfg) : Option Event → FaultSys cfg
  | some (.dataAbort ..) => m.exception_entry_dabort
  | some (.prefetchAbort ..) => m.exception_entry_pabort
  | some (.undefined _) => m.exception_entry_undef
  | some (.irq _) | some (.svc ..) | none => m

end FaultSys

structure FaultLabel (cfg : Config) where
  actor : Tid cfg
  step : Label cfg

inductive FaultStep : FaultSys cfg → FaultLabel cfg → FaultSys cfg → Prop
  | mk {m : FaultSys cfg} {l : Label cfg} {s' : Sys cfg} (hs : Step m.sys l s') :
      FaultStep m ⟨m.sys.k.current, l⟩ { m.entry l.ev with sys := s' }

/-- What `start.S` has set when the first thread is about to run. -/
def bootStacks (cfg : Config) (base : Word) : FaultSys cfg :=
  ⟨start cfg, _abt_stack_top base, _und_stack_top base⟩

/-! ## Faults of a run -/

def Event.onAbt : Event → Bool
  | .dataAbort .. | .prefetchAbort .. => true
  | .irq _ | .svc .. | .undefined _ => false

def Event.onUnd : Event → Bool
  | .undefined _ => true
  | .irq _ | .svc .. | .dataAbort .. | .prefetchAbort .. => false

/-- Whose threads have faulted, with an event that `is` picks out. -/
def faults (is : Event → Bool) (tr : List (FaultLabel cfg)) : List (Pid cfg) :=
  tr.filterMap fun l => if l.step.ev.any is then some (pidOf l.actor) else none

theorem faults_snoc (is : Event → Bool) (tr : List (FaultLabel cfg)) (l : FaultLabel cfg) :
    faults is (tr ++ [l]) = faults is tr ++ if l.step.ev.any is then [pidOf l.actor] else [] := by
  unfold faults
  rw [List.filterMap_append]
  congr 1
  by_cases h : l.step.ev.any is <;> simp [h]

theorem faults_length (tr : List (FaultLabel cfg)) :
    (faults Event.isFault tr).length =
      (faults Event.onAbt tr).length + (faults Event.onUnd tr).length := by
  induction tr using List.reverseRecOn with
  | nil => rfl
  | append_singleton tr l ih =>
    rw [faults_snoc, faults_snoc, faults_snoc]
    simp only [List.length_append, ih]
    rcases hev : l.step.ev with _ | e
    · simp
    · cases e <;> simp [Event.isFault, Event.onAbt, Event.onUnd] <;> omega

/-! ## Processes that have faulted -/

/-- All threads of `p` are dead, and none is current but on the way out of its fault. -/
structure FaultedOut (p : Pid cfg) (a : Abs cfg) : Prop where
  dead : ∀ t, pidOf t = p → a.state t = TASK_DEAD
  current : pidOf a.current = p → a.ctl = .sched .faultTail ∨ a.ctl = .resume .faultTail ∨
    a.ctl = .halted

section

variable {p : Pid cfg} {a a' : Abs cfg} {l : Label cfg}

theorem FaultedOut.user (h : FaultedOut p a) (hu : a.ctl = .user) : pidOf a.current ≠ p := by
  intro hp
  rcases h.current hp with hc | hc | hc <;> rw [hu] at hc <;> cases hc

theorem FaultedOut.keep (h : FaultedOut p a) (hcur : a'.current = a.current) (hne : pidOf a.current ≠ p)
    (hst : ∀ t, pidOf t = p → a'.state t = a.state t ∨ a'.state t = TASK_DEAD) : FaultedOut p a' := by
  refine ⟨fun t ht => ?_, fun hp => absurd (by rwa [hcur] at hp) hne⟩
  rcases hst t ht with he | he
  · rw [he]; exact h.dead t ht
  · exact he

theorem FaultedOut.switch (h : FaultedOut p a) (q : KPoint) {c : Tid cfg}
    (hr : runnable (a.state c) = true) : FaultedOut p (a.switch q c) := by
  refine ⟨fun t ht => switch_dead q hr t (h.dead t ht), fun hp => ?_⟩
  rw [h.dead c hp] at hr
  cases hr

theorem FaultedOut.step (h : FaultedOut p a) (hs : AStep a l a') : FaultedOut p a' := by
  cases hs with
  | timer hu | spurious hu | uartNone hu | svcQuiet hu | svcGot hu =>
      exact h.keep rfl (h.user hu) fun _ _ => Or.inl rfl
  | @uartWake fifo o corpses w rest hu _ _ _ _ hw =>
    refine h.keep rfl (h.user hu) fun t ht => Or.inl (if_neg ?_)
    rintro rfl
    rw [h.dead t ht] at hw
    cases hw
  | svcExit hu | svcKill hu | fault hu =>
    refine h.keep rfl (h.user hu) fun t ht => Or.inr ?_
    exact kill_dead a _ _ t (h.dead t ht)
  | svcSlept hu =>
    refine h.keep rfl (h.user hu) fun t ht => Or.inl (if_neg ?_)
    rintro rfl
    exact h.user hu ht
  | schedIdle hc | schedNone hc =>
    refine ⟨h.dead, fun hp => ?_⟩
    rcases h.current hp with hc' | hc' | hc' <;> rw [hc] at hc' <;> cases hc'
    exact Or.inr (Or.inl rfl)
  | schedSwitch _ _ _ hr => exact h.switch _ hr
  | toUser hc hexits =>
    refine ⟨h.dead, fun hp => ?_⟩
    rcases h.current hp with hc' | hc' | hc' <;> rw [hc] at hc' <;> cases hc'
    rcases hexits with he | he | he <;> cases he
  | readGot hc =>
    refine ⟨h.dead, fun hp => ?_⟩
    rcases h.current hp with hc' | hc' | hc' <;> rw [hc] at hc' <;> cases hc'
  | readSlept hc =>
    have hne : pidOf a.current ≠ p := by
      intro hp
      rcases h.current hp with hc' | hc' | hc' <;> rw [hc] at hc' <;> cases hc'
    refine h.keep rfl hne fun t ht => Or.inl (if_neg ?_)
    rintro rfl
    exact hne ht
  | panic => exact ⟨h.dead, fun _ => Or.inr (Or.inr rfl)⟩
  | halted => exact h

theorem faultedOut_of_fault (hs : AStep a l a') {e : Event} (hev : l.ev = some e)
    (he : e.isFault = true) : a.ctl = .user ∧ FaultedOut (pidOf a.current) a' := by
  cases hs with
  | fault hu => exact ⟨hu, fun t ht => if_pos ht, fun _ => Or.inl rfl⟩
  | timer | spurious | uartNone | uartWake | svcQuiet | svcExit | svcKill | svcGot | svcSlept =>
    cases hev
    cases he
  | schedIdle | schedNone | schedSwitch | toUser | readGot | readSlept | panic | halted => cases hev

end

/-! ## Runs -/

theorem push_fault_frame_sub (top : Word) (n : Nat) :
    push_fault_frame (top - BitVec.ofNat 32 (60 * n)) = top - BitVec.ofNat 32 (60 * (n + 1)) := by
  unfold push_fault_frame stmfd
  apply BitVec.eq_of_toNat_eq
  simp only [BitVec.toNat_sub, BitVec.toNat_ofNat]
  omega

/-- What has been pushed from `base` on, and for whom. -/
structure FramesOf (base : Word) (tr : List (FaultLabel cfg)) (m : FaultSys cfg) : Prop where
  rep : Rep m.sys
  gone : ∀ p ∈ faults Event.isFault tr, FaultedOut p m.sys.abs
  nodup : (faults Event.isFault tr).Nodup
  abt : m.sp_abt = _abt_stack_top base - BitVec.ofNat 32 (60 * (faults Event.onAbt tr).length)
  und : m.sp_und = _und_stack_top base - BitVec.ofNat 32 (60 * (faults Event.onUnd tr).length)

section

variable {base : Word} {tr : List (FaultLabel cfg)} {m m' : FaultSys cfg} {l : FaultLabel cfg}

theorem FramesOf.sp (h : FramesOf base tr m) (l : FaultLabel cfg) :
    (m.entry l.step.ev).sp_abt =
      _abt_stack_top base - BitVec.ofNat 32 (60 * (faults Event.onAbt (tr ++ [l])).length) ∧
    (m.entry l.step.ev).sp_und =
      _und_stack_top base - BitVec.ofNat 32 (60 * (faults Event.onUnd (tr ++ [l])).length) := by
  rw [faults_snoc, faults_snoc]
  rcases hev : l.step.ev with _ | e
  · simpa [FaultSys.entry] using ⟨h.abt, h.und⟩
  · cases e with
    | irq | svc => simpa [FaultSys.entry, Event.onAbt, Event.onUnd] using ⟨h.abt, h.und⟩
    | dataAbort | prefetchAbort =>
      simp only [FaultSys.entry, FaultSys.exception_entry_dabort, FaultSys.exception_entry_pabort,
        Event.onAbt,
        Event.onUnd, Option.any_some, if_true, Bool.false_eq_true, if_false, List.append_nil,
        List.length_append, List.length_singleton]
      rw [h.abt, push_fault_frame_sub]
      exact ⟨rfl, h.und⟩
    | undefined =>
      simp only [FaultSys.entry, FaultSys.exception_entry_undef, Event.onAbt, Event.onUnd,
        Option.any_some, if_true,
        Bool.false_eq_true, if_false, List.append_nil, List.length_append, List.length_singleton]
      rw [h.und, push_fault_frame_sub]
      exact ⟨h.abt, rfl⟩

theorem FramesOf.step (h : FramesOf base tr m) (hs : FaultStep m l m') :
    FramesOf base (tr ++ [l]) m' := by
  have hsp := h.sp l
  obtain ⟨hstep⟩ := hs
  rename_i l s'
  obtain ⟨hrep, ha⟩ := step_refines h.rep hstep
  have hgone : ∀ p ∈ faults Event.isFault tr, FaultedOut p s'.abs := fun p hp => (h.gone p hp).step ha
  by_cases hf : l.ev.any Event.isFault
  · obtain ⟨e, hev, he⟩ := (Option.any_eq_true _ _).mp hf
    obtain ⟨hu, hnew⟩ := faultedOut_of_fault ha hev he
    have hfaults : faults Event.isFault (tr ++ [⟨m.sys.k.current, l⟩]) =
        faults Event.isFault tr ++ [pidOf m.sys.k.current] := by rw [faults_snoc, if_pos hf]
    refine ⟨hrep, fun p hp => ?_, ?_, hsp.1, hsp.2⟩
    · rw [hfaults, List.mem_append, List.mem_singleton] at hp
      rcases hp with hp | rfl
      · exact hgone p hp
      · exact hnew
    · rw [hfaults, List.nodup_append]
      refine ⟨h.nodup, List.nodup_singleton _, fun p hp q hq => ?_⟩
      rw [List.mem_singleton.mp hq]
      exact Ne.symm ((h.gone p hp).user hu)
  · have hfaults : faults Event.isFault (tr ++ [⟨m.sys.k.current, l⟩]) = faults Event.isFault tr := by
      rw [faults_snoc, if_neg hf, List.append_nil]
    refine ⟨hrep, ?_, ?_, hsp.1, hsp.2⟩
    · rw [hfaults]; exact hgone
    · rw [hfaults]; exact h.nodup

end

/-- Every fault is one of a process that has not faulted before and is never current in user mode again,
so the frames fit. -/
theorem fault_stacks_bounded {base : Word} (hbase : base.toNat + 0x2E00 ≤ 2 ^ 32)
    (hN : 60 * cfg.NUM_PROCESSES ≤ 0x400) {tr : List (FaultLabel cfg)} {m : FaultSys cfg}
    (hr : Lib.Run FaultStep (bootStacks cfg base) tr m) :
    ((_abt_stack_top base).toNat - 0x400 ≤ m.sp_abt.toNat ∧
      m.sp_abt.toNat ≤ (_abt_stack_top base).toNat) ∧
    ((_und_stack_top base).toNat - 0x400 ≤ m.sp_und.toNat ∧
      m.sp_und.toNat ≤ (_und_stack_top base).toNat) ∧
    (_abt_stack_top base).toNat - m.sp_abt.toNat + ((_und_stack_top base).toNat - m.sp_und.toNat) =
      60 * (faults Event.isFault tr).length ∧
    (faults Event.isFault tr).length ≤ cfg.NUM_PROCESSES ∧ (faults Event.isFault tr).Nodup ∧
    ∀ p ∈ faults Event.isFault tr, (∀ t, pidOf t = p → m.sys.k.state t = TASK_DEAD) ∧
      (m.sys.ctl = .user → pidOf m.sys.k.current ≠ p) := by
  have h : FramesOf base tr m := by
    refine hr.history (I := FramesOf base) (fun _ _ _ _ h hs => h.step hs) ?_
    refine ⟨rep_start, by simp [faults], by simp [faults], ?_, ?_⟩ <;> simp [faults, bootStacks]
  have hlen : (faults Event.isFault tr).length ≤ cfg.NUM_PROCESSES := by
    simpa using h.nodup.length_le_card
  have hsum := faults_length tr
  have habt : m.sp_abt.toNat + 60 * (faults Event.onAbt tr).length = (_abt_stack_top base).toNat ∧
      (_abt_stack_top base).toNat = base.toNat + 0xA00 := by
    rw [h.abt]
    unfold _abt_stack_top
    simp only [BitVec.toNat_sub, BitVec.toNat_add, BitVec.toNat_ofNat]
    omega
  have hund : m.sp_und.toNat + 60 * (faults Event.onUnd tr).length = (_und_stack_top base).toNat ∧
      (_und_stack_top base).toNat = base.toNat + 0xE00 := by
    rw [h.und]
    unfold _und_stack_top _abt_stack_top
    simp only [BitVec.toNat_sub, BitVec.toNat_add, BitVec.toNat_ofNat]
    omega
  refine ⟨by omega, by omega, by omega, hlen, h.nodup, fun p hp => ?_⟩
  exact ⟨(h.gone p hp).dead, (h.gone p hp).user⟩

theorem fault_stacks_bounded_undef : 60 * demo.NUM_PROCESSES ≤ 0x400 ∧
    ∃ tr m, Lib.Run FaultStep (bootStacks demo 0xC0140000#32) tr m ∧ m.sp_und = 0xC0140DC4#32 ∧
      faults Event.isFault tr = [⟨0, by decide⟩] ∧ 0xC0140E00 - 0x400 ≤ m.sp_und.toNat := by
  have hN : 60 * demo.NUM_PROCESSES ≤ 0x400 := by decide
  have hr : Lib.Run FaultStep (bootStacks demo 0xC0140000#32) _ _ :=
    (Lib.Run.single (.mk (.kernel (by simp [bootStacks, start])))).snoc (.mk (.event someFault rfl))
  exact ⟨hN, _, _, hr, rfl, rfl, (fault_stacks_bounded (by decide) hN hr).2.1.1⟩

end CortexAOS
