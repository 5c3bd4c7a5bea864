import CortexAOS.Abstract

/-!
# The invariant of every reachable state

`CtlOk` is what the caller of `schedule()` relies on at the point where the CPU stands. The other
clauses tie the states of the suspended threads to the wait queue and to what each resumes with.
-/

namespace CortexAOS

open task_state_t

variable {cfg : Config}

def KPoint.Reads (p : KPoint) : Prop := ∃ buf len, p = .readWait buf len

def NoOther (a : Abs cfg) : Prop := ∀ t, t ≠ a.current → runnable (a.state t) = false

def SchedOk (a : Abs cfg) : KPoint → Prop
  | .firstEntry => False
  | .irqTail | .svcTail => a.state a.current ≠ TASK_BLOCKED
  | .readWait _ _ => a.state a.current = TASK_BLOCKED ∧ a.ring = [] ∧ a.need = true
  | .faultTail => a.state a.current = TASK_DEAD ∧ a.need = true

def ResumeOk (a : Abs cfg) : KPoint → Prop
  | .firstEntry | .irqTail | .svcTail => a.state a.current ≠ TASK_BLOCKED
  | .readWait _ _ => a.state a.current = TASK_RUNNING ∨
      (a.state a.current = TASK_BLOCKED ∧ a.ring = [] ∧ NoOther a)
  | .faultTail => a.state a.current = TASK_DEAD ∧ NoOther a

def CtlOk (a : Abs cfg) : Prop :=
  match a.ctl with
  | .user => a.need = false ∧ a.state a.current ≠ TASK_BLOCKED
  | .sched p => SchedOk a p
  | .resume p => a.need = false ∧ ResumeOk a p
  | .halted => True

structure Inv (a : Abs cfg) : Prop where
  nodup : a.queue.Nodup
  mem_queue : ∀ t, a.state t = TASK_BLOCKED → t ∈ a.queue
  queue_state : ∀ t ∈ a.queue, a.state t = TASK_BLOCKED ∨ a.state t = TASK_DEAD
  cur_queue : a.current ∈ a.queue → a.state a.current = TASK_BLOCKED
  running : ∀ t, a.state t = TASK_RUNNING → t = a.current
  asleep : ∀ t, t ≠ a.current → a.state t = TASK_BLOCKED → (a.kont t).Reads
  ready : ∀ t, t ≠ a.current → a.state t = TASK_READY → a.hint ≠ some t → (a.kont t).Exits
  hint : ∀ w, a.hint = some w → w ≠ a.current ∧ a.state w = TASK_READY ∧ (a.kont w).Reads ∧
    a.need = true ∧ a.ctl = .sched .irqTail
  ctl : CtlOk a

theorem Inv.no_hint {a : Abs cfg} (h : Inv a) (hc : a.ctl ≠ .sched .irqTail) : a.hint = none := by
  cases hw : a.hint with
  | none => rfl
  | some w => exact absurd (h.hint w hw).2.2.2.2 hc

theorem Inv.hint_need {a : Abs cfg} (h : Inv a) (hn : a.need = false) : a.hint = none := by
  cases hw : a.hint with
  | none => rfl
  | some w => have := (h.hint w hw).2.2.2.1; rw [hn] at this; cases this

theorem Inv.hint_other {a : Abs cfg} (h : Inv a) (hno : NoOther a) : a.hint = none := by
  cases hw : a.hint with
  | none => rfl
  | some w =>
    obtain ⟨hne, hr, -⟩ := h.hint w hw
    have := hno w hne
    rw [hr] at this; cases this

theorem Inv.user {a : Abs cfg} (h : Inv a) (hu : a.ctl = .user) :
    a.need = false ∧ a.hint = none ∧ a.state a.current ≠ TASK_BLOCKED ∧ a.current ∉ a.queue := by
  have hc := h.ctl
  rw [CtlOk, hu] at hc
  exact ⟨hc.1, h.no_hint (by rw [hu]; simp), hc.2, fun hm => hc.2 (h.cur_queue hm)⟩

theorem Inv.sched {a : Abs cfg} (h : Inv a) {p : KPoint} (hc : a.ctl = .sched p) : SchedOk a p := by
  have := h.ctl
  rwa [CtlOk, hc] at this

theorem Inv.resume {a : Abs cfg} (h : Inv a) {p : KPoint} (hc : a.ctl = .resume p) :
    a.need = false ∧ ResumeOk a p := by
  have := h.ctl
  rwa [CtlOk, hc] at this

theorem Inv.runnable {a : Abs cfg} (h : Inv a) {c : Tid cfg} (hne : c ≠ a.current)
    (hr : runnable (a.state c) = true) : a.state c = TASK_READY ∧ c ∉ a.queue := by
  have hready : a.state c = TASK_READY := by
    rcases (by simpa [CortexAOS.runnable] using hr : a.state c = TASK_READY ∨
      a.state c = TASK_RUNNING) with he | he
    · exact he
    · exact absurd (h.running c he) hne
  refine ⟨hready, fun hm => ?_⟩
  rcases h.queue_state c hm with he | he <;> rw [hready] at he <;> cases he

theorem inv_start : Inv (start cfg).abs := by
  rw [start_abs]
  refine ⟨List.nodup_nil, ?_, ?_, ?_, ?_, ?_, ?_, ?_, rfl, ?_⟩
  · intro t ht; cases ht
  · intro t ht; cases ht
  · intro hm; cases hm
  · intro t ht; cases ht
  · intro t _ ht; cases ht
  · intro t _ _ _; exact Or.inl rfl
  · intro w hw; cases hw
  · exact fun hb => by cases hb

/-! ## Handlers -/

theorem Inv.kills {a a' : Abs cfg} (h : Inv a) (hu : a.ctl = .user) (hq : a'.queue = a.queue)
    (hst : ∀ t, a'.state t = a.state t ∨ a'.state t = TASK_DEAD) (hcur : a'.current = a.current)
    (hhint : a'.hint = a.hint) (hkont : a'.kont = a.kont) (hctl : CtlOk a') : Inv a' := by
  obtain ⟨-, hno, -, hfree⟩ := h.user hu
  have hkeep : ∀ t st, st ≠ TASK_DEAD → a'.state t = st → a.state t = st := by
    intro t st hne ht
    rcases hst t with he | he
    · rw [← he, ht]
    · rw [ht] at he; exact absurd he hne
  refine ⟨?_, ?_, ?_, ?_, ?_, ?_, ?_, ?_, hctl⟩
  · rw [hq]; exact h.nodup
  · intro t ht
    rw [hq]
    exact h.mem_queue t (hkeep t _ (by simp) ht)
  · intro t ht
    rw [hq] at ht
    rcases hst t with he | he
    · rw [he]; exact h.queue_state t ht
    · exact Or.inr he
  · rw [hq, hcur]
    exact fun hm => absurd hm hfree
  · intro t ht
    rw [hcur]
    exact h.running t (hkeep t _ (by simp) ht)
  · rw [hcur, hkont]
    exact fun t hne ht => h.asleep t hne (hkeep t _ (by simp) ht)
  · rw [hcur, hkont]
    exact fun t hne ht _ => h.ready t hne (hkeep t _ (by simp) ht) (by rw [hno]; simp)
  · intro w hw
    rw [hhint, hno] at hw
    cases hw

theorem Inv.kill {a : Abs cfg} (h : Inv a) (hu : a.ctl = .user) (dies : Tid cfg → Prop)
    [DecidablePred dies] {p : KPoint} (hp : SchedOk (a.kill dies p) p) : Inv (a.kill dies p) := by
  refine h.kills hu rfl ?_ rfl rfl rfl hp
  intro t
  show (if dies t then TASK_DEAD else a.state t) = _ ∨ (if dies t then TASK_DEAD else a.state t) = _
  split
  · exact Or.inr rfl
  · exact Or.inl rfl

theorem Inv.wake_none {a : Abs cfg} (h : Inv a) (hu : a.ctl = .user) (fifo : List Byte)
    (hcorpses : ∀ u ∈ a.queue, a.state u ≠ TASK_BLOCKED) :
    Inv { a.fill fifo with queue := [], ctl := .sched .irqTail } := by
  obtain ⟨-, hno, hcur, -⟩ := h.user hu
  refine ⟨List.nodup_nil, ?_, ?_, ?_, h.running, h.asleep, h.ready, ?_, hcur⟩
  · intro t ht
    exact absurd ht (hcorpses t (h.mem_queue t ht))
  · intro t ht; cases ht
  · intro hm; cases hm
  · intro w hw
    have hw' : a.hint = some w := hw
    rw [hno] at hw'; cases hw'

theorem Inv.wake {a : Abs cfg} (h : Inv a) (hu : a.ctl = .user) (fifo : List Byte)
    {corpses rest : List (Tid cfg)} {w : Tid cfg} (hq : a.queue = corpses ++ w :: rest)
    (hcorpses : ∀ u ∈ corpses, a.state u ≠ TASK_BLOCKED) (hw : a.state w = TASK_BLOCKED) :
    Inv { a.fill fifo with
      queue := rest
      state := fun u => if u = w then TASK_READY else a.state u
      hint := some w
      need := true
      ctl := .sched .irqTail } := by
  obtain ⟨-, hno, hcur, hfree⟩ := h.user hu
  have hwc : w ≠ a.current := by rintro rfl; exact hcur hw
  have hnodup := h.nodup
  rw [hq] at hnodup
  have hwrest : w ∉ rest := (List.nodup_cons.mp (List.Nodup.of_append_right hnodup)).1
  have hmem : ∀ t ∈ rest, t ∈ a.queue := by
    intro t ht
    rw [hq]; simp [ht]
  refine ⟨?_, ?_, ?_, ?_, ?_, ?_, ?_, ?_, ?_⟩
  · exact (List.nodup_cons.mp (List.Nodup.of_append_right hnodup)).2
  · intro t ht
    simp only at ht
    split at ht
    · cases ht
    · rename_i hne
      have hm := h.mem_queue t ht
      rw [hq, List.mem_append, List.mem_cons] at hm
      rcases hm with hm | hm | hm
      · exact absurd ht (hcorpses t hm)
      · exact absurd hm hne
      · exact hm
  · intro t ht
    have hne : t ≠ w := fun he => hwrest (he ▸ ht)
    simp only [hne, if_false]
    exact h.queue_state t (hmem t ht)
  · intro hm
    exact absurd (hmem _ hm) hfree
  · intro t ht
    simp only at ht
    split at ht
    · cases ht
    · exact h.running t ht
  · intro t hne ht
    simp only at ht
    split at ht
    · cases ht
    · exact h.asleep t hne ht
  · intro t hne ht hnh
    simp only at ht hnh
    split at ht
    · rename_i he
      exact absurd (by rw [he]) hnh
    · exact h.ready t hne ht (by rw [hno]; simp)
  · intro u hu'
    have hu'' : w = u := Option.some.inj hu'
    subst hu''
    exact ⟨hwc, by simp, h.asleep w hwc hw, rfl, rfl⟩
  · show (if a.current = w then TASK_READY else a.state a.current) ≠ _
    rw [if_neg hwc.symm]
    exact hcur

/-! ## sys_read -/

theorem Inv.got {a : Abs cfg} (h : Inv a) (hc : a.ctl ≠ .sched .irqTail)
    (hcur : a.state a.current ≠ TASK_BLOCKED) (len : Word) : Inv (a.got len) := by
  refine ⟨h.nodup, h.mem_queue, h.queue_state, h.cur_queue, h.running, h.asleep, h.ready, ?_, hcur⟩
  intro w hw
  have hw' : a.hint = some w := hw
  rw [h.no_hint hc] at hw'; cases hw'

theorem mem_slept {a : Abs cfg} {buf len : Word} (t : Tid cfg) :
    t ∈ (a.slept buf len).queue ↔ t = a.current ∨ t ∈ a.queue := by
  show t ∈ (if a.current ∈ a.queue then a.queue else a.queue ++ [a.current]) ↔ _
  split
  · rename_i hm
    constructor
    · exact Or.inr
    · rintro (rfl | ht)
      · exact hm
      · exact ht
  · simp [or_comm]

theorem Inv.slept {a : Abs cfg} (h : Inv a) (hc : a.ctl ≠ .sched .irqTail) (hr : a.ring = [])
    (buf len : Word) : Inv (a.slept buf len) := by
  have hother : ∀ t, t ≠ a.current → (a.slept buf len).state t = a.state t := fun t ht => if_neg ht
  have hself : (a.slept buf len).state a.current = TASK_BLOCKED := if_pos rfl
  have hno : (a.slept buf len).hint = none := h.no_hint hc
  refine ⟨?_, ?_, ?_, ?_, ?_, ?_, ?_, ?_, ⟨hself, hr, rfl⟩⟩
  · show (if a.current ∈ a.queue then a.queue else a.queue ++ [a.current]).Nodup
    split
    · exact h.nodup
    · rename_i hm
      exact List.nodup_append.mpr
        ⟨h.nodup, by simp, by simpa using fun u hu => ne_of_mem_of_not_mem hu hm⟩
  · intro t ht
    rw [mem_slept]
    by_cases hcur : t = a.current
    · exact Or.inl hcur
    · rw [hother t hcur] at ht
      exact Or.inr (h.mem_queue t ht)
  · intro t ht
    by_cases hcur : t = a.current
    · rw [hcur]; exact Or.inl hself
    · rw [hother t hcur]
      exact h.queue_state t (((mem_slept t).mp ht).resolve_left hcur)
  · exact fun _ => hself
  · intro t ht
    by_cases hcur : t = a.current
    · exact hcur
    · rw [hother t hcur] at ht
      exact h.running t ht
  · intro t hne ht
    rw [hother t hne] at ht
    exact h.asleep t hne ht
  · intro t hne ht _
    rw [hother t hne] at ht
    exact h.ready t hne ht (by rw [h.no_hint hc]; simp)
  · intro w hw
    rw [hno] at hw; cases hw

/-! ## schedule -/

theorem Inv.sched_idle {a : Abs cfg} (h : Inv a) {p : KPoint} (hc : a.ctl = .sched p)
    (hn : a.need = false) : Inv { a with ctl := .resume p } := by
  have hp := h.sched hc
  have hno := h.hint_need hn
  refine ⟨h.nodup, h.mem_queue, h.queue_state, h.cur_queue, h.running, h.asleep, h.ready, ?_, hn, ?_⟩
  · intro w hw
    have hw' : a.hint = some w := hw
    rw [hno] at hw'; cases hw'
  · cases p with
    | firstEntry => exact hp.elim
    | irqTail | svcTail => exact hp
    | readWait buf len => rw [hp.2.2] at hn; cases hn
    | faultTail => rw [hp.2] at hn; cases hn

theorem Inv.sched_none {a : Abs cfg} (h : Inv a) {p : KPoint} (hc : a.ctl = .sched p) (hno : NoOther a) :
    Inv { a with need := false, hint := none, ctl := .resume p } := by
  have hp := h.sched hc
  have hhint := h.hint_other hno
  refine ⟨h.nodup, h.mem_queue, h.queue_state, h.cur_queue, h.running, h.asleep, ?_, ?_, rfl, ?_⟩
  · exact fun t hne ht _ => h.ready t hne ht (by rw [hhint]; simp)
  · intro w hw; cases hw
  · cases p with
    | firstEntry => exact hp.elim
    | irqTail | svcTail => exact hp
    | readWait buf len => exact Or.inr ⟨hp.1, hp.2.1, hno⟩
    | faultTail => exact ⟨hp.1, hno⟩

theorem SchedOk.exits {a : Abs cfg} {p : KPoint} (hp : SchedOk a p)
    (hb : a.state a.current ≠ TASK_BLOCKED) (hd : a.state a.current ≠ TASK_DEAD) : p.Exits := by
  cases p with
  | firstEntry => exact Or.inl rfl
  | irqTail => exact Or.inr (Or.inl rfl)
  | svcTail => exact Or.inr (Or.inr rfl)
  | readWait buf len => exact absurd hp.1 hb
  | faultTail => exact absurd hp.1 hd

theorem SchedOk.reads {a : Abs cfg} {p : KPoint} (hp : SchedOk a p)
    (hb : a.state a.current = TASK_BLOCKED) : p.Reads := by
  cases p with
  | firstEntry => exact hp.elim
  | irqTail | svcTail => exact absurd hb hp
  | readWait buf len => exact ⟨buf, len, rfl⟩
  | faultTail => have := hp.1; rw [hb] at this; cases this

theorem resumeOk_running {a : Abs cfg} {p : KPoint} (hp : p.Exits ∨ p.Reads)
    (hr : a.state a.current = TASK_RUNNING) : ResumeOk a p := by
  have hb : a.state a.current ≠ TASK_BLOCKED := by rw [hr]; simp
  rcases hp with (rfl | rfl | rfl) | ⟨buf, len, rfl⟩
  · exact hb
  · exact hb
  · exact hb
  · exact Or.inl hr

theorem Inv.switch {a : Abs cfg} (h : Inv a) {p : KPoint} {c : Tid cfg} (hc : a.ctl = .sched p)
    (hne : c ≠ a.current) (hr : CortexAOS.runnable (a.state c) = true)
    (hhint : ∀ w, a.hint = some w → w ≠ a.current → a.state w = TASK_READY → c = w) :
    Inv (a.switch p c) := by
  have hp := h.sched hc
  obtain ⟨hready, hcq⟩ := h.runnable hne hr
  have hself : (a.switch p c).state c = TASK_RUNNING := switchStates_cand
  have hst :
      ∀ t, t ≠ c → ((t = a.current → a.state t ≠ TASK_RUNNING) ∧ (a.switch p c).state t = a.state t) ∨
      (t = a.current ∧ a.state t = TASK_RUNNING ∧ (a.switch p c).state t = TASK_READY) :=
    fun t ht => switchStates_of_ne ht
  have hkont : ∀ t, t ≠ a.current → (a.switch p c).kont t = a.kont t :=
    fun t ht => Function.update_of_ne ht _ _
  have hkprev : (a.switch p c).kont a.current = p := Function.update_self ..
  refine ⟨h.nodup, ?_, ?_, ?_, ?_, ?_, ?_, ?_, rfl, ?_⟩
  · intro t ht
    by_cases htc : t = c
    · rw [htc, hself] at ht; cases ht
    · rcases hst t htc with ⟨-, he⟩ | ⟨-, -, he⟩
      · rw [he] at ht; exact h.mem_queue t ht
      · rw [he] at ht; cases ht
  · intro t ht
    have htc : t ≠ c := fun he => hcq (he ▸ ht)
    rcases hst t htc with ⟨-, he⟩ | ⟨-, hrun, -⟩
    · rw [he]; exact h.queue_state t ht
    · rcases h.queue_state t ht with hq | hq <;> rw [hrun] at hq <;> cases hq
  · intro hm; exact absurd hm hcq
  · intro t ht
    show t = c
    by_contra htc
    rcases hst t htc with ⟨hkept, he⟩ | ⟨-, -, he⟩
    · rw [he] at ht
      exact hkept (h.running t ht) ht
    · rw [he] at ht; cases ht
  · intro t htc ht
    rcases hst t htc with ⟨-, he⟩ | ⟨-, -, he⟩
    · rw [he] at ht
      by_cases hcur : t = a.current
      · subst hcur; rw [hkprev]; exact hp.reads ht
      · rw [hkont t hcur]; exact h.asleep t hcur ht
    · rw [he] at ht; cases ht
  · intro t htc ht _
    by_cases hcur : t = a.current
    · subst hcur
      rw [hkprev]
      rcases hst a.current htc with ⟨-, he⟩ | ⟨-, hrun, -⟩
      · rw [he] at ht
        exact hp.exits (by rw [ht]; simp) (by rw [ht]; simp)
      · exact hp.exits (by rw [hrun]; simp) (by rw [hrun]; simp)
    · rcases hst t htc with ⟨-, he⟩ | ⟨he, -⟩
      · rw [he] at ht
        rw [hkont t hcur]
        exact h.ready t hcur ht fun hw => htc (hhint t hw hcur ht).symm
      · exact absurd he hcur
  · intro w hw; cases hw
  · refine resumeOk_running ?_ hself
    by_cases hw : a.hint = some c
    · exact Or.inr (h.hint c hw).2.2.1
    · exact Or.inl (h.ready c hne hready hw)

/-! ## Runs -/

theorem inv_step {a a' : Abs cfg} {l : Label cfg} (h : Inv a) (hs : AStep a l a') : Inv a' := by
  cases hs with
  | timer hu => exact h.kills hu rfl (fun _ => Or.inl rfl) rfl rfl rfl (h.user hu).2.2.1
  | spurious hu => exact h.kills hu rfl (fun _ => Or.inl rfl) rfl rfl rfl (h.user hu).2.2.1
  | uartNone hu _ _ hcorpses => exact h.wake_none hu _ hcorpses
  | uartWake hu _ _ hq hcorpses hw => exact h.wake hu _ hq hcorpses hw
  | svcQuiet hu => exact h.kills hu rfl (fun _ => Or.inl rfl) rfl rfl rfl (h.user hu).2.2.1
  | svcExit hu =>
    refine h.kill hu _ ?_
    show (if a.current = a.current then TASK_DEAD else _) ≠ _
    simp
  | @svcKill ctx umem o p hu =>
    refine h.kill hu _ ?_
    show (if pidOf a.current = p then TASK_DEAD else a.state a.current) ≠ _
    split
    · simp
    · exact (h.user hu).2.2.1
  | svcGot hu => exact h.got (by rw [hu]; simp) (h.user hu).2.2.1 _
  | svcSlept hu _ _ hr => exact h.slept (by rw [hu]; simp) hr _ _
  | fault hu => exact h.kill hu _ ⟨if_pos rfl, rfl⟩
  | schedIdle hc hn => exact h.sched_idle hc hn
  | schedNone hc _ hno => exact h.sched_none hc hno
  | schedSwitch hc _ hne hr hhint => exact h.switch hc hne hr hhint
  | @toUser p hc hp =>
    obtain ⟨hn, hres⟩ := h.resume hc
    have hcur : a.state a.current ≠ TASK_BLOCKED := by
      rcases hp with rfl | rfl | rfl <;> exact hres
    refine ⟨h.nodup, h.mem_queue, h.queue_state, h.cur_queue, h.running, h.asleep, h.ready, ?_, hn, hcur⟩
    intro w hw
    exact absurd (h.hint w hw).2.2.2.2 (by rw [hc]; simp)
  | readGot hc _ hr =>
    have hcur : a.state a.current ≠ TASK_BLOCKED := by
      rcases (h.resume hc).2 with he | ⟨-, he, -⟩
      · rw [he]; simp
      · exact absurd he hr
    exact h.got (by rw [hc]; simp) hcur _
  | readSlept hc _ hr => exact h.slept (by rw [hc]; simp) hr _ _
  | panic hc =>
    refine ⟨h.nodup, h.mem_queue, h.queue_state, h.cur_queue, h.running, h.asleep, h.ready, ?_, trivial⟩
    intro w hw
    exact absurd (h.hint w hw).2.2.2.2 (by rw [hc]; simp)
  | halted => exact h

theorem reachable_rep {s : Sys cfg} (h : Reachable s) : Rep s := by
  obtain ⟨tr, hr⟩ := h
  exact (run_refines rep_start hr).1

theorem reachable_inv {s : Sys cfg} (h : Reachable s) : Inv s.abs := by
  obtain ⟨tr, hr⟩ := h
  exact (run_refines rep_start hr).2.invariant (fun _ _ _ hi hs => inv_step hi hs) inv_start

end CortexAOS
