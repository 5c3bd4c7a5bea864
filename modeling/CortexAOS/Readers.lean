import CortexAOS.Wakeup

/-!
# Readers are served in the order in which they went to sleep

A reader that sleeps is in the queue, or has just been woken and is on its way to its bytes. Those
who sleep later are behind it, and none of them can complete a `sys_read` before it.
-/

namespace CortexAOS

open task_state_t Kernel

variable {cfg : Config}

/-- The chip raises its interrupt only when its FIFO holds a byte. -/
def FifoHolds (_ : Sys cfg) : Event → Prop
  | .irq (.uart fifo) => fifo ≠ []
  | _ => True

instance (s : Sys cfg) : (e : Event) → Decidable (FifoHolds s e)
  | .irq (.uart fifo) => inferInstanceAs (Decidable (fifo ≠ []))
  | .irq .timer | .irq .spurious | .svc .. | .dataAbort .. | .prefetchAbort ..
  | .undefined .. => .isTrue trivial

theorem fill_ne_nil (a : Abs cfg) {fifo : List Byte} (h : fifo ≠ []) : (a.fill fifo).ring ≠ [] := by
  show a.ring ++ fifo.take (127 - a.ring.length) ≠ []
  cases hr : a.ring with
  | nil =>
    cases fifo with
    | nil => exact absurd rfl h
    | cons c cs => simp
  | cons c cs => simp

/-! ## One reader -/

/-- `A` sleeps in `sys_read` with `bs` behind it, or is on its way to its bytes. -/
def Waits (A : Tid cfg) (bs : List (Tid cfg)) (a : Abs cfg) : Prop :=
  (A :: bs).Sublist a.queue ∨ (a.hint = some A ∧ a.ring ≠ []) ∨
    (a.current = A ∧ a.ring ≠ [] ∧ ∃ buf len, a.ctl = .resume (.readWait buf len))

/-- `A` was killed in its sleep. -/
def Gone (A : Tid cfg) (a : Abs cfg) : Prop := a.state A = TASK_DEAD ∧ A ≠ a.current

def Completes (A : Tid cfg) (l : Label cfg) : Prop := ∃ len bs, .readDone A len bs ∈ l.obs

theorem gone_step {A : Tid cfg} {a a' : Abs cfg} {l : Label cfg} (h : Gone A a)
    (hs : AStep a l a') : Gone A a' := by
  obtain ⟨hd, hne⟩ := h
  cases hs with
  | @uartWake fifo o corpses w rest hu _ _ _ _ hw =>
    have hAw : A ≠ w := by rintro rfl; rw [hd] at hw; cases hw
    exact ⟨(if_neg hAw).trans hd, hne⟩
  | svcExit | svcKill | fault => exact ⟨by simp only [Abs.kill, hd, ite_self], hne⟩
  | svcSlept | readSlept => exact ⟨(if_neg hne).trans hd, hne⟩
  | @schedSwitch p c _ _ _ hr =>
    have hAc : A ≠ c := by rintro rfl; rw [hd] at hr; cases hr
    exact ⟨(if_neg hAc).trans ((if_neg (fun h => hne h.1)).trans hd), hAc⟩
  | timer | spurious | uartNone | svcQuiet | svcGot | schedIdle | schedNone | toUser | readGot
  | panic | halted =>
    exact ⟨hd, hne⟩

theorem queued_dead {A : Tid cfg} {a : Abs cfg} (hi : Inv a) (hu : a.ctl = .user) (hm : A ∈ a.queue)
    (hb : a.state A ≠ TASK_BLOCKED) : Gone A a :=
  ⟨(hi.queue_state A hm).resolve_left hb, fun he => (hi.user hu).2.2.2 (he ▸ hm)⟩

theorem wake_waits {A w : Tid cfg} {bs corpses rest : List (Tid cfg)} {a : Abs cfg} {fifo : List Byte}
    (hi : Inv a) (hu : a.ctl = .user) (hfifo : fifo ≠ []) (hq : a.queue = corpses ++ w :: rest)
    (hcorpses : ∀ u ∈ corpses, a.state u ≠ TASK_BLOCKED) (hw : a.state w = TASK_BLOCKED)
    (h : (A :: bs).Sublist a.queue) :
    Waits A bs (a.woken fifo w rest) ∨ Gone A (a.woken fifo w rest) := by
  have hm : A ∈ a.queue := h.subset (by simp)
  rw [hq, List.sublist_append_iff] at h
  obtain ⟨l1, l2, hl, h1, h2⟩ := h
  cases l1 with
  | nil =>
    rw [List.nil_append] at hl
    subst hl
    left
    by_cases hA : A = w
    · exact Or.inr (Or.inl ⟨by rw [hA]; rfl, fill_ne_nil a hfifo⟩)
    · left
      rcases List.sublist_cons_iff.mp h2 with h2 | ⟨r, hr, -⟩
      · exact h2
      · exact absurd (List.cons.inj hr).1 hA
  | cons x l1 =>
    right
    obtain ⟨rfl, -⟩ := List.cons.inj hl
    have hb := hcorpses A (h1.subset (by simp))
    have hA : A ≠ w := by rintro rfl; exact hb hw
    obtain ⟨hd, hne⟩ := queued_dead hi hu hm hb
    exact ⟨(if_neg hA).trans hd, hne⟩

theorem waits_step {A : Tid cfg} {bs : List (Tid cfg)} {a a' : Abs cfg} {l : Label cfg} (hi : Inv a)
    (h : Waits A bs a) (hs : AStep a l a')
    (hfifo : ∀ fifo, l.ev = some (.irq (.uart fifo)) → fifo ≠ []) :
    Waits A bs a' ∨ Gone A a' ∨ Completes A l := by
  rcases h with hq | ⟨hh, hr⟩ | ⟨hcur, hr, buf, len, hc⟩
  · cases hs with
    | uartNone hu _ _ hcorpses =>
      have hm : A ∈ a.queue := hq.subset (by simp)
      obtain ⟨hd, hne⟩ := queued_dead hi hu hm (hcorpses A hm)
      exact Or.inr (Or.inl ⟨hd, hne⟩)
    | @uartWake fifo o corpses w rest hu _ _ hq' hcorpses hw =>
      rcases wake_waits hi hu (hfifo fifo rfl) hq' hcorpses hw hq with h | h
      · exact Or.inl h
      · exact Or.inr (Or.inl h)
    | svcSlept | readSlept =>
      refine Or.inl (Or.inl (hq.trans ?_))
      show a.queue.Sublist (if a.current ∈ a.queue then a.queue else a.queue ++ [a.current])
      split
      · exact List.Sublist.refl _
      · exact List.sublist_append_left _ _
    | timer | spurious | svcQuiet | svcExit | svcKill | svcGot | fault | schedIdle | schedNone
    | schedSwitch | toUser | readGot | panic | halted => exact Or.inl (Or.inl hq)
  · obtain ⟨hne, hready, ⟨buf, len, hk⟩, hneed, hc⟩ := hi.hint A hh
    rcases hs.inv_sched hc with ⟨hn, -⟩ | ⟨-, hno, -⟩ | ⟨c, -, -, -, hhint, -, rfl⟩
    · rw [hneed] at hn; cases hn
    · have := hno A hne
      rw [hready] at this; cases this
    · obtain rfl := hhint A hh hne hready
      exact Or.inl (Or.inr (Or.inr ⟨rfl, hr, buf, len, congrArg Ctl.resume hk⟩))
  · rcases hs.inv_read hc with ⟨-, rfl, -⟩ | ⟨hnil, -⟩
    · exact Or.inr (Or.inr ⟨len, a.ring.take len.toNat, by simp [Abs.gotObs, hcur]⟩)
    · exact absurd hnil hr

/-! ## A second reader, behind it -/

theorem waits_queued {A B : Tid cfg} {a a' : Abs cfg} {l : Label cfg} (hi : Inv a) (h : Waits A [] a)
    (hs : AStep a l a') (hB : .queued B ∈ l.obs) : Waits A [B] a' := by
  obtain ⟨-, -, hnil, hq', buf, len, -, hc⟩ := hs.inv_queued hB
  rcases h with hq | ⟨hh, -⟩ | ⟨-, hr, -⟩
  · refine Or.inl ?_
    rw [hq']
    exact hq.append (List.Sublist.refl [B])
  · have hirq := (hi.hint A hh).2.2.2.2
    rcases hc with hc | hc <;> rw [hirq] at hc <;> cases hc
  · exact absurd hnil hr

theorem waits_not_before {A B : Tid cfg} (hne : B ≠ A) {a a' : Abs cfg} {l : Label cfg} (hi : Inv a)
    (h : Waits A [B] a) (hs : AStep a l a') : ¬ Completes B l := by
  rintro ⟨len, bs, hm⟩
  obtain ⟨hB, hr, -, -, buf, -, -, hc⟩ := hs.inv_readDone hm
  replace hc : a.ctl = .user ∨ a.ctl = .resume (.readWait buf len) := hc.imp And.left And.left
  rcases h with hq | ⟨hh, -⟩ | ⟨hcur, -⟩
  · have hmem : a.current ∈ a.queue := hB ▸ hq.subset (by simp)
    have hblocked := hi.cur_queue hmem
    rcases hc with hc | hc
    · exact (hi.user hc).2.2.1 hblocked
    · rcases (hi.resume hc).2 with he | ⟨-, he, -⟩
      · rw [hblocked] at he; cases he
      · exact hr he
  · have hirq := (hi.hint A hh).2.2.2.2
    rcases hc with hc | hc <;> rw [hirq] at hc <;> cases hc
  · exact hne (hB.trans hcur)

/-! ## Runs -/

theorem good_run {ok : Sys cfg → Event → Prop} {s s' : Sys cfg} {tr : List (Label cfg)} (hrep : Rep s)
    (hi : Inv s.abs) (hr : Lib.Run (StepWhere ok) s tr s') :
    Lib.Run (fun u l u' => StepWhere ok u l u' ∧ (Rep u ∧ Inv u.abs) ∧ Rep u' ∧ Inv u'.abs) s tr s' := by
  refine hr.restrict (I := fun u => Rep u ∧ Inv u.abs) ?_ ⟨hrep, hi⟩
  rintro u l u' ⟨hu, hiu⟩ ⟨hs, -⟩
  obtain ⟨hrep', hstep⟩ := step_refines hu hs
  exact ⟨hrep', inv_step hiu hstep⟩

theorem fifo_label {s s' : Sys cfg} {l : Label cfg} (h : StepWhere FifoHolds s l s') (fifo : List Byte)
    (hl : l.ev = some (.irq (.uart fifo))) : fifo ≠ [] := h.2 _ hl

theorem waits_run {A : Tid cfg} {bs : List (Tid cfg)} {s s' : Sys cfg} {tr : List (Label cfg)}
    (hrep : Rep s)
    (hi : Inv s.abs) (hr : Lib.Run (StepWhere FifoHolds) s tr s') (h : Waits A bs s.abs) :
    Waits A bs s'.abs ∨ Gone A s'.abs ∨ ∃ l ∈ tr, Completes A l := by
  refine (good_run hrep hi hr).history
    (I := fun tr u => Waits A bs u.abs ∨ Gone A u.abs ∨ ∃ l ∈ tr, Completes A l) ?_ (Or.inl h)
  rintro tr u l u' ih ⟨hs, ⟨hru, hiu⟩, -⟩
  obtain ⟨-, hstep⟩ := step_refines hru hs.1
  rcases ih with hw | hg | ⟨l', hl', hc⟩
  · rcases waits_step hiu hw hstep (fifo_label hs) with h | h | h
    · exact Or.inl h
    · exact Or.inr (Or.inl h)
    · exact Or.inr (Or.inr ⟨l, by simp, h⟩)
  · exact Or.inr (Or.inl (gone_step hg hstep))
  · exact Or.inr (Or.inr ⟨l', by simp [hl'], hc⟩)

theorem gone_run {A : Tid cfg} {ok : Sys cfg → Event → Prop} {s s' : Sys cfg}
    {tr : List (Label cfg)} (hrep : Rep s)
    (hi : Inv s.abs) (hr : Lib.Run (StepWhere ok) s tr s') (h : Gone A s.abs) : Gone A s'.abs := by
  refine (good_run hrep hi hr).invariant (I := fun u => Gone A u.abs) ?_ h
  rintro u l u' hg ⟨hs, ⟨hru, -⟩, -⟩
  exact gone_step hg (step_refines hru hs.1).2

/-- `A` slept before `B`, and `B` has completed: so has `A`. -/
theorem served_in_order {A B : Tid cfg} (hne : B ≠ A) {s : Sys cfg} {tr1 tr2 tr3 : List (Label cfg)}
    {la lb lc : Label cfg}
    (hr : Lib.Run (StepWhere FifoHolds) (start cfg) (tr1 ++ [la] ++ (tr2 ++ [lb] ++ (tr3 ++ [lc]))) s)
    (hA : .queued A ∈ la.obs) (hB : .queued B ∈ lb.obs) (hC : Completes B lc)
    (halive : s.k.state A ≠ TASK_DEAD) : ∃ l ∈ tr2 ++ [lb] ++ tr3, Completes A l := by
  obtain ⟨s2, hr12, hr34⟩ := hr.split
  obtain ⟨s1, hr1, hra⟩ := hr12.split
  obtain ⟨s4, hr23, hr56⟩ := hr34.split
  obtain ⟨s3, hr2, hrb⟩ := hr23.split
  obtain ⟨s5, hr3, hrc⟩ := hr56.split
  have hgood : ∀ {u : Sys cfg} {tr : List (Label cfg)}, Lib.Run (StepWhere FifoHolds) (start cfg) tr u →
      Rep u ∧ Inv u.abs := fun hu =>
    ⟨reachable_rep ⟨_, hu.mono fun _ _ _ hs => hs.1⟩, reachable_inv ⟨_, hu.mono fun _ _ _ hs => hs.1⟩⟩
  obtain ⟨hrep1, hi1⟩ := hgood hr1
  obtain ⟨hrep2, hi2⟩ := hgood hr12
  obtain ⟨hrep3, hi3⟩ := hgood (hr12.trans hr2)
  obtain ⟨hrep4, hi4⟩ := hgood (hr12.trans hr23)
  obtain ⟨hrep5, hi5⟩ := hgood ((hr12.trans hr23).trans hr3)
  have halive5 : ¬ Gone A s5.abs := fun hg => halive (gone_run hrep5 hi5 hrc hg).1
  have halive4 : ¬ Gone A s4.abs := fun hg => halive5 (gone_run hrep4 hi4 hr3 hg)
  have halive3 : ¬ Gone A s3.abs := fun hg => halive4 (gone_run hrep3 hi3 hrb hg)
  have h2 : Waits A [] s2.abs := by
    obtain ⟨-, -, -, hq, -⟩ := (step_refines hrep1 hra.of_single.1).2.inv_queued hA
    exact Or.inl (by rw [hq]; exact List.sublist_append_right _ _)
  rcases waits_run hrep2 hi2 hr2 h2 with h3 | h3 | ⟨l, hl, hc⟩
  · have h4 := waits_queued hi3 h3 (step_refines hrep3 hrb.of_single.1).2 hB
    rcases waits_run hrep4 hi4 hr3 h4 with h5 | h5 | ⟨l, hl, hc⟩
    · exact absurd hC (waits_not_before hne hi5 h5 (step_refines hrep5 hrc.of_single.1).2)
    · exact absurd h5 halive5
    · exact ⟨l, by simp [hl], hc⟩
  · exact absurd h3 halive3
  · exact ⟨l, by simp [hl], hc⟩

/-! ## The order of the queue -/

def Label.sleeps (l : Label cfg) : List (Tid cfg) :=
  l.obs.filterMap fun | .queued t => some t | _ => none

/-- `w` has gone to sleep for the last time, and `u` has done so after it. -/
def SleptBefore (tr : List (Label cfg)) (w u : Tid cfg) : Prop :=
  ∃ p q, tr.flatMap Label.sleeps = p ++ w :: q ∧ w ∉ q ∧ u ∈ q

theorem sleeps_nil {l : Label cfg} (h : ∀ t, .queued t ∉ l.obs) : l.sleeps = [] := by
  unfold Label.sleeps
  rw [List.filterMap_eq_nil_iff]
  intro x hx
  cases x with
  | queued t => exact absurd hx (h t)
  | _ => rfl

theorem queue_step {a a' : Abs cfg} {l : Label cfg} (hs : AStep a l a') :
    (l.sleeps = [] ∧ a'.queue.Sublist a.queue) ∨
      ∃ t, l.sleeps = [t] ∧ t ∉ a.queue ∧ a'.queue = a.queue ++ [t] := by
  have hslept : ∀ {e : Option Event} (buf len : Word),
      ((⟨e, a.sleptObs⟩ : Label cfg).sleeps = [] ∧ (a.slept buf len).queue.Sublist a.queue) ∨
        ∃ t, (⟨e, a.sleptObs⟩ : Label cfg).sleeps = [t] ∧ t ∉ a.queue ∧
          (a.slept buf len).queue = a.queue ++ [t] := by
    intro e buf len
    by_cases hm : a.current ∈ a.queue
    · left
      simp [Label.sleeps, Abs.sleptObs, Abs.slept, hm]
    · right
      exact ⟨a.current, by simp [Label.sleeps, Abs.sleptObs, hm], hm, if_neg hm⟩
  cases hs with
  | svcSlept => exact hslept _ _
  | readSlept => exact hslept _ _
  | uartNone _ ho =>
    exact Or.inl ⟨sleeps_nil fun t => rx_not_mem ho (by simp) (by simp), List.nil_sublist _⟩
  | @uartWake fifo o corpses w rest _ ho _ hq =>
    refine Or.inl ⟨sleeps_nil fun t => rx_not_mem ho (by simp) (by simp), ?_⟩
    rw [hq]
    exact (List.sublist_cons_self w rest).trans (List.sublist_append_right corpses _)
  | svcGot | readGot =>
    refine Or.inl ⟨sleeps_nil fun t hm => ?_, List.Sublist.refl _⟩
    simp only [Abs.gotObs, List.mem_append, List.mem_singleton, reduceCtorEq, or_false] at hm
    exact plain_not_mem (stores_plain _ _) rfl hm
  | svcQuiet _ ho | svcExit _ _ ho | svcKill _ _ _ _ ho =>
    refine Or.inl ⟨sleeps_nil fun t hm => ?_, List.Sublist.refl _⟩
    simp only [List.mem_append, List.mem_singleton, reduceCtorEq, or_false] at hm
    exact plain_not_mem ho rfl hm
  | fault _ _ ho | panic _ ho =>
    exact Or.inl ⟨sleeps_nil fun t => plain_not_mem ho rfl, List.Sublist.refl _⟩
  | timer | spurious | schedIdle | schedNone | schedSwitch | toUser | halted =>
    exact Or.inl ⟨rfl, List.Sublist.refl _⟩

theorem sleptBefore_snoc {tr : List (Label cfg)} {l : Label cfg} {w u : Tid cfg} (h : SleptBefore tr w u)
    (hw : w ∉ l.sleeps) : SleptBefore (tr ++ [l]) w u := by
  obtain ⟨p, q, he, hn, hu⟩ := h
  refine ⟨p, q ++ l.sleeps, ?_, ?_, by simp [hu]⟩
  · simp [he]
  · simp [hn, hw]

theorem last_occurrence {α : Type*} {x : α} {l : List α} (h : x ∈ l) :
    ∃ p q, l = p ++ x :: q ∧ x ∉ q := by
  obtain ⟨q, p, he, hq⟩ := List.eq_append_cons_of_mem (List.mem_reverse.mpr h)
  refine ⟨p.reverse, q.reverse, ?_, by simpa using hq⟩
  rw [← List.reverse_reverse l, he]
  simp

/-- The queue holds threads in the order of their last sleep. -/
def Ordered (tr : List (Label cfg)) (a : Abs cfg) : Prop :=
  (∀ t ∈ a.queue, t ∈ tr.flatMap Label.sleeps) ∧ a.queue.Pairwise (SleptBefore tr)

theorem ordered_step {tr : List (Label cfg)} {a a' : Abs cfg} {l : Label cfg} (h : Ordered tr a)
    (hs : AStep a l a') : Ordered (tr ++ [l]) a' := by
  obtain ⟨hmem, hpair⟩ := h
  rcases queue_step hs with ⟨hnil, hsub⟩ | ⟨t, ht, hfree, hq⟩
  · have hn : ∀ w : Tid cfg, w ∉ l.sleeps := by rw [hnil]; simp
    refine ⟨fun t ht => ?_, ?_⟩
    · simpa [hnil] using hmem t (hsub.subset ht)
    · exact (hpair.sublist hsub).imp fun hb => sleptBefore_snoc hb (hn _)
  · have hn : ∀ w ∈ a.queue, w ∉ l.sleeps := by
      intro w hw
      rw [ht, List.mem_singleton]
      exact fun he => hfree (he ▸ hw)
    rw [Ordered, hq]
    refine ⟨?_, List.pairwise_append.mpr ⟨?_, List.pairwise_singleton _ _, ?_⟩⟩
    · intro u hu
      rw [List.flatMap_append, List.mem_append]
      rcases List.mem_append.mp hu with hu | hu
      · exact Or.inl (hmem u hu)
      · exact Or.inr (by simpa [ht] using hu)
    · refine hpair.imp_of_mem fun hw _ hb => sleptBefore_snoc hb (hn _ hw)
    · -- The newcomer has slept after everybody in the queue.
      intro w hw u hu
      obtain rfl := List.mem_singleton.mp hu
      obtain ⟨p, q, he, hwq⟩ := last_occurrence (hmem w hw)
      refine ⟨p, q ++ l.sleeps, by simp [he], ?_, by simp [ht]⟩
      simp [hwq, hn w hw]

theorem waiting_ordered {s : Sys cfg} {tr : List (Label cfg)} (hr : Lib.Run Step (start cfg) tr s)
    {w : Tid cfg}
    (hw : s.k.waiting.head? = some w) (u : Tid cfg) (hu : s.k.state u = TASK_BLOCKED) (hne : u ≠ w) :
    SleptBefore tr w u := by
  have hord : Ordered tr s.abs := by
    refine (run_refines rep_start hr).2.history (I := Ordered)
      (fun _ _ _ _ h hs => ordered_step h hs) ⟨?_, ?_⟩
    all_goals rw [start_abs]
    · simp
    · exact List.Pairwise.nil
  have hpair : s.k.waiting.Pairwise (SleptBefore tr) := hord.2.sublist (List.filter_sublist)
  have hmem : u ∈ s.k.waiting := (mem_waiting (reachable_inv ⟨tr, hr⟩) u).mpr hu
  obtain ⟨rest, hrest⟩ := List.head?_eq_some_iff.mp hw
  rw [hrest] at hpair hmem
  exact List.rel_of_pairwise_cons hpair ((List.mem_cons.mp hmem).resolve_left hne)

/-! ## Each interrupt serves one reader -/

/-- The interrupt makes `w` READY and nobody else, the CPU goes to `w`, and its `sys_read` comes back
with at least one byte before the CPU is in user mode again. -/
structure ServesFirst (s : Sys cfg) (fifo : List Byte) (w : Tid cfg) (s0 : Sys cfg) : Prop where
  enter : (CortexAOS.enter s (.irq (.uart fifo))).1 = s0
  ready : ∀ t, s0.k.state t = if t = w then TASK_READY else s.k.state t
  switch : kernelStep s0 = (settle 1 s0, [.switched s.k.current w]) ∧ (settle 1 s0).k.current = w
  read : ∃ buf len bs, 1 ≤ bs.length ∧ kernelStep (settle 1 s0) = (settle 2 s0,
    stores buf bs ++ [.readDone w len bs] ++ [.sysret w (BitVec.ofNat 32 bs.length)])
  leave : kernelStep (settle 2 s0) = (settle 3 s0, []) ∧ kernelStep (settle 3 s0) = (settle 4 s0, [])
  user : (settle 4 s0).ctl = .user ∧ (settle 4 s0).k.current = w

theorem serves_first {s : Sys cfg} (hrep : Rep s) (hinv : Inv s.abs) (hu : s.ctl = .user)
    {fifo : List Byte} (hfifo : fifo ≠ []) {w : Tid cfg} (hw : s.k.waiting.head? = some w) :
    ∃ s0, ServesFirst s fifo w s0 := by
  have hne : s.k.filled fifo ≠ [] := fill_ne_nil s.abs hfifo
  obtain ⟨rest, buf, len, h⟩ := served hrep hinv hu fifo hw hne
  refine ⟨_, rfl, ?_, ?_, ?_, ?_, ?_⟩
  all_goals generalize (enter s (.irq (.uart fifo))).1 = s0 at h
  all_goals have habs1 := h.switch.2
  all_goals have habs2 := h.read.2
  · intro t
    exact congrFun (congrArg Abs.state h.woken) t
  · have hctl : s0.ctl = .sched .irqTail := congrArg Abs.ctl h.woken
    refine ⟨?_, congrArg Abs.current habs1⟩
    exact Prod.ext (settle_snoc 0 s0 (by rw [settle_zero, hctl]; simp)).symm h.switch.1
  · have hctl : (settle 1 s0).ctl = .resume (s0.kont w) := congrArg Abs.ctl habs1
    have hcur : (settle 1 s0).abs.current = w := congrArg Abs.current habs1
    have hring : (settle 1 s0).abs.ring = s.k.filled fifo := by
      rw [habs1, h.woken]; rfl
    refine ⟨buf, len, (s.k.filled fifo).take len.toNat, ?_, ?_⟩
    · have hlen : len.toNat ≠ 0 := by
        intro h0
        exact (hrep.kont w buf len h.asks).1 (BitVec.eq_of_toNat_eq (by simpa using h0))
      rw [List.length_take]
      have := List.length_pos_iff.mpr hne
      omega
    · rw [← hring, ← hcur]
      exact Prod.ext (settle_snoc 1 s0 (by rw [hctl]; simp)).symm h.read.1
  · have hctl2 : (settle 2 s0).ctl = .sched .svcTail := congrArg Abs.ctl habs2
    have hctl3 : (settle 3 s0).ctl = .resume .svcTail := congrArg Abs.ctl h.sched.2
    exact ⟨Prod.ext (settle_snoc 2 s0 (by rw [hctl2]; simp)).symm h.sched.1,
      Prod.ext (settle_snoc 3 s0 (by rw [hctl3]; simp)).symm h.user.1⟩
  · have hcur2 : (settle 2 s0).k.current = (settle 1 s0).k.current := congrArg Abs.current habs2
    have hcur4 : (settle 4 s0).k.current = (settle 2 s0).k.current := congrArg Abs.current h.user.2
    exact ⟨congrArg Abs.ctl h.user.2, by rw [hcur4, hcur2]; exact congrArg Abs.current habs1⟩

theorem first_come_first_served {s : Sys cfg} {tr : List (Label cfg)}
    (hr : Lib.Run (StepWhere FifoHolds) (start cfg) tr s) :
    (∀ (A B : Tid cfg) (tr1 tr2 tr3 : List (Label cfg)) (la lb lc : Label cfg),
      tr = tr1 ++ [la] ++ (tr2 ++ [lb] ++ (tr3 ++ [lc])) → B ≠ A → .queued A ∈ la.obs →
      .queued B ∈ lb.obs →
      Completes B lc → s.k.state A ≠ TASK_DEAD → ∃ l ∈ tr2 ++ [lb] ++ tr3, Completes A l) ∧
    ∀ fifo, s.ctl = .user → fifo ≠ [] → (∃ t ∈ s.k.queue, s.k.state t = TASK_BLOCKED) →
      ∃ w s0, s.k.state w = TASK_BLOCKED ∧
        (∀ u, s.k.state u = TASK_BLOCKED → u ≠ w → SleptBefore tr w u) ∧
        ServesFirst s fifo w s0 := by
  have hreach : Lib.Run Step (start cfg) tr s := hr.mono fun _ _ _ hs => hs.1
  have hinv := reachable_inv ⟨tr, hreach⟩
  refine ⟨?_, ?_⟩
  · rintro A B tr1 tr2 tr3 la lb lc rfl hne hA hB hC halive
    exact served_in_order hne hr hA hB hC halive
  · rintro fifo hu hfifo ⟨t, -, ht⟩
    have hm := (mem_waiting hinv t).mpr ht
    obtain ⟨w, rest, hw⟩ := List.exists_cons_of_ne_nil (List.ne_nil_of_mem hm)
    have hhead : s.k.waiting.head? = some w := by rw [show s.k.waiting = _ from hw]; rfl
    obtain ⟨s0, h0⟩ := serves_first (reachable_rep ⟨tr, hreach⟩) hinv hu hfifo hhead
    refine ⟨w, s0, (mem_waiting hinv w).mp (by rw [hw]; simp), ?_, h0⟩
    exact fun u => waiting_ordered hreach hhead u

/-- Two readers sleep, and one byte comes. -/
def twoAsleep : Sys demo := drive 5 (start demo) [readEvent 1#32, readEvent 1#32]

theorem first_come_first_served_two :
    ∃ w s0, twoAsleep.k.state w = TASK_BLOCKED ∧ ServesFirst twoAsleep [0x41#8] w s0 := by
  obtain ⟨tr, hr⟩ := drive_run FifoHolds 5 (start demo) [readEvent 1#32, readEvent 1#32] (by decide)
  obtain ⟨w, s0, hw, -, h0⟩ := (first_come_first_served hr).2 [0x41#8] (by decide) (by simp)
    ⟨wrap 0, by decide, by decide⟩
  exact ⟨w, s0, hw, h0⟩

end CortexAOS
