import CortexAOS.Entry
import CortexAOS.Invariant

/-!
# The kernel stacks over whole runs

Every suspended thread has its frames on its own stack, and only the current thread's stack
changes.
-/

namespace CortexAOS

variable {cfg : Config}

/-! ## Layout -/

section

variable (h : Stacked cfg)

include h

theorem stackTop_lt (t : Tid cfg) : stackTop t < 2 ^ 32 := by
  have h1 := h.fits
  have h2 := t.isLt
  have h3 : (t.val + 1) * 8192 ≤ cfg.NUM_THREADS * 8192 := Nat.mul_le_mul_right 8192 h2
  unfold stackTop stackBase
  omega

theorem stackBase_aligned (t : Tid cfg) : stackBase t % 8 = 0 := by
  have h1 := h.aligned
  unfold stackBase
  omega

theorem kstack_top_toNat (t : Tid cfg) :
    ((thread_init cfg t).kstack_base + KSTACK_SIZE).toNat = stackTop t := by
  have h1 := stackTop_lt h t
  have hbase :
    (thread_init cfg t).kstack_base = cfg.thread_kstack + BitVec.ofNat 32 t.val * KSTACK_SIZE := rfl
  unfold stackTop stackBase at h1 ⊢
  have hmul : (BitVec.ofNat 32 t.val * KSTACK_SIZE).toNat = t.val * 8192 := by
    rw [Lib.Bits.toNat_ofNat_mul (by rw [KSTACK_SIZE_toNat]; omega), KSTACK_SIZE_toNat]
  rw [hbase, BitVec.toNat_add, BitVec.toNat_add, hmul, KSTACK_SIZE_toNat]
  omega

theorem InStack.inj {t u : Tid cfg} {j : Nat} (ht : InStack t j) (hu : InStack u j) : t = u := by
  have h1 := h.aligned
  unfold InStack stackTop stackBase at ht hu
  apply Fin.ext
  omega

end

/-! ## Pushing -/

namespace Core

section

variable {m : Core cfg} {n : Nat} {f : Nat → Word}

theorem push_sp (hn : 4 * n ≤ m.cpu.sp_svc.toNat) :
    (m.push n f).cpu.sp_svc.toNat = m.cpu.sp_svc.toNat - 4 * n := by
  have h1 := m.cpu.sp_svc.isLt
  show (m.cpu.sp_svc - BitVec.ofNat 32 (4 * n)).toNat = _
  rw [BitVec.toNat_sub, BitVec.toNat_ofNat]
  omega

theorem push_word {i : Nat} (hi : i < n) :
    (m.push n f).mem ((m.push n f).cpu.sp_svc.toNat / 4 + i) = f i := by
  unfold push
  dsimp only
  rw [if_pos ⟨by omega, by omega⟩, Nat.add_sub_cancel_left]

theorem push_out (hn : 4 * n ≤ m.cpu.sp_svc.toNat) {j : Nat}
    (hj : j < (m.cpu.sp_svc.toNat - 4 * n) / 4 ∨ m.cpu.sp_svc.toNat / 4 ≤ j) :
    (m.push n f).mem j = m.mem j := by
  have hsp : (m.cpu.sp_svc - BitVec.ofNat 32 (4 * n)).toNat = m.cpu.sp_svc.toNat - 4 * n :=
    push_sp (f := f) hn
  unfold push
  dsimp only
  rw [hsp, if_neg (by omega)]

end

end Core

/-! ## What a step leaves alone -/

/-- Neither the stack nor the saved registers of thread `u` differ. -/
structure Same (m m' : Core cfg) (u : Tid cfg) : Prop where
  mem : ∀ j, InStack u j → m'.mem j = m.mem j
  ctx : m'.ctx u = m.ctx u
  entrySp : m'.entrySp u = m.entrySp u
  site : m'.site u = m.site u

theorem Same.trans {m m' m'' : Core cfg} {u : Tid cfg} (h : Same m m' u) (h' : Same m' m'' u) :
    Same m m'' u :=
  ⟨fun j hj => (h'.mem j hj).trans (h.mem j hj), h'.ctx.trans h.ctx, h'.entrySp.trans h.entrySp,
    h'.site.trans h.site⟩

theorem CRuns.same {m m' : Core cfg} (hc : CRuns m m') {u : Tid cfg} (hu : u ≠ m.current) :
    Same m m' u :=
  ⟨fun j hj => hc.mem u j hj fun he => absurd he hu, by rw [hc.ctx], by rw [hc.entrySp], by rw [hc.site]⟩

theorem push_same (h : Stacked cfg) {m : Core cfg} {t u : Tid cfg} {n : Nat} {f : Nat → Word}
    (hne : u ≠ t)
    (hlo : stackBase t + 4 * n ≤ m.cpu.sp_svc.toNat) (hhi : m.cpu.sp_svc.toNat ≤ stackTop t) :
    Same m (m.push n f) u := by
  refine ⟨fun j hj => Core.push_out (by omega) ?_, rfl, rfl, rfl⟩
  have h1 := stackBase_aligned h t
  by_contra hcon
  exact hne (InStack.inj h hj ⟨by omega, by omega⟩)

/-! ## The invariant -/

/-- What the entry code has pushed under the handler. -/
def KPoint.frameBytes : KPoint → Nat
  | .firstEntry | .irqTail => 64
  | .svcTail | .readWait .. => 60
  | .faultTail => 0

def InHandler (m : Core cfg) (t : Tid cfg) (p : KPoint) : Prop :=
  (m.entrySp t).toNat + p.frameBytes = stackTop t

/-- The resume frame of a thread that was suspended in compiled code, and the frames above it. -/
structure SiteOk (m : Core cfg) (t : Tid cfg) : Prop where
  sp : (m.ctx t).sp_svc.toNat + 36 = (m.site t).sp.toNat
  low : stackBase t ≤ (m.ctx t).sp_svc.toNat
  high : (m.site t).sp.toNat ≤ (m.entrySp t).toNat
  aligned : (m.ctx t).sp_svc.toNat % 4 = 0
  saved : ∀ i < 9, m.mem ((m.ctx t).sp_svc.toNat / 4 + i) = Core.calleeSaved (m.site t).r (m.site t).lr i
  frames : ∀ j, (m.site t).sp.toNat / 4 ≤ j → j < (m.entrySp t).toNat / 4 → m.mem j = (m.site t).mem j

inductive Parked (m : Core cfg) (t : Tid cfg) : KPoint → Prop
  | first (hsp : (m.ctx t).sp_svc.toNat + 100 = stackTop t)
      (hlr : m.mem ((m.ctx t).sp_svc.toNat / 4 + 8) = cfg.ret_from_first_entry) : Parked m t .firstEntry
  | called {p : KPoint} (hp : p ≠ .firstEntry) (hin : InHandler m t p) (hsite : SiteOk m t) :
      Parked m t p

/-- SP is below the frame of the entry, with room for the resume frame. -/
structure SpOk (m : Core cfg) : Prop where
  aligned : m.cpu.sp_svc.toNat % 4 = 0
  room : stackBase m.current + 36 ≤ m.cpu.sp_svc.toNat
  below : m.cpu.sp_svc.toNat ≤ (m.entrySp m.current).toNat

def CurOk (m : Core cfg) : Ctl → Prop
  | .user => m.cpu.sp_svc.toNat = stackTop m.current
  | .sched p => p ≠ .firstEntry ∧ InHandler m m.current p ∧ SpOk m
  | .resume .firstEntry => m.cpu.sp_svc.toNat + 64 = stackTop m.current
  | .resume p => InHandler m m.current p
  | .halted => True

structure KInv (m : Core cfg) : Prop where
  reach : Reachable m.sys
  cur : CurOk m m.sys.ctl
  parked : ∀ t, t ≠ m.current → Parked m t (m.sys.kont t)

theorem KInv.cur_at {m : Core cfg} (hm : KInv m) {c : Ctl} (hc : m.sys.ctl = c) : CurOk m c := by
  rw [← hc]
  exact hm.cur

theorem Parked.same (h : Stacked cfg) {m m' : Core cfg} {t : Tid cfg} {p : KPoint} (hp : Parked m t p)
    (hs : Same m m' t) : Parked m' t p := by
  have h1 := stackBase_aligned h t
  cases hp with
  | first hsp hlr =>
    refine .first (by rw [hs.ctx]; exact hsp) ?_
    rw [hs.ctx, hs.mem _ ⟨by unfold stackTop at hsp; omega, by omega⟩]
    exact hlr
  | called hne hin hsite =>
    obtain ⟨s1, s2, s3, s4, s5, s6⟩ := hsite
    unfold InHandler at hin
    refine .called hne (by unfold InHandler; rw [hs.entrySp]; exact hin) ⟨?_, ?_, ?_, ?_, ?_, ?_⟩
    · rw [hs.ctx, hs.site]; exact s1
    · rw [hs.ctx]; exact s2
    · rw [hs.site, hs.entrySp]; exact s3
    · rw [hs.ctx]; exact s4
    · intro i hi
      rw [hs.ctx, hs.site, hs.mem _ ⟨by omega, by omega⟩]
      exact s5 i hi
    · intro j hlo hhi
      rw [hs.site] at hlo ⊢
      rw [hs.entrySp] at hhi
      rw [hs.mem _ ⟨by omega, by omega⟩]
      exact s6 j hlo hhi

/-! ## Entering -/

def Event.frameBytes : Event → Nat
  | .irq _ => 64
  | .svc .. => 60
  | .dataAbort .. | .prefetchAbort .. | .undefined .. => 0

theorem enter_ctl (s : Sys cfg) (e : Event) :
    ∃ p, (enter s e).1.ctl = .sched p ∧ p ≠ .firstEntry ∧ p.frameBytes = e.frameBytes := by
  cases e with
  | irq i => exact ⟨.irqTail, rfl, by simp, rfl⟩
  | svc ctx umem =>
    show ∃ p, svcCtl (syscall_dispatch s.k umem ctx).2.2 = .sched p ∧ _
    cases (syscall_dispatch s.k umem ctx).2.2 with
    | returns ret => exact ⟨.svcTail, rfl, by simp, rfl⟩
    | sleeps buf len => exact ⟨.readWait buf len, rfl, by simp, rfl⟩
  | dataAbort dfsr dfar ctx | prefetchAbort ifsr ifar ctx | undefined ctx =>
    refine ⟨.faultTail, ?_, by simp, rfl⟩
    simp only [enter, handle, handle_data_abort, handle_prefetch_abort, handle_undefined,
      handle_fault, ctx.property, if_true]

theorem enter_current {s : Sys cfg} (hr : Reachable s) (hu : s.ctl = .user) (e : Event) :
    (enter s e).1.k.current = s.k.current := by
  rcases (step_refines (reachable_rep hr) (.event e hu)).2.inv_switch with ⟨p, c, hc, -⟩ | ⟨hcur, -⟩
  · have hc' : s.ctl = .sched p := hc
    rw [hu] at hc'
    cases hc'
  · exact hcur

namespace Core

theorem dispatched_mem (m : Core cfg) (o : List (Obs cfg)) {j : Nat}
    (hj : j ≠ (m.entrySp m.current).toNat / 4 + 1) : (m.dispatched o).mem j = m.mem j := by
  unfold dispatched
  generalize m.mem = mem
  dsimp only
  induction o generalizing mem with
  | nil => rfl
  | cons x o ih =>
    rw [List.foldl_cons, ih]
    cases x with
    | sysret t ret => exact Function.update_of_ne hj _ _
    | printf | putc | accepted | rejected | load | store | queued | switched | readDone => rfl

theorem dispatched_snoc (m : Core cfg) (o : List (Obs cfg)) (t : Tid cfg) (ret : Word) :
    (m.dispatched (o ++ [.sysret t ret])).mem ((m.entrySp m.current).toNat / 4 + 1) = ret := by
  unfold dispatched
  simp

end Core

section

variable {m : Core cfg}

theorem dispatched_same (h : Stacked cfg) (o : List (Obs cfg))
    (hin : (m.entrySp m.current).toNat + 60 = stackTop m.current) {u : Tid cfg} (hu : u ≠ m.current) :
    Same m (m.dispatched o) u := by
  refine ⟨fun j hj => m.dispatched_mem o ?_, rfl, rfl, rfl⟩
  rintro rfl
  have h1 := stackBase_aligned h m.current
  have htop : stackTop m.current = stackBase m.current + 8192 := rfl
  exact hu (InStack.inj h hj ⟨by omega, by omega⟩)

theorem call_same {u : Tid cfg} (hu : u ≠ m.current) : Same m m.call u :=
  ⟨fun _ _ => rfl, rfl, Function.update_of_ne hu _ _, rfl⟩

theorem entry_irq_sp (hsp : m.cpu.sp_svc.toNat = stackTop m.current) :
    m.exception_entry_irq.cpu.sp_svc.toNat + 64 = stackTop m.current := by
  have htop : stackTop m.current = stackBase m.current + 8192 := rfl
  have h1 :=
    Core.push_sp (m := m) (n := 2) (f := fun i => if i = 0 then m.cpu.pc + 4#32 - 4#32 else m.cpu.cpsr)
    (by omega)
  unfold Core.exception_entry_irq
  dsimp only
  rw [Core.push_sp (by omega), h1]
  omega

theorem entry_svc_sp (hsp : m.cpu.sp_svc.toNat = stackTop m.current) :
    m.exception_entry_svc.cpu.sp_svc.toNat + 60 = stackTop m.current := by
  have htop : stackTop m.current = stackBase m.current + 8192 := rfl
  have h1 := Core.push_sp (m := m) (n := 14) (f := Core.gprs m.cpu.r m.cpu.pc) (by omega)
  unfold Core.exception_entry_svc
  dsimp only
  rw [Core.push_sp (by omega), h1]
  omega

theorem entry_irq_same (h : Stacked cfg) (hsp : m.cpu.sp_svc.toNat = stackTop m.current) {u : Tid cfg}
    (hu : u ≠ m.current) : Same m m.exception_entry_irq u := by
  have htop : stackTop m.current = stackBase m.current + 8192 := rfl
  have h1 :=
    Core.push_sp (m := m) (n := 2) (f := fun i => if i = 0 then m.cpu.pc + 4#32 - 4#32 else m.cpu.cpsr)
    (by omega)
  have h2 : Same m (m.push 2 fun i => if i = 0 then m.cpu.pc + 4#32 - 4#32 else m.cpu.cpsr) u :=
    push_same h hu (by omega) (by omega)
  exact h2.trans (push_same (n := 14) h hu (by rw [h1]; omega) (by rw [h1]; omega))

theorem entry_svc_same (h : Stacked cfg) (hsp : m.cpu.sp_svc.toNat = stackTop m.current) {u : Tid cfg}
    (hu : u ≠ m.current) : Same m m.exception_entry_svc u := by
  have htop : stackTop m.current = stackBase m.current + 8192 := rfl
  have h1 := Core.push_sp (m := m) (n := 14) (f := Core.gprs m.cpu.r m.cpu.pc) (by omega)
  have h2 : Same m (m.push 14 (Core.gprs m.cpu.r m.cpu.pc)) u := push_same h hu (by omega) (by omega)
  exact h2.trans
    (push_same (n := 1) (f := fun _ => m.cpu.cpsr) h hu (by rw [h1]; omega) (by rw [h1]; omega))

theorem entry_sys (o : List (Obs cfg)) (e : Event) : (m.entry o e).sys = m.sys := by
  cases e <;> rfl

theorem entry_inHandler (hsp : m.cpu.sp_svc.toNat = stackTop m.current) (o : List (Obs cfg))
    (e : Event) : ((m.entry o e).entrySp m.current).toNat + e.frameBytes = stackTop m.current := by
  have hcall : ∀ m' : Core cfg, m'.current = m.current → m'.call.entrySp m.current = m'.cpu.sp_svc := by
    intro m' hcur
    unfold Core.call
    rw [hcur]
    exact Function.update_self _ _ _
  cases e with
  | irq i => rw [← entry_irq_sp hsp, ← hcall m.exception_entry_irq rfl]; rfl
  | svc ctx umem => rw [← entry_svc_sp hsp, ← hcall m.exception_entry_svc rfl]; rfl
  | dataAbort | prefetchAbort | undefined => rw [← hsp, ← hcall m rfl]; rfl

theorem entry_same (h : Stacked cfg) (hsp : m.cpu.sp_svc.toNat = stackTop m.current)
    (o : List (Obs cfg)) (e : Event)
    {u : Tid cfg} (hu : u ≠ m.current) : Same m (m.entry o e) u := by
  cases e with
  | irq i => exact (entry_irq_same h hsp hu).trans (call_same hu)
  | svc ctx umem =>
    have hcall := (entry_svc_same h hsp hu).trans (call_same hu)
    refine hcall.trans (dispatched_same h o ?_ hu)
    exact entry_inHandler hsp [] (.svc ctx umem)
  | dataAbort | prefetchAbort | undefined => exact call_same hu

end

/-! ## One step -/

section

variable {m m' : Core cfg}

theorem crun_spOk (hc : CRuns m m') : SpOk m' := by
  have hcur : m'.current = m.current := by unfold Core.current; rw [hc.sys]
  refine ⟨hc.aligned, ?_, ?_⟩
  · rw [hcur]; exact hc.room
  · rw [hcur, hc.entrySp]; exact hc.below

theorem crun_sched (hc : CRuns m m') {p : KPoint} (hp : m.sys.ctl = .sched p) (hne : p ≠ .firstEntry)
    (hin : InHandler m m.current p) : CurOk m' m'.sys.ctl := by
  have hin' : InHandler m' m'.current p := by
    unfold InHandler Core.current
    rw [hc.sys, hc.entrySp]
    exact hin
  rw [hc.sys, hp]
  exact ⟨hne, hin', crun_spOk hc⟩

theorem event_same (h : Stacked cfg) (hm : KInv m) (e : Event) (hu : m.sys.ctl = .user)
    (hc : CRuns (({ m with sys := (enter m.sys e).1 } : Core cfg).entry (enter m.sys e).2 e) m')
    {u : Tid cfg} (hne : u ≠ m.current) : Same m m' u := by
  have hcur := enter_current hm.reach hu e
  have hsp : m.cpu.sp_svc.toNat = stackTop (enter m.sys e).1.k.current := by
    rw [hcur]; exact hm.cur_at hu
  have hne' : u ≠ (enter m.sys e).1.k.current := by rw [hcur]; exact hne
  have hentry := entry_same (m := { m with sys := (enter m.sys e).1 }) h hsp (enter m.sys e).2 e hne'
  have hrun := hc.same (u := u) (by unfold Core.current; rw [entry_sys]; exact hne')
  have hfirst : Same m { m with sys := (enter m.sys e).1 } u := ⟨fun _ _ => rfl, rfl, rfl, rfl⟩
  exact (hfirst.trans hentry).trans hrun

theorem event_cur (hm : KInv m) (e : Event) (hu : m.sys.ctl = .user)
    (hc : CRuns (({ m with sys := (enter m.sys e).1 } : Core cfg).entry (enter m.sys e).2 e) m') :
    CurOk m' m'.sys.ctl := by
  obtain ⟨p, hp, hne, hbytes⟩ := enter_ctl m.sys e
  have hsp : m.cpu.sp_svc.toNat = stackTop (enter m.sys e).1.k.current := by
    rw [enter_current hm.reach hu e]; exact hm.cur_at hu
  refine crun_sched hc (by rw [entry_sys]; exact hp) hne ?_
  unfold InHandler Core.current
  rw [entry_sys, hbytes]
  exact entry_inHandler (m := { m with sys := (enter m.sys e).1 }) hsp _ e

end

/-! ## Switching -/

theorem stay_sys {s : Sys cfg} (p : KPoint) (hs : (schedule s.k).2 = none) :
    (call_schedule s p).1.k.current = s.k.current ∧ (call_schedule s p).1.kont = s.kont ∧
      (call_schedule s p).1.ctl = .resume p := by
  unfold call_schedule
  rcases schedule_cases s.k with ⟨-, he⟩ | ⟨-, -, he⟩ | ⟨c, -, -, he⟩
  · rw [he]; exact ⟨rfl, rfl, rfl⟩
  · rw [he]; exact ⟨rfl, rfl, rfl⟩
  · rw [he] at hs; cases hs

theorem switch_sys {s : Sys cfg} (p : KPoint) {prev next : Tid cfg}
    (hs : (schedule s.k).2 = some (prev, next)) :
    prev = s.k.current ∧ next ≠ s.k.current ∧ (call_schedule s p).1.k.current = next ∧
      (call_schedule s p).1.kont = Function.update s.kont s.k.current p ∧
      (call_schedule s p).1.ctl = .resume (s.kont next) := by
  unfold call_schedule
  rcases schedule_cases s.k with ⟨-, he⟩ | ⟨-, -, he⟩ | ⟨c, -, hpick, he⟩
  · rw [he] at hs; cases hs
  · rw [he] at hs; cases hs
  · rw [he] at hs ⊢
    obtain ⟨hprev, hnext⟩ := Prod.mk.inj (Option.some.inj hs)
    subst hprev hnext
    exact ⟨rfl, (pick_some hpick).1, rfl, rfl, rfl⟩

section

variable {m : Core cfg}

theorem InHandler.le_top {t : Tid cfg} {p : KPoint} (hin : InHandler m t p) :
    (m.entrySp t).toNat ≤ stackTop t :=
  Nat.le_of_add_right_le (Nat.le_of_eq hin)

theorem save_same (h : Stacked cfg) {p : KPoint} (hin : InHandler m m.current p) (hsp : SpOk m)
    {u : Tid cfg} (hu : u ≠ m.current) : Same m (m.save_prev m.current) u := by
  have hle := hin.le_top
  have hpush := push_same (n := 9) (f := Core.calleeSaved m.cpu.r m.cpu.lr_svc) h hu hsp.room
    (Nat.le_trans hsp.below hle)
  exact ⟨hpush.mem, Function.update_of_ne hu _ _, rfl, Function.update_of_ne hu _ _⟩

theorem save_parked {p : KPoint} (hp : p ≠ .firstEntry) (hin : InHandler m m.current p) (hsp : SpOk m) :
    Parked (m.save_prev m.current) m.current p := by
  obtain ⟨h1, h2, h3⟩ := hsp
  have hpush := Core.push_sp (m := m) (n := 9) (f := Core.calleeSaved m.cpu.r m.cpu.lr_svc) (by omega)
  have hctx : ((m.save_prev m.current).ctx m.current).sp_svc =
      (m.push 9 (Core.calleeSaved m.cpu.r m.cpu.lr_svc)).cpu.sp_svc := by
    unfold Core.save_prev
    simp
  have hsite : (m.save_prev m.current).site m.current = ⟨m.cpu.r, m.cpu.lr_svc, m.cpu.sp_svc, m.mem⟩ :=
    Function.update_self _ _ _
  refine .called hp hin ⟨?_, ?_, ?_, ?_, ?_, ?_⟩
  · rw [hctx, hsite, hpush]; dsimp only; omega
  · rw [hctx, hpush]; omega
  · rw [hsite]; exact h3
  · rw [hctx, hpush]; omega
  · intro i hi
    rw [hctx, hsite]
    exact Core.push_word hi
  · intro j hlo _
    rw [hsite] at hlo ⊢
    exact Core.push_out (by omega) (Or.inr hlo)

theorem load_same (next u : Tid cfg) : Same m (m.load_next next) u := ⟨fun _ _ => rfl, rfl, rfl, rfl⟩

theorem load_sp {t : Tid cfg} (hlt : (m.ctx t).sp_svc.toNat + 36 < 2 ^ 32) :
    (m.load_next t).cpu.sp_svc.toNat = (m.ctx t).sp_svc.toNat + 36 := by
  show ((m.ctx t).sp_svc + 36#32).toNat = _
  rw [BitVec.toNat_add, BitVec.toNat_ofNat]
  omega

theorem load_returns (h : Stacked cfg) {t : Tid cfg} {p : KPoint} (hp : Parked m t p) :
    (m.load_next t).Returns t p := by
  have htop := stackTop_lt h t
  cases hp with
  | first hsp hlr => exact hlr
  | called hne hin hsite =>
    have hle := hin.le_top
    have h1 := hsite.sp
    have h2 := hsite.high
    have hret : (∀ i : Fin 13, 4 ≤ i.val → i.val ≤ 11 → (m.load_next t).cpu.r i = (m.site t).r i) ∧
        (m.load_next t).cpu.lr_svc = (m.site t).lr ∧ (m.load_next t).cpu.sp_svc = (m.site t).sp ∧
        ∀ j, (m.site t).sp.toNat / 4 ≤ j → j < (m.entrySp t).toNat / 4 → m.mem j = (m.site t).mem j := by
      refine ⟨?_, ?_, ?_, hsite.frames⟩
      · intro i hlo hhi
        have hi := hsite.saved (i.val - 4) (by omega)
        have hcs : Core.calleeSaved (m.site t).r (m.site t).lr (i.val - 4) = (m.site t).r i := by
          unfold Core.calleeSaved
          rw [dif_pos (by omega)]
          congr 1
          exact Fin.ext (by show i.val - 4 + 4 = i.val; omega)
        rw [← hcs, ← hi]
        exact if_pos ⟨hlo, hhi⟩
      · exact hsite.saved 8 (by omega)
      · apply BitVec.eq_of_toNat_eq
        rw [load_sp (by omega), h1]
    cases p with
    | firstEntry => exact absurd rfl hne
    | irqTail | svcTail | readWait | faultTail => exact hret

theorem load_cur (h : Stacked cfg) {t : Tid cfg} {p : KPoint} (hp : Parked m t p) :
    (p = .firstEntry → (m.load_next t).cpu.sp_svc.toNat + 64 = stackTop t) ∧
    (p ≠ .firstEntry → InHandler m t p) := by
  have htop := stackTop_lt h t
  cases hp with
  | first hsp hlr =>
    refine ⟨fun _ => ?_, fun hne => absurd rfl hne⟩
    rw [load_sp (by omega)]
    omega
  | called hne hin hsite => exact ⟨fun he => absurd he hne, fun _ => hin⟩

theorem saved_parked (h : Stacked cfg) (hm : KInv m) {p : KPoint} (hp : m.sys.ctl = .sched p)
    (t : Tid cfg) :
    Parked (m.save_prev m.current) t (Function.update m.sys.kont m.current p t) := by
  obtain ⟨hne, hin, hsp⟩ := hm.cur_at hp
  by_cases ht : t = m.current
  · subst ht
    rw [Function.update_self]
    exact save_parked hne hin hsp
  · rw [Function.update_of_ne ht]
    exact (hm.parked t ht).same h (save_same h hin hsp ht)

theorem switch_returns (h : Stacked cfg) (hm : KInv m) {p : KPoint} (hp : m.sys.ctl = .sched p)
    {prev next : Tid cfg} (hs : (schedule m.sys.k).2 = some (prev, next)) :
    (m.context_switch prev next).Returns next (m.sys.kont next) := by
  obtain ⟨rfl, hne, -⟩ := switch_sys p hs
  have hpark := saved_parked h hm hp next
  rw [Function.update_of_ne hne] at hpark
  exact load_returns h hpark

end

/-! ## Every step -/

section

variable {m m' : Core cfg}

theorem kernelStep_sched {s : Sys cfg} {p : KPoint} (hp : s.ctl = .sched p) :
    kernelStep s = call_schedule s p := by
  unfold kernelStep
  rw [hp]

theorem kernelStep_resume {s : Sys cfg} {p : KPoint} (hp : s.ctl = .resume p) :
    kernelStep s = return_to s p := by
  unfold kernelStep
  rw [hp]

/-- Under every step of the machine is one of the system, or an instruction in user mode. -/
theorem kstep_sys (h : Stacked cfg) (hm : KInv m) {l : KLabel cfg} (hs : KStep m l m') :
    (m.sys.ctl = .user ∧ l = ⟨some m.current, none, []⟩ ∧ m'.sys = m.sys) ∨
    Step m.sys ⟨l.ev, l.obs⟩ m'.sys := by
  have hkernel :
    m.sys.ctl ≠ .user → Step m.sys ⟨none, (kernelStep m.sys).2⟩ (kernelStep m.sys).1 := .kernel
  cases hs with
  | user hu => exact Or.inl ⟨hu, rfl, rfl⟩
  | event e hu he hc =>
    right
    rw [hc.sys, entry_sys]
    exact .event e hu
  | stay hp | switch hp =>
    rw [kernelStep_sched hp] at hkernel
    exact Or.inr (hkernel (by rw [hp]; simp))
  | wild hp hsch hr => exact absurd (switch_returns h hm hp hsch) hr
  | exitFirst hp | exitIrq hp | exitSvc hp =>
    rw [kernelStep_resume hp] at hkernel
    exact Or.inr (hkernel (by rw [hp]; simp))
  | read hp hc =>
    right
    rw [hc.sys]
    rw [kernelStep_resume hp] at hkernel
    exact hkernel (by rw [hp]; simp)
  | stop hp => exact Or.inr (hkernel (by rcases hp with hp | hp <;> rw [hp] <;> simp))

theorem kstep_reach (h : Stacked cfg) (hm : KInv m) {l : KLabel cfg} (hs : KStep m l m') :
    Reachable m'.sys := by
  rcases kstep_sys h hm hs with ⟨-, -, he⟩ | hstep
  · rw [he]; exact hm.reach
  · exact hm.reach.step hstep

theorem kstep_kont (h : Stacked cfg) (hm : KInv m) {l : KLabel cfg} (hs : KStep m l m') {u : Tid cfg}
    (hu : u ≠ m.current) : m'.sys.kont u = m.sys.kont u := by
  rcases kstep_sys h hm hs with ⟨-, -, he⟩ | hstep
  · rw [he]
  · rcases (step_refines (reachable_rep hm.reach) hstep).2.inv_switch with ⟨p, c, -, -, he⟩ | ⟨-, hk⟩
    · have hkont : m'.sys.kont = Function.update m.sys.kont m.current p := congrArg Abs.kont he
      rw [hkont, Function.update_of_ne hu]
    · exact congrFun hk u

theorem return_current {s : Sys cfg} (hr : Reachable s) {p : KPoint} (hp : s.ctl = .resume p) :
    (return_to s p).1.k.current = s.k.current := by
  have hstep : Step s ⟨none, (kernelStep s).2⟩ (kernelStep s).1 := .kernel (by rw [hp]; simp)
  rw [← kernelStep_resume hp]
  rcases (step_refines (reachable_rep hr) hstep).2.inv_switch with ⟨p', c, hc, -⟩ | ⟨hcur, -⟩
  · have hc' : s.ctl = .sched p' := hc
    rw [hp] at hc'
    cases hc'
  · exact hcur

theorem stop_sys {s : Sys cfg} (hp : s.ctl = .resume .faultTail ∨ s.ctl = .halted) :
    (kernelStep s).1.ctl = .halted ∧ (kernelStep s).1.k = s.k := by
  rcases hp with hp | hp
  · rw [kernelStep_resume hp]; exact ⟨rfl, rfl⟩
  · unfold kernelStep
    rw [hp]
    exact ⟨hp, rfl⟩

theorem read_ctl (s : Sys cfg) (buf len : Word) :
    ∃ p, (return_to s (.readWait buf len)).1.ctl = .sched p ∧
    p ≠ .firstEntry ∧ p.frameBytes = 60 := by
  show ∃ p, svcCtl (finish s.k.current (sys_read_loop s.k buf len)).2.2 = .sched p ∧ _
  cases (finish s.k.current (sys_read_loop s.k buf len)).2.2 with
  | returns ret => exact ⟨.svcTail, rfl, by simp, rfl⟩
  | sleeps buf len => exact ⟨.readWait buf len, rfl, by simp, rfl⟩

section

variable {buf len : Word} (hp : m.sys.ctl = .resume (.readWait buf len))
  (hc : CRuns (({ m with sys := (return_to m.sys (.readWait buf len)).1 } : Core cfg).dispatched
    (return_to m.sys (.readWait buf len)).2) m')

include hp hc

theorem read_same (h : Stacked cfg) (hm : KInv m) {u : Tid cfg} (hu : u ≠ m.current) : Same m m' u := by
  have hin : (m.entrySp m.current).toNat + 60 = stackTop m.current := hm.cur_at hp
  have hcur := return_current hm.reach hp
  have hu' : u ≠ (return_to m.sys (.readWait buf len)).1.k.current := by rw [hcur]; exact hu
  have hfirst : Same m { m with sys := (return_to m.sys (.readWait buf len)).1 } u :=
    ⟨fun _ _ => rfl, rfl, rfl, rfl⟩
  refine (hfirst.trans (dispatched_same h _ ?_ hu')).trans (hc.same hu')
  unfold Core.current
  dsimp only
  rw [hcur]
  exact hin

theorem read_cur (hm : KInv m) : CurOk m' m'.sys.ctl := by
  obtain ⟨p, hctl, hne, hbytes⟩ := read_ctl m.sys buf len
  refine crun_sched hc hctl hne ?_
  unfold InHandler Core.current
  rw [hbytes]
  show (m.entrySp (return_to m.sys (.readWait buf len)).1.k.current).toNat + 60 =
    stackTop (return_to m.sys (.readWait buf len)).1.k.current
  rw [return_current hm.reach hp]
  exact hm.cur_at hp

end

theorem switch_same (h : Stacked cfg) (hm : KInv m) {p : KPoint} (hp : m.sys.ctl = .sched p)
    {prev next : Tid cfg}
    (hs : (schedule m.sys.k).2 = some (prev, next)) {u : Tid cfg} (hu : u ≠ m.current) :
    Same m { m.context_switch prev next with sys := (call_schedule m.sys p).1 } u := by
  obtain ⟨-, hin, hsp⟩ := hm.cur_at hp
  obtain ⟨rfl, -⟩ := switch_sys p hs
  have hsave := (save_same h hin hsp hu).trans (load_same next u)
  exact ⟨hsave.mem, hsave.ctx, hsave.entrySp, hsave.site⟩

theorem kstep_same (h : Stacked cfg) (hm : KInv m) {l : KLabel cfg} (hs : KStep m l m') {u : Tid cfg}
    (hu : u ≠ m.current) : Same m m' u := by
  cases hs with
  | user | stay | exitFirst | stop => exact ⟨fun _ _ => rfl, rfl, rfl, rfl⟩
  | event e hctl he hc => exact event_same h hm e hctl hc hu
  | switch hp hsch hr => exact switch_same h hm hp hsch hu
  | wild hp hsch hr => exact absurd (switch_returns h hm hp hsch) hr
  | exitIrq hp hc | exitSvc hp hc =>
    have hrun := hc.same hu
    exact ⟨hrun.mem, hrun.ctx, hrun.entrySp, hrun.site⟩
  | read hp hc => exact read_same hp hc h hm hu

theorem crun_atEntry (hc : CRuns m m') : m'.atEntry.cpu.sp_svc = m.entrySp m.current := by
  unfold Core.atEntry Core.current
  dsimp only
  rw [hc.entrySp, hc.sys]

theorem exit_sp (h : Stacked cfg) {t : Tid cfg} {n : Nat} {sp : Word}
    (hsp : sp.toNat + n = stackTop t) (hn : n ≤ 64) :
    (sp + BitVec.ofNat 32 n).toNat = stackTop t := by
  have htop := stackTop_lt h t
  rw [BitVec.toNat_add, BitVec.toNat_ofNat]
  omega

theorem switch_inv (h : Stacked cfg) (hm : KInv m) {p : KPoint} (hp : m.sys.ctl = .sched p)
    {prev next : Tid cfg}
    (hs : (schedule m.sys.k).2 = some (prev, next)) (hr : Reachable (call_schedule m.sys p).1) :
    KInv { m.context_switch prev next with sys := (call_schedule m.sys p).1 } := by
  obtain ⟨rfl, hne, hcur, hkont, hctl⟩ := switch_sys p hs
  have hpark := saved_parked h hm hp
  refine ⟨hr, ?_, fun t ht => ?_⟩
  · obtain ⟨hfirst, hrest⟩ := load_cur h (hpark next)
    rw [Function.update_of_ne hne] at hfirst hrest
    show CurOk _ (call_schedule m.sys p).1.ctl
    rw [hctl]
    cases hk : m.sys.kont next with
    | firstEntry =>
      show _ = stackTop (call_schedule m.sys p).1.k.current
      rw [hcur]
      exact hfirst hk
    | irqTail | svcTail | readWait | faultTail =>
      rw [hk] at hrest
      show InHandler _ (call_schedule m.sys p).1.k.current _
      rw [hcur]
      exact hrest (by simp)
  · show Parked _ t ((call_schedule m.sys p).1.kont t)
    rw [hkont]
    exact (hpark t).same h ⟨fun _ _ => rfl, rfl, rfl, rfl⟩

theorem KInv.of_cur (h : Stacked cfg) (hm : KInv m) {l : KLabel cfg} (hs : KStep m l m')
    (hcur : m'.current = m.current) (hok : CurOk m' m'.sys.ctl) : KInv m' := by
  refine ⟨kstep_reach h hm hs, hok, fun t ht => ?_⟩
  rw [hcur] at ht
  rw [kstep_kont h hm hs ht]
  exact (hm.parked t ht).same h (kstep_same h hm hs ht)

theorem kstep_current (h : Stacked cfg) (hm : KInv m) {l : KLabel cfg} (hs : KStep m l m') :
    m'.current = m.current ∨
    ∃ p prev next, m.sys.ctl = .sched p ∧ (schedule m.sys.k).2 = some (prev, next) ∧
      m' = { m.context_switch prev next with sys := (call_schedule m.sys p).1 } := by
  cases hs with
  | user | exitFirst | exitIrq | exitSvc => exact Or.inl rfl
  | event e hu he hc =>
    left
    unfold Core.current
    rw [hc.sys, entry_sys]
    exact enter_current hm.reach hu e
  | stay hp hsch => exact Or.inl (stay_sys _ hsch).1
  | switch hp hsch hr => exact Or.inr ⟨_, _, _, hp, hsch, rfl⟩
  | wild hp hsch hr => exact absurd (switch_returns h hm hp hsch) hr
  | read hp hc =>
    left
    unfold Core.current
    rw [hc.sys]
    exact return_current hm.reach hp
  | stop hp => exact Or.inl (congrArg Kernel.current (stop_sys hp).2)

theorem stay_cur (hm : KInv m) {p : KPoint} (hp : m.sys.ctl = .sched p)
    (hs : (schedule m.sys.k).2 = none) :
    CurOk { m with sys := (call_schedule m.sys p).1 } (call_schedule m.sys p).1.ctl := by
  obtain ⟨hcur, -, hctl⟩ := stay_sys p hs
  obtain ⟨hne, hin, -⟩ := hm.cur_at hp
  rw [hctl]
  cases p with
  | firstEntry => exact absurd rfl hne
  | irqTail | svcTail | readWait | faultTail =>
    show InHandler _ (call_schedule m.sys _).1.k.current _
    rw [hcur]
    exact hin

theorem kstep_inv (h : Stacked cfg) (hm : KInv m) {l : KLabel cfg} (hs : KStep m l m') : KInv m' := by
  have hr := kstep_reach h hm hs
  rcases kstep_current h hm hs with hcur | ⟨p, prev, next, hp, hsch, rfl⟩
  swap
  · exact switch_inv h hm hp hsch hr
  refine hm.of_cur h hs hcur ?_
  cases hs with
  | user hu hsp hlr hmode =>
    show CurOk _ m.sys.ctl
    rw [hu]
    show _ = _
    rw [hsp]
    exact hm.cur_at hu
  | event e hu he hc => exact event_cur hm e hu hc
  | stay hp hsch => exact stay_cur hm hp hsch
  | switch hp hsch hret => exact (switch_inv h hm hp hsch hr).cur
  | wild hp hsch hr => exact absurd (switch_returns h hm hp hsch) hr
  | exitFirst hp => exact exit_sp h (hm.cur_at hp) (by omega)
  | exitIrq hp hc => exact exit_sp h (by rw [crun_atEntry hc]; exact hm.cur_at hp) (by omega)
  | exitSvc hp hc => exact exit_sp h (by rw [crun_atEntry hc]; exact hm.cur_at hp) (by omega)
  | read hp hc => exact read_cur hp hc hm
  | stop hp =>
    show CurOk _ (kernelStep m.sys).1.ctl
    rw [(stop_sys hp).1]
    trivial

end

/-! ## Whole runs -/

theorem initialSp_toNat (h : Stacked cfg) (t : Tid cfg) : (initialSp t).toNat + 100 = stackTop t := by
  have h1 := kstack_top_toNat h t
  have h2 := stackTop_lt h t
  have htop : stackTop t = stackBase t + 8192 := rfl
  unfold initialSp
  rw [BitVec.toNat_sub, h1, BitVec.toNat_ofNat]
  omega

theorem initial_lr (h : Stacked cfg) (l : List (Tid cfg)) (m : Mem) (t : Tid cfg)
    (ht : t ∈ l ∨ m ((initialSp t).toNat / 4 + 8) = cfg.ret_from_first_entry) :
    (l.foldl thread_build_initial_frame m) ((initialSp t).toNat / 4 + 8) = cfg.ret_from_first_entry := by
  induction l generalizing m with
  | nil => exact ht.resolve_left (by simp)
  | cons u l ih =>
    apply ih
    by_cases hl : t ∈ l
    · exact Or.inl hl
    · right
      unfold thread_build_initial_frame
      by_cases hu : t = u
      · subst hu
        rw [if_pos ⟨by omega, by omega⟩, Nat.add_sub_cancel_left]
        rfl
      · have h1 := initialSp_toNat h t
        have h2 := initialSp_toNat h u
        have h3 := stackBase_aligned h t
        have h4 := stackBase_aligned h u
        have htop : stackTop t = stackBase t + 8192 := rfl
        have htop' : stackTop u = stackBase u + 8192 := rfl
        rw [if_neg]
        · exact ht.resolve_left fun hm => (List.mem_cons.mp hm).elim hu hl
        · rintro ⟨hlo, hhi⟩
          exact hu
            (InStack.inj h (j := (initialSp t).toNat / 4 + 8) ⟨by omega, by omega⟩ ⟨by omega, by omega⟩)

theorem bootCore_inv (h : Stacked cfg) (m : Mem) (c : Cpu) (site : CallSite) :
    KInv (bootCore cfg m c site) := by
  have hpark : ∀ t : Tid cfg, Parked
      { sys := start cfg
        cpu := c
        mem := (List.finRange cfg.NUM_THREADS).foldl thread_build_initial_frame m
        ctx := fun t => ⟨initialSp t, (thread_init cfg t).user_stack_top, 0#32⟩
        entrySp := fun _ => 0#32
        site := fun _ => site } t .firstEntry :=
    fun t => .first (initialSp_toNat h t) (initial_lr h _ m t (Or.inl (List.mem_finRange t)))
  refine ⟨⟨[], .refl⟩, (load_cur h (hpark Kernel.first)).1 rfl, fun t _ => ?_⟩
  exact (hpark t).same h ⟨fun _ _ => rfl, rfl, rfl, rfl⟩

theorem krun_inv (h : Stacked cfg) {m m' : Core cfg} {tr : List (KLabel cfg)}
    (hr : Lib.Run KStep m tr m') (hm : KInv m) :
    KInv m' := hr.invariant (fun _ _ _ hm hs => kstep_inv h hm hs) hm

/-! ## The machine follows the system -/

section

variable {m : Core cfg}

theorem crun_return (h : Stacked cfg) {p : KPoint} (hin : InHandler m m.current p) :
    CRuns m m.atEntry := by
  have h1 := stackBase_aligned h m.current
  have htop : stackTop m.current = stackBase m.current + 8192 := rfl
  have hbytes : p.frameBytes ≤ 64 ∧ p.frameBytes % 4 = 0 := by cases p <;> simp [KPoint.frameBytes]
  have hsp : m.atEntry.cpu.sp_svc = m.entrySp m.current := rfl
  unfold InHandler at hin
  refine ⟨rfl, rfl, rfl, rfl, rfl, rfl, ?_, ?_, ?_, fun _ _ _ _ => rfl⟩
  · rw [hsp]; omega
  · rw [hsp]; omega
  · rw [hsp]

theorem event_follows (h : Stacked cfg) (hm : KInv m) {e : Event} (hu : m.sys.ctl = .user)
    (he : e.From m.cpu) :
    ∃ m', KStep m ⟨some m.current, some e, (enter m.sys e).2⟩ m' ∧ m'.sys = (enter m.sys e).1 := by
  obtain ⟨p, hp, -, hbytes⟩ := enter_ctl m.sys e
  have hsp : m.cpu.sp_svc.toNat = stackTop (enter m.sys e).1.k.current := by
    rw [enter_current hm.reach hu e]; exact hm.cur_at hu
  have hin := entry_inHandler (m := { m with sys := (enter m.sys e).1 }) hsp (enter m.sys e).2 e
  rw [← hbytes] at hin
  have hrun :=
    crun_return (m := Core.entry { m with sys := (enter m.sys e).1 } (enter m.sys e).2 e) (p := p) h
    (by unfold Core.current; rw [entry_sys]; exact hin)
  exact ⟨_, .event e hu he hrun, entry_sys _ _⟩

theorem kernel_follows (h : Stacked cfg) (hm : KInv m) (hu : m.sys.ctl ≠ .user) :
    ∃ m', KStep m ⟨none, none, (kernelStep m.sys).2⟩ m' ∧ m'.sys = (kernelStep m.sys).1 := by
  cases hc : m.sys.ctl with
  | user => exact absurd hc hu
  | halted => exact ⟨_, .stop (Or.inr hc), rfl⟩
  | sched p =>
    rw [kernelStep_sched hc]
    cases hs : (schedule m.sys.k).2 with
    | none => exact ⟨_, .stay hc hs, rfl⟩
    | some pair => exact ⟨_, .switch hc hs (switch_returns h hm hc hs), rfl⟩
  | resume p =>
    have hok := hm.cur_at hc
    cases p with
    | firstEntry =>
      rw [kernelStep_resume hc]
      exact ⟨_, .exitFirst hc, rfl⟩
    | irqTail =>
      rw [kernelStep_resume hc]
      exact ⟨_, .exitIrq hc (crun_return h hok), rfl⟩
    | svcTail =>
      rw [kernelStep_resume hc]
      exact ⟨_, .exitSvc hc (crun_return h hok), rfl⟩
    | readWait buf len =>
      have hin : InHandler (Core.dispatched { m with sys := (return_to m.sys (.readWait buf len)).1 }
          (return_to m.sys (.readWait buf len)).2)
            (return_to m.sys (.readWait buf len)).1.k.current .svcTail := by
        rw [return_current hm.reach hc]
        exact hok
      rw [kernelStep_resume hc]
      exact ⟨_, .read hc (crun_return h hin), rfl⟩
    | faultTail => exact ⟨_, .stop (Or.inl hc), rfl⟩

theorem settle_follows (h : Stacked cfg) (n : Nat) (hm : KInv m) :
    ∃ tr m', Lib.Run KStep m tr m' ∧ m'.sys = settle n m.sys ∧ ∀ x ∈ tr, x.actor = none := by
  induction n generalizing m with
  | zero => exact ⟨[], m, .refl, rfl, by simp⟩
  | succ n ih =>
    by_cases hu : m.sys.ctl = .user
    · exact ⟨[], m, .refl, by rw [settle, if_pos hu], by simp⟩
    · obtain ⟨m₁, hs, hsys⟩ := kernel_follows h hm hu
      obtain ⟨tr, m', hr, hsys', hl⟩ := ih (kstep_inv h hm hs)
      refine ⟨_, m', .cons hs hr, ?_, List.forall_mem_cons.mpr ⟨rfl, hl⟩⟩
      rw [hsys', hsys, settle_succ n m.sys hu]

end

end CortexAOS
