import CortexAOS.Stacks

/-!
# What a thread finds when it is back in user mode

The registers of its entry, but for the result of its own system call, whatever ran in between.
-/

namespace CortexAOS

variable {cfg : Config}

/-! ## Results of system calls -/

/-- The results that `syscall_dispatch` stored for thread `t`. -/
def sysrets (t : Tid cfg) (o : List (Obs cfg)) : List Word :=
  o.filterMap fun x =>
    match x with
    | .sysret u ret => if u = t then some ret else none
    | _ => none

theorem sysrets_append (t : Tid cfg) (o o' : List (Obs cfg)) :
    sysrets t (o ++ o') = sysrets t o ++ sysrets t o' :=
  List.filterMap_append

theorem sysrets_none {o : List (Obs cfg)} (h : ∀ u ret, .sysret u ret ∉ o) (t : Tid cfg) :
    sysrets t o = [] := by
  unfold sysrets
  rw [List.filterMap_eq_nil_iff]
  intro x hx
  cases x with
  | sysret u ret => exact absurd hx (h u ret)
  | printf | putc | accepted | rejected | load | store | queued | switched | readDone => rfl

namespace Core

theorem dispatched_none (m : Core cfg) {o : List (Obs cfg)} (h : ∀ u ret, .sysret u ret ∉ o) :
    (m.dispatched o).mem = m.mem := by
  unfold dispatched
  generalize m.mem = mem
  dsimp only
  induction o generalizing mem with
  | nil => rfl
  | cons x o ih =>
    have ih' := ih fun u ret hm => h u ret (List.mem_cons_of_mem _ hm)
    cases x with
    | sysret u ret => exact absurd (List.mem_cons_self ..) (h u ret)
    | printf | putc | accepted | rejected | load | store | queued | switched | readDone => exact ih' mem

end Core

/-! ## Saved registers -/

/-- The frame of an entry holds the registers `r`, the return address and the CPSR of user mode. -/
def SavedAt (m : Core cfg) (t : Tid cfg) (r : Fin 13 → Word) (pc cpsr : Word) : KPoint → Prop
  | .irqTail =>
    (∀ i : Fin 13, m.mem ((m.entrySp t).toNat / 4 + i.val) = r i) ∧
      m.mem ((m.entrySp t).toNat / 4 + 14) = pc ∧ m.mem ((m.entrySp t).toNat / 4 + 15) = cpsr
  | .svcTail | .readWait .. =>
    (∀ i : Fin 13, m.mem ((m.entrySp t).toNat / 4 + (i.val + 1)) = r i) ∧
      m.mem ((m.entrySp t).toNat / 4 + 14) = pc ∧ m.mem ((m.entrySp t).toNat / 4) = cpsr
  | .firstEntry | .faultTail => False

theorem SavedAt.frame (h : Stacked cfg) {m m' : Core cfg} {t : Tid cfg} {r : Fin 13 → Word}
    {pc cpsr : Word} {p : KPoint}
    (hsave : SavedAt m t r pc cpsr p) (hin : InHandler m t p) (he : m'.entrySp t = m.entrySp t)
    (hmem : ∀ j, InStack t j → (m.entrySp t).toNat / 4 ≤ j → m'.mem j = m.mem j) :
    SavedAt m' t r pc cpsr p := by
  have h1 := stackBase_aligned h t
  have htop : stackTop t = stackBase t + 8192 := rfl
  have hword : ∀ i, 4 * i < p.frameBytes →
      m'.mem ((m.entrySp t).toNat / 4 + i) = m.mem ((m.entrySp t).toNat / 4 + i) := by
    intro i hi
    have hle : p.frameBytes ≤ 64 := by cases p <;> simp [KPoint.frameBytes]
    unfold InHandler at hin
    exact hmem _ ⟨by omega, by omega⟩ (by omega)
  cases p with
  | firstEntry | faultTail => exact hsave
  | irqTail =>
    obtain ⟨hr, hpc, hcpsr⟩ := hsave
    simp only [KPoint.frameBytes] at hword
    refine ⟨fun i => ?_, ?_, ?_⟩
    · rw [he, hword i.val (by omega)]; exact hr i
    · rw [he, hword 14 (by omega)]; exact hpc
    · rw [he, hword 15 (by omega)]; exact hcpsr
  | svcTail | readWait =>
    obtain ⟨hr, hpc, hcpsr⟩ := hsave
    simp only [KPoint.frameBytes] at hword
    refine ⟨fun i => ?_, ?_, ?_⟩
    · rw [he, hword (i.val + 1) (by omega)]; exact hr i
    · rw [he, hword 14 (by omega)]; exact hpc
    · rw [he]; exact (hword 0 (by omega)).trans hcpsr

theorem SavedAt.same (h : Stacked cfg) {m m' : Core cfg} {t : Tid cfg} {r : Fin 13 → Word}
    {pc cpsr : Word} {p : KPoint}
    (hsave : SavedAt m t r pc cpsr p) (hin : InHandler m t p) (hs : Same m m' t) :
    SavedAt m' t r pc cpsr p :=
  hsave.frame h hin hs.entrySp fun j hj _ => hs.mem j hj

theorem SavedAt.crun (h : Stacked cfg) {m m' : Core cfg} {r : Fin 13 → Word} {pc cpsr : Word}
    {p : KPoint}
    (hsave : SavedAt m m.current r pc cpsr p) (hin : InHandler m m.current p) (hc : CRuns m m') :
    SavedAt m' m.current r pc cpsr p :=
  hsave.frame h hin (by rw [hc.entrySp]) fun j hj hge => hc.mem _ j hj fun _ => hge

/-! ## Entering -/

section

variable {m : Core cfg} (h : Stacked cfg) (hsp : m.cpu.sp_svc.toNat = stackTop m.current)

include h hsp

theorem entry_irq_saved :
    SavedAt m.exception_entry_irq.call m.current m.cpu.r m.cpu.pc m.cpu.cpsr .irqTail := by
  have h1 := stackBase_aligned h m.current
  have htop : stackTop m.current = stackBase m.current + 8192 := rfl
  let low := m.push 2 fun i => if i = 0 then m.cpu.pc + 4#32 - 4#32 else m.cpu.cpsr
  have hlow : low.cpu.sp_svc.toNat = m.cpu.sp_svc.toNat - 4 * 2 := Core.push_sp (by omega)
  have hsp2 := entry_irq_sp hsp
  have hentry : m.exception_entry_irq.call.entrySp m.current = m.exception_entry_irq.cpu.sp_svc :=
    Function.update_self _ _ _
  have hgpr : ∀ i < 14, m.exception_entry_irq.mem (m.exception_entry_irq.cpu.sp_svc.toNat / 4 + i) =
      Core.gprs m.cpu.r m.cpu.lr_svc i := fun i hi => Core.push_word (m := low) hi
  -- What `srsdb` stored lies above the general registers.
  have hsrs :
      ∀ i < 2, m.exception_entry_irq.mem (m.exception_entry_irq.cpu.sp_svc.toNat / 4 + (14 + i)) =
      if i = 0 then m.cpu.pc + 4#32 - 4#32 else m.cpu.cpsr := by
    intro i hi
    have hidx :
      m.exception_entry_irq.cpu.sp_svc.toNat / 4 + (14 + i) = low.cpu.sp_svc.toNat / 4 + i := by omega
    rw [hidx]
    refine (Core.push_out (m := low) (n := 14) (by omega) (Or.inr (by omega))).trans ?_
    exact Core.push_word hi
  refine ⟨fun i => ?_, ?_, ?_⟩
  · rw [hentry]
    exact (hgpr i.val (by omega)).trans (dif_pos i.isLt)
  · rw [hentry]
    refine (hsrs 0 (by omega)).trans ?_
    rw [if_pos rfl, BitVec.add_sub_cancel]
  · rw [hentry]
    exact hsrs 1 (by omega)

theorem entry_svc_saved (p : KPoint) (hp : p = .svcTail ∨ ∃ buf len, p = .readWait buf len) :
    SavedAt m.exception_entry_svc.call m.current m.cpu.r m.cpu.pc m.cpu.cpsr p := by
  have h1 := stackBase_aligned h m.current
  have htop : stackTop m.current = stackBase m.current + 8192 := rfl
  let low := m.push 14 (Core.gprs m.cpu.r m.cpu.pc)
  have hlow : low.cpu.sp_svc.toNat = m.cpu.sp_svc.toNat - 4 * 14 := Core.push_sp (by omega)
  have hsp2 := entry_svc_sp hsp
  have hentry : m.exception_entry_svc.call.entrySp m.current = m.exception_entry_svc.cpu.sp_svc :=
    Function.update_self _ _ _
  have hspsr : m.exception_entry_svc.mem (m.exception_entry_svc.cpu.sp_svc.toNat / 4 + 0) = m.cpu.cpsr :=
    Core.push_word (m := low) (f := fun _ => m.cpu.cpsr) (Nat.zero_lt_one)
  have hgpr :
      ∀ i < 14, m.exception_entry_svc.mem (m.exception_entry_svc.cpu.sp_svc.toNat / 4 + (i + 1)) =
      Core.gprs m.cpu.r m.cpu.pc i := by
    intro i hi
    have hidx :
      m.exception_entry_svc.cpu.sp_svc.toNat / 4 + (i + 1) = low.cpu.sp_svc.toNat / 4 + i := by omega
    rw [hidx]
    have hout :=
      Core.push_out (m := low) (n := 1) (f := fun _ => m.cpu.cpsr) (j := low.cpu.sp_svc.toNat / 4 + i)
      (by omega) (Or.inr (by omega))
    exact hout.trans (Core.push_word hi)
  have hsaved : (∀ i : Fin 13,
      m.exception_entry_svc.mem (m.exception_entry_svc.cpu.sp_svc.toNat / 4 + (i.val + 1)) =
        m.cpu.r i) ∧
      m.exception_entry_svc.mem (m.exception_entry_svc.cpu.sp_svc.toNat / 4 + 14) = m.cpu.pc ∧
      m.exception_entry_svc.mem (m.exception_entry_svc.cpu.sp_svc.toNat / 4) = m.cpu.cpsr :=
    ⟨fun i => (hgpr i.val (by omega)).trans (dif_pos i.isLt), hgpr 13 (by omega), hspsr⟩
  rw [← hentry] at hsaved
  rcases hp with rfl | ⟨buf, len, rfl⟩
  · exact hsaved
  · exact hsaved

end

/-! ## Dispatching -/

/-- How far the kernel has come with an entry: the results stored so far, and the `r0..r12` that its
return will load. -/
inductive Progress (r : Fin 13 → Word) : Bool → KPoint → List Word → (Fin 13 → Word) → Prop
  | irq : Progress r false .irqTail [] r
  | reading {buf len : Word} : Progress r true (.readWait buf len) [] r
  | served {ret : Word} : Progress r true .svcTail [ret] (Function.update r 0 ret)

theorem dispatched_served {m : Core cfg} {o : List (Obs cfg)} {t : Tid cfg} {ret : Word}
    {r : Fin 13 → Word} {pc cpsr : Word} (hs : SavedAt m m.current r pc cpsr .svcTail) :
    SavedAt (m.dispatched (o ++ [.sysret t ret])) m.current
      (Function.update r 0 ret) pc cpsr .svcTail := by
  obtain ⟨hr, hpc, hcpsr⟩ := hs
  have hother :
      ∀ i, i ≠ 1 → (m.dispatched (o ++ [.sysret t ret])).mem ((m.entrySp m.current).toNat / 4 + i) =
      m.mem ((m.entrySp m.current).toNat / 4 + i) := fun i hi => m.dispatched_mem _ (by omega)
  refine ⟨fun i => ?_, (hother 14 (by omega)).trans hpc, (hother 0 (by omega)).trans hcpsr⟩
  by_cases hi : i = 0
  · subst hi
    rw [Function.update_self]
    exact m.dispatched_snoc o t ret
  · have hne : i.val + 1 ≠ 1 := fun he => hi (Fin.ext (by omega))
    rw [Function.update_of_ne hi]
    exact (hother _ hne).trans (hr i)

theorem dispatched_saved {s s' : Sys cfg} {l : Label cfg} (hstep : AStep s.abs l s'.abs) {m : Core cfg}
    (hcur : s.k.current = m.current) {p : KPoint} (hctl : s'.ctl = .sched p)
    (hp : p = .svcTail ∨ ∃ buf len, p = .readWait buf len) {r : Fin 13 → Word} {pc cpsr : Word}
    (hs : SavedAt m m.current r pc cpsr .svcTail) :
    ∃ r', SavedAt (m.dispatched l.obs) m.current r' pc cpsr p ∧
      Progress r true p (sysrets m.current l.obs) r' := by
  have habs : s'.abs.ctl = .sched p := hctl
  rcases hstep.inv_sysret with ⟨hc, o, ret, hobs, hno⟩ | ⟨hc, hno⟩
  · rw [habs] at hc
    cases hc
    have hret : sysrets m.current l.obs = [ret] := by
      have hcur' : s.abs.current = m.current := hcur
      rw [hobs, sysrets_append, sysrets_none hno, hcur']
      simp [sysrets]
    rw [hret, hobs]
    exact ⟨_, dispatched_served hs, .served⟩
  · rcases hp with rfl | ⟨buf, len, rfl⟩
    · exact absurd habs hc
    · rw [sysrets_none hno]
      refine ⟨r, ?_, .reading⟩
      obtain ⟨hr, hpc, hcpsr⟩ := hs
      have hmem := m.dispatched_none hno
      refine ⟨fun i => ?_, ?_, ?_⟩
      · rw [hmem]; exact hr i
      · rw [hmem]; exact hpc
      · rw [hmem]; exact hcpsr

theorem svcCtl_cases (o : Outcome) :
    ∃ p, svcCtl o = .sched p ∧ (p = .svcTail ∨ ∃ buf len, p = .readWait buf len) := by
  cases o with
  | returns ret => exact ⟨.svcTail, rfl, Or.inl rfl⟩
  | sleeps buf len => exact ⟨.readWait buf len, rfl, Or.inr ⟨buf, len, rfl⟩⟩

/-! ## Away from user mode -/

/-- Thread `t` is in the kernel since an entry with the registers `u`, and goes on with `p`. -/
inductive Away (m : Core cfg) (t : Tid cfg) (u : Cpu) (p : KPoint) (r : Fin 13 → Word) : Prop
  | here (hcur : m.current = t) (hctl : m.sys.ctl = .sched p ∨ m.sys.ctl = .resume p)
      (hsave : SavedAt m t r u.pc u.cpsr p) (hsp : m.cpu.sp_usr = u.sp_usr)
        (hlr : m.cpu.lr_usr = u.lr_usr)
  | suspended (hcur : m.current ≠ t) (hk : m.sys.kont t = p) (hsave : SavedAt m t r u.pc u.cpsr p)
      (hsp : (m.ctx t).sp_usr = u.sp_usr) (hlr : (m.ctx t).lr_usr = u.lr_usr)

/-- Thread `t` is back with the registers `r`, and otherwise those of `u`. -/
structure Returned (m : Core cfg) (t : Tid cfg) (u : Cpu) (r : Fin 13 → Word) : Prop where
  current : m.current = t
  ctl : m.sys.ctl = .user
  r : m.cpu.r = r
  sp_usr : m.cpu.sp_usr = u.sp_usr
  lr_usr : m.cpu.lr_usr = u.lr_usr
  pc : m.cpu.pc = u.pc
  cpsr : m.cpu.cpsr = u.cpsr

theorem crun_away (h : Stacked cfg) {m m' : Core cfg} (hc : CRuns m m') {p : KPoint}
    (hctl : m.sys.ctl = .sched p) (hin : InHandler m m.current p) {u : Cpu} {r : Fin 13 → Word}
    (hs : SavedAt m m.current r u.pc u.cpsr p)
    (hsp : m.cpu.sp_usr = u.sp_usr) (hlr : m.cpu.lr_usr = u.lr_usr) : Away m' m.current u p r := by
  refine .here ?_ (Or.inl ?_) (hs.crun h hin hc) (hc.sp_usr.trans hsp) (hc.lr_usr.trans hlr)
  · unfold Core.current; rw [hc.sys]
  · rw [hc.sys]; exact hctl

section

variable {m m' : Core cfg}

theorem irq_away (h : Stacked cfg) (hm : KInv m) {i : Irq} (hu : m.sys.ctl = .user)
    (hc : CRuns (({ m with sys := (enter m.sys (.irq i)).1 } : Core cfg).entry
      (enter m.sys (.irq i)).2 (.irq i)) m') :
    Away m' m.current m.cpu .irqTail m.cpu.r ∧
      Progress m.cpu.r false .irqTail (sysrets m.current (enter m.sys (.irq i)).2) m.cpu.r := by
  have hcur := enter_current hm.reach hu (.irq i)
  have hsp : m.cpu.sp_svc.toNat = stackTop (enter m.sys (.irq i)).1.k.current := by
    rw [hcur]; exact hm.cur_at hu
  constructor
  · have hin :=
      entry_inHandler (m := { m with sys := (enter m.sys (.irq i)).1 }) hsp
        (enter m.sys (.irq i)).2 (.irq i)
    have hsaved := entry_irq_saved (m := { m with sys := (enter m.sys (.irq i)).1 }) h hsp
    have haway := crun_away h (u := m.cpu) hc rfl hin hsaved rfl rfl
    rw [show Core.current _ = m.current from hcur] at haway
    exact haway
  · have hno : sysrets m.current (enter m.sys (.irq i)).2 = [] := by
      rcases (step_refines (reachable_rep hm.reach) (.event (.irq i) hu)).2.inv_sysret with
        ⟨hctl, -⟩ | ⟨-, hno⟩
      · cases hctl
      · exact sysrets_none hno _
    rw [hno]
    exact .irq

theorem svc_away (h : Stacked cfg) (hm : KInv m) {ctx : UserContext} {umem : Word → Byte}
    (hu : m.sys.ctl = .user)
    (hc : CRuns (({ m with sys := (enter m.sys (.svc ctx umem)).1 } : Core cfg).entry
      (enter m.sys (.svc ctx umem)).2 (.svc ctx umem)) m') :
    ∃ p r, Away m' m.current m.cpu p r ∧
      Progress m.cpu.r true p (sysrets m.current (enter m.sys (.svc ctx umem)).2) r := by
  have hcur := enter_current hm.reach hu (.svc ctx umem)
  have hsp : m.cpu.sp_svc.toNat = stackTop (enter m.sys (.svc ctx umem)).1.k.current := by
    rw [hcur]; exact hm.cur_at hu
  obtain ⟨p, hctl, hp⟩ : ∃ p, (enter m.sys (.svc ctx umem)).1.ctl = .sched p ∧
      (p = .svcTail ∨ ∃ buf len, p = .readWait buf len) := svcCtl_cases _
  have hsaved :=
    entry_svc_saved (m := { m with sys := (enter m.sys (.svc ctx umem)).1 }) h hsp .svcTail (Or.inl rfl)
  obtain ⟨r, hsaved', hprog⟩ := dispatched_saved
    (step_refines (reachable_rep hm.reach) (.event (.svc ctx umem) hu)).2
    (m := Core.call (Core.exception_entry_svc { m with sys := (enter m.sys (.svc ctx umem)).1 }))
      hcur.symm hctl hp hsaved
  refine ⟨p, r, ?_, ?_⟩
  · have hin := entry_inHandler (m := { m with sys := (enter m.sys (.svc ctx umem)).1 }) hsp
      (enter m.sys (.svc ctx umem)).2 (.svc ctx umem)
    have hin' : InHandler (Core.entry { m with sys := (enter m.sys (.svc ctx umem)).1 }
        (enter m.sys (.svc ctx umem)).2 (.svc ctx umem))
          (enter m.sys (.svc ctx umem)).1.k.current p := by
      rcases hp with rfl | ⟨buf, len, rfl⟩
      · exact hin
      · exact hin
    have haway := crun_away h (u := m.cpu) hc hctl hin' hsaved' rfl rfl
    rw [show Core.current _ = m.current from hcur] at haway
    exact haway
  · rw [show Core.current _ = m.current from hcur] at hprog
    exact hprog

theorem Away.inHandler {t : Tid cfg} {u : Cpu} {p : KPoint} {r : Fin 13 → Word} (hm : KInv m)
    (ha : Away m t u p r) : InHandler m t p := by
  have hne : p ≠ .firstEntry := by
    rintro rfl
    cases ha with
    | here _ _ hsave => exact hsave
    | suspended _ _ hsave => exact hsave
  cases ha with
  | here hcur hctl hsave =>
    subst hcur
    rcases hctl with hctl | hctl
    · exact (hm.cur_at hctl).2.1
    · have hok := hm.cur_at hctl
      cases p with
      | firstEntry => exact absurd rfl hne
      | irqTail | svcTail | readWait | faultTail => exact hok
  | suspended hcur hk hsave =>
    have hpark := hm.parked t (Ne.symm hcur)
    rw [hk] at hpark
    cases hpark with
    | first => exact absurd rfl hne
    | called _ hin => exact hin

theorem kstep_sysrets (h : Stacked cfg) (hm : KInv m) {l : KLabel cfg} (hs : KStep m l m') {t : Tid cfg}
    (ht : m.current ≠ t ∨ m'.sys.ctl ≠ .sched .svcTail) : sysrets t l.obs = [] := by
  rcases kstep_sys h hm hs with ⟨-, rfl, -⟩ | hstep
  · rfl
  · rcases (step_refines (reachable_rep hm.reach) hstep).2.inv_sysret with
      ⟨hctl, o, ret, hobs, hno⟩ | ⟨-, hno⟩
    · have hne : m.current ≠ t := ht.resolve_right fun hne => hne hctl
      have hobs' : l.obs = o ++ [.sysret m.current ret] := hobs
      rw [hobs', sysrets_append, sysrets_none hno]
      simp [sysrets, hne]
    · exact sysrets_none hno t

theorem suspended_step (h : Stacked cfg) (hm : KInv m) {l : KLabel cfg} (hs : KStep m l m')
    {t : Tid cfg} {u : Cpu}
    {p : KPoint} {r : Fin 13 → Word} (hcur : m.current ≠ t) (ha : Away m t u p r) : Away m' t u p r := by
  have hin := ha.inHandler hm
  have hsame := kstep_same h hm hs (Ne.symm hcur)
  have hkont := kstep_kont h hm hs (Ne.symm hcur)
  cases ha with
  | here hcur' => exact absurd hcur' hcur
  | suspended _ hk hsave hsp hlr =>
    have hsave' := hsave.same h hin hsame
    rcases kstep_current h hm hs with hc | ⟨q, prev, next, hp, hsch, rfl⟩
    · exact .suspended (by rw [hc]; exact hcur) (hkont.trans hk) hsave' (by rw [hsame.ctx]; exact hsp)
        (by rw [hsame.ctx]; exact hlr)
    · obtain ⟨rfl, -, hnext, -, hctl⟩ := switch_sys q hsch
      by_cases ht : next = t
      · subst ht
        have hctx : (m.save_prev m.current).ctx next = m.ctx next :=
          Function.update_of_ne (Ne.symm hcur) _ _
        refine .here hnext (Or.inr (hctl.trans (by rw [hk]))) hsave' ?_ ?_
        · exact (congrArg cpu_context_t.sp_usr hctx).trans hsp
        · exact (congrArg cpu_context_t.lr_usr hctx).trans hlr
      · refine .suspended ?_ (hkont.trans hk) hsave' (by rw [hsame.ctx]; exact hsp)
          (by rw [hsame.ctx]; exact hlr)
        show (call_schedule m.sys q).1.k.current ≠ t
        rw [hnext]
        exact ht

theorem saved_prev (h : Stacked cfg) {p : KPoint} {r : Fin 13 → Word} {pc cpsr : Word}
    (hin : InHandler m m.current p) (hsp : SpOk m) (hsave : SavedAt m m.current r pc cpsr p) :
    SavedAt (m.save_prev m.current) m.current r pc cpsr p := by
  refine hsave.frame h hin rfl fun j _ hj => ?_
  have h1 := hsp.room
  have h2 := hsp.below
  exact Core.push_out (by omega) (Or.inr (by omega))

theorem exitIrq_returned (h : Stacked cfg) {m₁ : Core cfg} {u : Cpu} {r : Fin 13 → Word}
    (hin : InHandler m m.current .irqTail)
    (hsave : SavedAt m m.current r u.pc u.cpsr .irqTail) (hsp : m.cpu.sp_usr = u.sp_usr)
    (hlr : m.cpu.lr_usr = u.lr_usr) (hc : CRuns m m₁) :
    Returned { m₁.atEntry.irq_exit with sys := (return_to m.sys .irqTail).1 } m.current u r := by
  obtain ⟨hr, hpc, hcpsr⟩ := hsave.crun h hin hc
  have hentry : m₁.atEntry.cpu.sp_svc = m₁.entrySp m.current := by rw [crun_atEntry hc, hc.entrySp]
  refine ⟨rfl, rfl, ?_, hc.sp_usr.trans hsp, hc.lr_usr.trans hlr, ?_, ?_⟩
  · funext i
    show m₁.mem (m₁.atEntry.cpu.sp_svc.toNat / 4 + i.val) = r i
    rw [hentry]
    exact hr i
  · show m₁.mem (m₁.atEntry.cpu.sp_svc.toNat / 4 + 14) = u.pc
    rw [hentry]
    exact hpc
  · show m₁.mem (m₁.atEntry.cpu.sp_svc.toNat / 4 + 15) = u.cpsr
    rw [hentry]
    exact hcpsr

theorem exitSvc_returned (h : Stacked cfg) {m₁ : Core cfg} {u : Cpu} {r : Fin 13 → Word}
    (hin : InHandler m m.current .svcTail)
    (hsave : SavedAt m m.current r u.pc u.cpsr .svcTail) (hsp : m.cpu.sp_usr = u.sp_usr)
    (hlr : m.cpu.lr_usr = u.lr_usr) (hc : CRuns m m₁) :
    Returned { m₁.atEntry.svc_exit with sys := (return_to m.sys .svcTail).1 } m.current u r := by
  obtain ⟨hr, hpc, hcpsr⟩ := hsave.crun h hin hc
  have hentry : m₁.atEntry.cpu.sp_svc = m₁.entrySp m.current := by rw [crun_atEntry hc, hc.entrySp]
  refine ⟨rfl, rfl, ?_, hc.sp_usr.trans hsp, hc.lr_usr.trans hlr, ?_, ?_⟩
  · funext i
    show m₁.mem (m₁.atEntry.cpu.sp_svc.toNat / 4 + (i.val + 1)) = r i
    rw [hentry]
    exact hr i
  · show m₁.mem (m₁.atEntry.cpu.sp_svc.toNat / 4 + 14) = u.pc
    rw [hentry]
    exact hpc
  · show m₁.mem (m₁.atEntry.cpu.sp_svc.toNat / 4 + 0) = u.cpsr
    rw [hentry]
    exact hcpsr

theorem read_away (h : Stacked cfg) (hm : KInv m) {buf len : Word}
    (hp : m.sys.ctl = .resume (.readWait buf len))
    (hc : CRuns (({ m with sys := (return_to m.sys (.readWait buf len)).1 } : Core cfg).dispatched
      (return_to m.sys (.readWait buf len)).2) m') {u : Cpu}
    (hsave : SavedAt m m.current u.r u.pc u.cpsr (.readWait buf len)) (hsp : m.cpu.sp_usr = u.sp_usr)
    (hlr : m.cpu.lr_usr = u.lr_usr) : ∃ p r, Away m' m.current u p r ∧
      Progress u.r true p (sysrets m.current (return_to m.sys (.readWait buf len)).2) r := by
  have hcur := return_current hm.reach hp
  obtain ⟨p, hctl, hkind⟩ : ∃ p, (return_to m.sys (.readWait buf len)).1.ctl = .sched p ∧
      (p = .svcTail ∨ ∃ buf len, p = .readWait buf len) := svcCtl_cases _
  have hstep : Step m.sys ⟨none, (kernelStep m.sys).2⟩ (kernelStep m.sys).1 := .kernel (by rw [hp]; simp)
  rw [kernelStep_resume hp] at hstep
  have hsave' : SavedAt { m with sys := (return_to m.sys (.readWait buf len)).1 }
      (return_to m.sys (.readWait buf len)).1.k.current u.r u.pc u.cpsr .svcTail := by
    rw [hcur]
    exact hsave
  obtain ⟨r, hdone, hprog⟩ := dispatched_saved (step_refines (reachable_rep hm.reach) hstep).2
    (m := { m with sys := (return_to m.sys (.readWait buf len)).1 }) hcur.symm hctl hkind hsave'
  have hin : InHandler { m with sys := (return_to m.sys (.readWait buf len)).1 }
      (return_to m.sys (.readWait buf len)).1.k.current p := by
    rw [hcur]
    rcases hkind with rfl | ⟨buf', len', rfl⟩
    · exact hm.cur_at hp
    · exact hm.cur_at hp
  have haway := crun_away h (u := u) hc hctl hin hdone hsp hlr
  rw [show Core.current _ = m.current from hcur] at haway hprog
  exact ⟨p, r, haway, hprog⟩

theorem point_eq {c : Ctl} {p q : KPoint} (hp : c = .sched p ∨ c = .resume p)
    (hq : c = .sched q ∨ c = .resume q) : p = q := by
  rcases hp with rfl | rfl
  · rcases hq with hq | hq <;> cases hq; rfl
  · rcases hq with hq | hq <;> cases hq; rfl

theorem here_step (h : Stacked cfg) (hm : KInv m) {l : KLabel cfg} (hs : KStep m l m') {u : Cpu}
    {p : KPoint} {r : Fin 13 → Word} {svc : Bool} {rets : List Word} (ha : Away m m.current u p r)
    (hprog : Progress u.r svc p rets r) :
    (∃ p' r', Away m' m.current u p' r' ∧ Progress u.r svc p' (rets ++ sysrets m.current l.obs) r') ∨
      (Returned m' m.current u r ∧ sysrets m.current l.obs = [] ∧ (p = .irqTail ∨ p = .svcTail)) := by
  have hin := ha.inHandler hm
  have hquiet := fun hctl => kstep_sysrets h hm hs (t := m.current) (Or.inr hctl)
  cases ha with
  | suspended hcur => exact absurd rfl hcur
  | here _ hctl hsave hsp hlr =>
    cases hs with
    | user hu => rcases hctl with hctl | hctl <;> rw [hu] at hctl <;> cases hctl
    | event e hu => rcases hctl with hctl | hctl <;> rw [hu] at hctl <;> cases hctl
    | @stay q hp hsch =>
      obtain rfl := point_eq (Or.inl hp) hctl
      obtain ⟨hcur, -, hctl'⟩ := stay_sys q hsch
      have hnone := hquiet (by show (call_schedule m.sys q).1.ctl ≠ _; rw [hctl']; simp)
      refine Or.inl ⟨q, r, .here hcur (Or.inr hctl') hsave hsp hlr, ?_⟩
      rw [hnone, List.append_nil]
      exact hprog
    | @switch q prev next hp hsch hret =>
      obtain rfl := point_eq (Or.inl hp) hctl
      obtain ⟨rfl, hne, hnext, hkont, hctl'⟩ := switch_sys q hsch
      have hnone := hquiet (by show (call_schedule m.sys q).1.ctl ≠ _; rw [hctl']; simp)
      have hctx : (m.save_prev m.current).ctx m.current = ⟨_, m.cpu.sp_usr, m.cpu.lr_usr⟩ :=
        Function.update_self _ _ _
      refine Or.inl ⟨q, r, .suspended ?_ ?_ (saved_prev h hin (hm.cur_at hp).2.2 hsave) ?_ ?_, ?_⟩
      · show (call_schedule m.sys q).1.k.current ≠ m.current
        rw [hnext]
        exact hne
      · show (call_schedule m.sys q).1.kont m.current = q
        rw [hkont, Function.update_self]
      · exact (congrArg cpu_context_t.sp_usr hctx).trans hsp
      · exact (congrArg cpu_context_t.lr_usr hctx).trans hlr
      · rw [hnone, List.append_nil]
        exact hprog
    | wild hp hsch hr => exact absurd (switch_returns h hm hp hsch) hr
    | exitFirst hp =>
      obtain rfl := point_eq hctl (Or.inr hp)
      exact hsave.elim
    | exitIrq hp hc =>
      obtain rfl := point_eq hctl (Or.inr hp)
      exact Or.inr ⟨exitIrq_returned h hin hsave hsp hlr hc, rfl, Or.inl rfl⟩
    | exitSvc hp hc =>
      obtain rfl := point_eq hctl (Or.inr hp)
      exact Or.inr ⟨exitSvc_returned h hin hsave hsp hlr hc, rfl, Or.inr rfl⟩
    | @read _ buf len hp hc =>
      obtain rfl := point_eq hctl (Or.inr hp)
      cases hprog with
      | reading => exact Or.inl (read_away h hm hp hc hsave hsp hlr)
    | stop hp =>
      rcases hp with hp | hp
      · obtain rfl := point_eq hctl (Or.inr hp)
        exact hsave.elim
      · rcases hctl with hctl | hctl <;> rw [hp] at hctl <;> cases hctl

theorem user_actor {l : KLabel cfg} (hu : m.sys.ctl = .user) (hs : KStep m l m') :
    l.actor = some m.current := by
  cases hs with
  | user | event => rfl
  | stay hp | switch hp | wild hp | exitFirst hp | exitIrq hp | exitSvc hp | read hp =>
      rw [hu] at hp; cases hp
  | stop hp => rcases hp with hp | hp <;> rw [hu] at hp <;> cases hp

/-! ## Whole runs -/

/-- On its way through the kernel, or back and not yet running. -/
def Underway (m : Core cfg) (t : Tid cfg) (u : Cpu) (svc : Bool) (rets : List Word) : Prop :=
  ∃ p r, Progress u.r svc p rets r ∧
    (Away m t u p r ∨ (Returned m t u r ∧ (p = .irqTail ∨ p = .svcTail)))

theorem underway_step (h : Stacked cfg) (hm : KInv m) {l : KLabel cfg} (hs : KStep m l m')
    {t : Tid cfg} {u : Cpu}
    {svc : Bool} {rets : List Word} (hw : Underway m t u svc rets) (hl : l.actor ≠ some t) :
    Underway m' t u svc (rets ++ sysrets t l.obs) := by
  obtain ⟨p, r, hprog, ha | ⟨hret, -⟩⟩ := hw
  · by_cases hcur : m.current = t
    · subst hcur
      rcases here_step h hm hs ha hprog with ⟨p', r', ha', hprog'⟩ | ⟨hret, hnone, hp⟩
      · exact ⟨p', r', hprog', Or.inl ha'⟩
      · rw [hnone, List.append_nil]
        exact ⟨p, r, hprog, Or.inr ⟨hret, hp⟩⟩
    · rw [kstep_sysrets h hm hs (Or.inl hcur), List.append_nil]
      exact ⟨p, r, hprog, Or.inl (suspended_step h hm hs hcur ha)⟩
  · have hactor := user_actor hret.ctl hs
    rw [hret.current] at hactor
    exact absurd hactor hl

theorem underway_run (h : Stacked cfg) {tr : List (KLabel cfg)} (hr : Lib.Run KStep m tr m')
    (hm : KInv m) {t : Tid cfg}
    {u : Cpu} {svc : Bool} {rets : List Word} (hw : Underway m t u svc rets)
    (hl : ∀ x ∈ tr, x.actor ≠ some t) :
    Underway m' t u svc (rets ++ sysrets t (tr.flatMap KLabel.obs)) := by
  induction hr with
  | refl => simpa [sysrets] using hw
  | snoc hr hs ih =>
    have hprev := ih fun x hx => hl x (List.mem_append_left _ hx)
    have hnext := underway_step h (krun_inv h hr hm) hs hprev (hl _ (by simp))
    rw [List.flatMap_append, sysrets_append, ← List.append_assoc]
    simpa using hnext

theorem entry_underway (h : Stacked cfg) (hm : KInv m) {l : KLabel cfg} (hs : KStep m l m') {e : Event}
    (he : l.ev = some e) (hf : e.isFault = false) :
    ∃ svc, (svc = true ↔ ∃ ctx umem, e = .svc ctx umem) ∧
      Underway m' m.current m.cpu svc (sysrets m.current l.obs) := by
  cases hs with
  | event e' hu hfrom hc =>
    cases he
    cases e with
    | irq i =>
      obtain ⟨ha, hprog⟩ := irq_away h hm hu hc
      exact ⟨false, by simp, _, _, hprog, Or.inl ha⟩
    | svc ctx umem =>
      obtain ⟨p, r, ha, hprog⟩ := svc_away h hm hu hc
      exact ⟨true, by simp, p, r, hprog, Or.inl ha⟩
    | dataAbort | prefetchAbort | undefined => cases hf
  | wild hp hsch hr => exact absurd (switch_returns h hm hp hsch) hr
  | user | stay | switch | exitFirst | exitIrq | exitSvc | read | stop => cases he

/-- `m` enters the kernel by an IRQ or an `svc`, and `m'` is its thread's next state in user mode. -/
theorem kernel_entry_transparent (h : Stacked cfg) (mem : Mem) (c : Cpu) (site : CallSite)
    {tr tr' : List (KLabel cfg)}
    {m₁ : Core cfg} {l : KLabel cfg} {e : Event} (hr : Lib.Run KStep (bootCore cfg mem c site) tr m)
    (hs : KStep m l m₁)
    (he : l.ev = some e) (hf : e.isFault = false) (hr' : Lib.Run KStep m₁ tr' m')
    (hl : ∀ x ∈ tr', x.actor ≠ some m.current) (hcur : m'.current = m.current)
    (hu : m'.sys.ctl = .user) :
    m'.cpu.sp_usr = m.cpu.sp_usr ∧ m'.cpu.lr_usr = m.cpu.lr_usr ∧ m'.cpu.pc = m.cpu.pc ∧
    m'.cpu.cpsr = m.cpu.cpsr ∧
    m'.cpu.sp_svc =
      (m'.sys.k.threads m'.current).kstack_base + (m'.sys.k.threads m'.current).kstack_size ∧
    ((∃ i, e = .irq i) → m'.cpu.r = m.cpu.r) ∧
    ((∃ ctx umem, e = .svc ctx umem) →
      ∃ ret, sysrets m.current (l.obs ++ tr'.flatMap KLabel.obs) = [ret] ∧
      m'.cpu.r = Function.update m.cpu.r 0 ret) := by
  have hm := krun_inv h hr (bootCore_inv h mem c site)
  have hm₁ := kstep_inv h hm hs
  have hm' := krun_inv h hr' hm₁
  obtain ⟨svc, hsvc, hw⟩ := entry_underway h hm hs he hf
  obtain ⟨p, r, hprog, ha | ⟨hret, hp⟩⟩ := underway_run h hr' hm₁ hw hl
  · -- A thread in the kernel is either not current or not in user mode.
    cases ha with
    | here _ hctl => rcases hctl with hctl | hctl <;> rw [hu] at hctl <;> cases hctl
    | suspended hne => exact absurd hcur hne
  · have htab := (reachable_rep hm'.reach).tables
    rw [sysrets_append]
    generalize sysrets m.current l.obs ++ sysrets m.current (tr'.flatMap KLabel.obs) = rets at hprog ⊢
    refine ⟨hret.sp_usr, hret.lr_usr, hret.pc, hret.cpsr, ?_, ?_, ?_⟩
    · rw [htab.kstack_base, htab.kstack_size]
      apply BitVec.eq_of_toNat_eq
      rw [kstack_top_toNat h]
      exact hm'.cur_at hu
    · rintro ⟨i, rfl⟩
      rw [hret.r]
      cases hprog with
      | irq => rfl
      | reading | served =>
        obtain ⟨ctx, umem, hev⟩ := hsvc.mp rfl
        cases hev
    · intro hev
      obtain rfl := hsvc.mpr hev
      rw [hret.r]
      cases hprog with
      | reading => rcases hp with hp | hp <;> cases hp
      | served => exact ⟨_, rfl, rfl⟩

end

theorem demo_stacked : Stacked demo := ⟨by decide, by decide⟩

/-- Registers at `sys_read(0, 0x40001000, 16)`. -/
def readCpu (c : Cpu) : Cpu :=
  { c with
    r := (svcContext SYS_READ 0 0x40001000#32 16).val.r
    pc := 0#32
    cpsr := 0x10#32 }

theorem kernel_entry_transparent_read :
    Stacked demo ∧ ∃ (m m' : Core demo), m.sys.ctl = .user ∧ m'.sys.ctl = .user ∧
    m'.current = m.current ∧ m'.cpu.sp_usr = m.cpu.sp_usr ∧ m'.cpu.lr_usr = m.cpu.lr_usr ∧
    m'.cpu.pc = m.cpu.pc ∧ m'.cpu.cpsr = m.cpu.cpsr ∧
    m'.cpu.sp_svc =
      (m'.sys.k.threads m'.current).kstack_base + (m'.sys.k.threads m'.current).kstack_size ∧
    ∃ ret, m'.cpu.r = Function.update m.cpu.r 0 ret := by
  let e := svcEvent SYS_READ 0 0x40001000#32 16
  have h := demo_stacked
  have h0 := bootCore_inv h (fun _ => 0) ⟨fun _ => 0, 0, 0, 0, 0, 0, 0⟩ ⟨fun _ => 0, 0, 0, fun _ => 0⟩
  obtain ⟨tr, m₀, hr, hsys₀, -⟩ := settle_follows h 3 h0
  have hs₀ : m₀.sys = settle 3 (start demo) := hsys₀
  have hu₀ : m₀.sys.ctl = .user := by rw [hs₀]; decide
  have hrun := hr.snoc (.user (c := readCpu m₀.cpu) hu₀ rfl rfl (by simp [readCpu]))
  have hm := krun_inv h hrun h0
  obtain ⟨m₁, hs, hsys₁⟩ := event_follows h hm (e := e) hu₀ ⟨rfl, rfl, rfl⟩
  have hs₁ : m₁.sys = (enter (settle 3 (start demo)) e).1 := by rw [hsys₁, ← hs₀]
  obtain ⟨tr₁, m₂, hr₁, hsys₂, hl₁⟩ := settle_follows h 3 (kstep_inv h hm hs)
  have hs₂ : m₂.sys = settle 3 (enter (settle 3 (start demo)) e).1 := by rw [hsys₂, hs₁]
  have hm₂ := krun_inv h hr₁ (kstep_inv h hm hs)
  obtain ⟨m₃, hirq, hsys₃⟩ :=
    event_follows h hm₂ (e := .irq (.uart [0x61#8])) (by rw [hs₂]; decide) trivial
  have hs₃ :
      m₃.sys = (enter (settle 3 (enter (settle 3 (start demo)) e).1) (.irq (.uart [0x61#8]))).1 := by
    rw [hsys₃, hs₂]
  obtain ⟨tr₂, m', hr₂, hsys', hl₂⟩ := settle_follows h 6 (kstep_inv h hm₂ hirq)
  have hs' :
      m'.sys =
        settle 6 (enter (settle 3 (enter (settle 3 (start demo)) e).1) (.irq (.uart [0x61#8]))).1 := by
    rw [hsys', hs₃]
  have hcur₀ : m₀.current = Kernel.first := by unfold Core.current; rw [hs₀]; decide
  have hcur' : m'.current = Kernel.first := by unfold Core.current; rw [hs']; decide
  have hcur₂ : m₂.current ≠ Kernel.first := by unfold Core.current; rw [hs₂]; decide
  have hu' : m'.sys.ctl = .user := by rw [hs']; decide
  obtain ⟨h1, h2, h3, h4, h5, -, h7⟩ := kernel_entry_transparent h _ _ _ hrun hs rfl rfl
      ((hr₁.snoc hirq).trans hr₂) (by
    intro x hx
    show x.actor ≠ some m₀.current
    rw [hcur₀]
    rcases List.mem_append.mp hx with hx | hx
    · rcases List.mem_append.mp hx with hx | hx
      · rw [hl₁ x hx]; simp
      · rw [List.mem_singleton.mp hx]
        exact fun he => hcur₂ (Option.some.inj he)
    · rw [hl₂ x hx]; simp) (hcur'.trans hcur₀.symm) hu'
  obtain ⟨ret, -, hret⟩ := h7 ⟨_, _, rfl⟩
  exact ⟨h, { m₀ with cpu := readCpu m₀.cpu }, m', hu₀, hu', hcur'.trans hcur₀.symm, h1, h2, h3, h4,
    h5, ret, hret⟩

end CortexAOS
