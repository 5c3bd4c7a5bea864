import CortexAOS.UserPtr
import CortexAOS.Invariant

/-!
# System calls that fail

An error is returned for exactly the arguments that are bad, and then nothing but the saved `r0`
changes. Otherwise a call keeps to the buffer it was given, also after it has slept.
-/

namespace CortexAOS

variable {cfg : Config}

/-! ## Bad arguments -/

/-- `[addr, addr + len)` lies in the user window, counted in whole numbers. -/
def InWindow (addr len : Word) : Prop :=
  USER_VIRT_BASE.toNat ≤ addr.toNat ∧
    addr.toNat + len.toNat ≤ USER_VIRT_BASE.toNat + USER_REGION_SIZE.toNat

def callBuffer (ctx : exception_context_t) : Option (Word × Word) :=
  if ctx.r 7 = SYS_WRITE ∨ ctx.r 7 = SYS_READ then some (ctx.r 1, ctx.r 2)
  else if ctx.r 7 = SYS_PS then some (ctx.r 0, ctx.r 1)
  else none

def BadBuffer (ctx : exception_context_t) : Prop :=
  (ctx.r 7 = SYS_WRITE ∧ ¬ InWindow (ctx.r 1) (ctx.r 2)) ∨
  (ctx.r 7 = SYS_READ ∧ ctx.r 2 ≠ 0 ∧ ¬ InWindow (ctx.r 1) (ctx.r 2)) ∨
  (ctx.r 7 = SYS_PS ∧ ¬ InWindow (ctx.r 0) (ctx.r 1))

def BadCall (cfg : Config) (ctx : exception_context_t) : Prop :=
  NR_SYSCALLS.toNat ≤ (ctx.r 7).toNat ∨ (ctx.r 7 = SYS_KILL ∧ cfg.NUM_PROCESSES ≤ (ctx.r 0).toNat)

def Obs.Inside (b : Option (Word × Word)) : Obs cfg → Prop
  | .load va | .store va _ => ∃ p, b = some p ∧ p.1.toNat ≤ va.toNat ∧ va.toNat < p.1.toNat + p.2.toNat
  | _ => True

theorem valid_user_ptr_iff (addr len : Word) : valid_user_ptr addr len = true ↔ InWindow addr len := by
  have hbase : USER_VIRT_BASE.toNat = 0x40000000 := by decide
  have hsize : USER_REGION_SIZE.toNat = 0x100000 := by decide
  unfold InWindow
  rw [hbase, hsize]
  constructor
  · exact valid_user_ptr_spec
  · have htop : (USER_VIRT_BASE + USER_REGION_SIZE).toNat = 0x40100000 := by decide
    rintro ⟨h1, h2⟩
    unfold valid_user_ptr
    simp only [BitVec.lt_def, hbase, htop, BitVec.toNat_add]
    rw [if_neg (by omega), if_neg (by omega), if_neg (by omega)]

/-! ## What a call does that is not turned down -/

/-- A result as the caller's libc reads it: no error, and no access beside the buffer. -/
structure Clean (b : Option (Word × Word)) (r : Result cfg) : Prop where
  inside : ∀ o ∈ r.2.1, o.Inside b
  ret : ∀ v, r.2.2 = .returns v → 0 ≤ v.toInt

theorem toInt_nonneg {v : Word} (h : v.toNat < 2 ^ 31) : 0 ≤ v.toInt := by
  rw [BitVec.toInt_eq_toNat_of_lt (by omega)]
  omega

theorem offset_inside {buf len : Word} (hw : InWindow buf len) {i : Nat} (hi : i < len.toNat) :
    buf.toNat ≤ (buf + BitVec.ofNat 32 i).toNat ∧
    (buf + BitVec.ofNat 32 i).toNat < buf.toNat + len.toNat := by
  have hbase : USER_VIRT_BASE.toNat = 0x40000000 := by decide
  have hsize : USER_REGION_SIZE.toNat = 0x100000 := by decide
  unfold InWindow at hw
  rw [BitVec.toNat_add, BitVec.toNat_ofNat]
  omega

theorem InWindow.len_le {buf len : Word} (hw : InWindow buf len) : len.toNat ≤ 0x40100000 := by
  have hbase : USER_VIRT_BASE.toNat = 0x40000000 := by decide
  have hsize : USER_REGION_SIZE.toNat = 0x100000 := by decide
  unfold InWindow at hw
  omega

theorem stores_inside {buf len : Word} (hw : InWindow buf len) {bs : List Byte}
    (hl : bs.length ≤ len.toNat) :
    ∀ o ∈ (stores buf bs : List (Obs cfg)), o.Inside (some (buf, len)) := by
  intro o ho
  obtain ⟨⟨c, i⟩, hm, rfl⟩ := List.mem_map.mp ho
  exact ⟨_, rfl, offset_inside hw (Nat.lt_of_lt_of_le (List.mem_zipIdx' hm).1 hl)⟩

theorem sys_write_clean (k : Kernel cfg) (umem : Word → Byte) {buf len : Word} (hw : InWindow buf len) :
    Clean (some (buf, len)) (sys_write k umem buf len) := by
  unfold sys_write
  rw [(valid_user_ptr_iff buf len).mpr hw]
  constructor
  · intro o ho
    obtain ⟨i, hi, ho⟩ := List.mem_flatMap.mp ho
    rcases List.mem_cons.mp ho with rfl | ho
    · exact ⟨_, rfl, offset_inside hw (List.mem_range.mp hi)⟩
    · unfold uart_putc at ho
      split at ho
      · rcases List.mem_cons.mp ho with rfl | ho
        · trivial
        · rw [List.mem_singleton.mp ho]; trivial
      · rw [List.mem_singleton.mp ho]; trivial
  · rintro v ⟨⟩
    have := hw.len_le
    exact toInt_nonneg (by omega)

theorem waitq_push_inside (b : Option (Word × Word)) (k : Kernel cfg) (t : Tid cfg) :
    ∀ o ∈ (waitq_push k t).2, o.Inside b := by
  unfold waitq_push
  split_ifs <;> simp [Obs.Inside]

theorem sys_read_loop_clean (k : Kernel cfg) {buf len : Word} (hw : InWindow buf len) :
    Clean (some (buf, len)) (sys_read_loop k buf len) := by
  have hlen := read_copy_length len.toNat k
  have := hw.len_le
  unfold sys_read_loop
  split
  · exact ⟨waitq_push_inside _ _ _, fun v hv => by cases hv⟩
  · rename_i c cs k' heq
    rw [heq] at hlen
    replace hlen : (c :: cs).length ≤ len.toNat := hlen
    constructor
    · intro o ho
      rcases List.mem_append.mp ho with ho | ho
      · exact stores_inside hw hlen o ho
      · rw [List.mem_singleton.mp ho]; trivial
    · rintro v ⟨⟩
      apply toInt_nonneg
      rw [BitVec.toNat_ofNat]
      omega

theorem sys_ps_clean (k : Kernel cfg) {buf size : Word} (hw : InWindow buf size) :
    Clean (some (buf, size)) (sys_ps k buf size) := by
  have hlen := ps_lines_length k size.toNat (List.finRange cfg.NUM_THREADS)
  have := hw.len_le
  unfold sys_ps
  rw [(valid_user_ptr_iff buf size).mpr hw]
  refine ⟨stores_inside hw hlen, ?_⟩
  rintro v ⟨⟩
  apply toInt_nonneg
  rw [BitVec.toNat_ofNat]
  omega

theorem sys_kill_clean (k : Kernel cfg) {pid : Word} (hp : pid.toNat < cfg.NUM_PROCESSES) :
    Clean none (sys_kill k pid) := by
  unfold sys_kill
  rw [dif_pos hp]
  dsimp only
  split
  · exact ⟨by simp, by rintro v ⟨⟩; decide⟩
  · exact ⟨by simp [Obs.Inside], by rintro v ⟨⟩; decide⟩

/-! ## syscall_dispatch -/

theorem finish_clean {b : Option (Word × Word)} {r : Result cfg} (h : Clean b r) (t : Tid cfg) :
    Clean b (finish t r) := by
  obtain ⟨k, o, out⟩ := r
  rcases out with v | ⟨buf, len⟩
  · refine ⟨fun x hx => ?_, h.ret⟩
    rcases List.mem_append.mp hx with hx | hx
    · exact h.inside x hx
    · rw [List.mem_singleton.mp hx]; trivial
  · exact h

section

variable (k : Kernel cfg) (umem : Word → Byte) {ctx : exception_context_t}

theorem dispatch_lt (h : (ctx.r 7).toNat < NR_SYSCALLS.toNat) : syscall_dispatch k umem ctx =
    finish k.current (syscall_table k umem (ctx.r 7) (ctx.r 0) (ctx.r 1) (ctx.r 2)) := by
  unfold syscall_dispatch
  exact if_neg (by rw [BitVec.le_def]; omega)

theorem bad_buffer_dispatch (h : BadBuffer ctx) :
    syscall_dispatch k umem ctx = (k, [.sysret k.current E_FAULT], .returns E_FAULT) := by
  rcases h with ⟨hnum, hbad⟩ | ⟨hnum, hlen, hbad⟩ | ⟨hnum, hbad⟩
  all_goals
    rw [dispatch_lt k umem (by rw [hnum]; decide), hnum]
    rw [← valid_user_ptr_iff, Bool.not_eq_true] at hbad
  · show finish k.current (sys_write k umem (ctx.r 1) (ctx.r 2)) = _
    unfold sys_write
    rw [hbad]
    rfl
  · show finish k.current (sys_read k (ctx.r 1) (ctx.r 2)) = _
    unfold sys_read
    rw [if_neg hlen, hbad]
    rfl
  · show finish k.current (sys_ps k (ctx.r 0) (ctx.r 1)) = _
    unfold sys_ps
    rw [hbad]
    rfl

theorem bad_call_dispatch (h : BadCall cfg ctx) :
    syscall_dispatch k umem ctx = (k, [.sysret k.current E_BADCALL], .returns E_BADCALL) := by
  rcases h with hnr | ⟨hnum, hpid⟩
  · unfold syscall_dispatch
    exact if_pos (by rw [BitVec.le_def]; exact hnr)
  · rw [dispatch_lt k umem (by rw [hnum]; decide), hnum]
    show finish k.current (sys_kill k (ctx.r 0)) = _
    unfold sys_kill
    rw [dif_neg (by omega)]
    rfl

theorem ticks_dispatch (h : ctx.r 7 = SYS_TICKS) :
    syscall_dispatch k umem ctx = (k, [.sysret k.current k.tick_count], .returns k.tick_count) := by
  rw [dispatch_lt k umem (by rw [h]; decide), h]
  rfl

theorem good_call_dispatch (hN : cfg.NUM_PROCESSES * 16384 ≤ 2 ^ 32) (htab : k.TablesOk)
    (hbuf : ¬ BadBuffer ctx) (hcall : ¬ BadCall cfg ctx) (hticks : ctx.r 7 ≠ SYS_TICKS) :
    Clean (callBuffer ctx) (syscall_dispatch k umem ctx) := by
  unfold BadBuffer at hbuf
  unfold BadCall at hcall
  push Not at hbuf hcall
  obtain ⟨hw, hr, hp⟩ := hbuf
  rw [dispatch_lt k umem (by omega)]
  apply finish_clean
  unfold syscall_table
  split_ifs with h0 h1 h2 h3 h4 h5 h6
  · rw [show callBuffer ctx = some (ctx.r 1, ctx.r 2) from if_pos (Or.inl h0)]
    exact sys_write_clean k umem (hw h0)
  · refine ⟨by simp [sys_getpid], ?_⟩
    rintro v ⟨⟩
    have hpid := (pidOf k.current).isLt
    apply toInt_nonneg
    rw [BitVec.toNat_ofNat, htab.pid, htab.proc]
    omega
  · exact ⟨by simp [sys_yield], by rintro v ⟨⟩; decide⟩
  · exact ⟨by simp [sys_exit, Obs.Inside], by rintro v ⟨⟩; decide⟩
  · rw [show callBuffer ctx = some (ctx.r 1, ctx.r 2) from if_pos (Or.inr h4)]
    unfold sys_read
    split_ifs with hlen hvalid
    · exact ⟨by simp, by rintro v ⟨⟩; decide⟩
    · rw [(valid_user_ptr_iff _ _).mpr (hr h4 hlen)] at hvalid
      cases hvalid
    · exact sys_read_loop_clean k (hr h4 hlen)
  · rw [show callBuffer ctx = some (ctx.r 0, ctx.r 1) by rw [callBuffer, if_neg (by tauto), if_pos h5]]
    exact sys_ps_clean k (hp h5)
  · rw [show callBuffer ctx = none by rw [callBuffer, if_neg (by tauto), if_neg h5]]
    exact sys_kill_clean k (hcall.2 h6)
  · have hlt := hcall.1
    simp only [ne_eq, ← BitVec.toNat_inj, SYS_WRITE, SYS_GETPID, SYS_YIELD, SYS_EXIT, SYS_READ,
      SYS_PS, SYS_KILL, SYS_TICKS,
      NR_SYSCALLS, BitVec.toNat_ofNat] at h0 h1 h2 h3 h4 h5 h6 hticks hlt
    omega

end

/-! ## A call that sleeps -/

def Serving (ctx : exception_context_t) (p : KPoint) : Prop :=
  p = .svcTail ∨ (p = .readWait (ctx.r 1) (ctx.r 2) ∧ ctx.r 7 = SYS_READ)

/-- Thread `t` is in its call, or has just come back from it. -/
structure InCall (ctx : exception_context_t) (t : Tid cfg) (a : Abs cfg) : Prop where
  away : a.current ≠ t → Serving ctx (a.kont t)
  here : a.current = t → a.ctl = .user ∨ a.ctl = .halted ∨
    ∃ p, (a.ctl = .sched p ∨ a.ctl = .resume p) ∧ Serving ctx p

section

variable {ctx : exception_context_t} {t : Tid cfg} {a a' : Abs cfg} {l : Label cfg}

theorem InCall.of_here (hcur : a.current = t) {p : KPoint} (hc : a.ctl = .sched p ∨ a.ctl = .resume p)
    (hp : Serving ctx p) : InCall ctx t a :=
  ⟨fun h => absurd hcur h, fun _ => Or.inr (Or.inr ⟨p, hc, hp⟩)⟩

theorem InCall.serving (hi : InCall ctx t a) (hcur : a.current = t) {p : KPoint}
    (hc : a.ctl = .sched p ∨ a.ctl = .resume p) : Serving ctx p := by
  obtain hu | hh | ⟨p', hp', hserv⟩ := hi.here hcur
  · rw [hu] at hc; rcases hc with hc | hc <;> cases hc
  · rw [hh] at hc; rcases hc with hc | hc <;> cases hc
  · rcases hc with hc | hc <;> rcases hp' with hp' | hp' <;> rw [hc] at hp' <;> cases hp' <;> exact hserv

theorem InCall.entered {c : UserContext} {umem : Word → Byte} {o : List (Obs cfg)}
    (hs : AStep a ⟨some (.svc c umem), o⟩ a') : InCall c.val a.current a' := by
  cases hs with
  | svcQuiet | svcExit | svcKill | svcGot => exact .of_here rfl (Or.inl rfl) (Or.inl rfl)
  | svcSlept _ hnum => exact .of_here rfl (Or.inl rfl) (Or.inr ⟨rfl, hnum⟩)
  | fault _ he => cases he

theorem InCall.step (hi : InCall ctx t a) (hs : AStep a l a') (hev : l.ev ≠ none → a.current ≠ t) :
    InCall ctx t a' := by
  rcases hs.inv_switch with ⟨p, c, hc, hne, rfl⟩ | ⟨hcur, hkont⟩
  · constructor
    · intro _
      by_cases ht : a.current = t
      · have hkont : (a.switch p c).kont t = p := by rw [← ht]; exact Function.update_self ..
        rw [hkont]
        exact hi.serving ht (Or.inl hc)
      · have hkont : (a.switch p c).kont t = a.kont t := Function.update_of_ne (Ne.symm ht) _ _
        rw [hkont]
        exact hi.away ht
    · intro hct
      obtain rfl : c = t := hct
      exact Or.inr (Or.inr ⟨a.kont c, Or.inr rfl, hi.away (Ne.symm hne)⟩)
  · constructor
    · intro hct
      rw [hkont]
      exact hi.away (by rwa [hcur] at hct)
    · intro hct
      rw [hcur] at hct
      have hnone : l.ev = none := by
        by_contra hsome
        exact hev hsome hct
      cases hs with
      | schedIdle hc | schedNone hc => exact Or.inr (Or.inr ⟨_, Or.inr rfl, hi.serving hct (Or.inl hc)⟩)
      | schedSwitch _ _ hne => exact absurd hcur hne
      | toUser => exact Or.inl rfl
      | readGot => exact Or.inr (Or.inr ⟨.svcTail, Or.inl rfl, Or.inl rfl⟩)
      | readSlept hc => exact Or.inr (Or.inr ⟨_, Or.inl rfl, hi.serving hct (Or.inr hc)⟩)
      | panic => exact Or.inr (Or.inl rfl)
      | halted hc => exact Or.inr (Or.inl hc)
      | timer | spurious | uartNone | uartWake | svcQuiet | svcExit | svcKill | svcGot | svcSlept
      | fault => cases hnone

theorem gotObs_inside {buf len : Word} (hok : ReadOk buf len) :
    (∀ o ∈ a.gotObs buf len, o.Inside (some (buf, len))) ∧ ∀ v, .sysret t v ∈ a.gotObs buf len →
      0 ≤ v.toInt := by
  have hw := (valid_user_ptr_iff buf len).mp hok.2
  have hlen := hw.len_le
  have htake : (a.ring.take len.toNat).length ≤ len.toNat := List.length_take_le _ _
  unfold Abs.gotObs
  constructor
  · intro o ho
    simp only [List.mem_append, List.mem_singleton] at ho
    rcases ho with (ho | rfl) | rfl
    · exact stores_inside hw htake o ho
    · trivial
    · trivial
  · intro v hv
    simp only [List.mem_append, List.mem_singleton, reduceCtorEq, or_false, Obs.sysret.injEq] at hv
    rcases hv with hv | ⟨-, rfl⟩
    · exact absurd hv (plain_not_mem (stores_plain _ _) rfl)
    · apply toInt_nonneg
      rw [BitVec.toNat_ofNat]
      omega

theorem InCall.obs (hi : InCall ctx t a) (hcur : a.current = t) (hs : AStep a l a') (hev : l.ev = none) :
    (∀ o ∈ l.obs, o.Inside (callBuffer ctx)) ∧ ∀ v, .sysret t v ∈ l.obs → 0 ≤ v.toInt := by
  cases hs with
  | schedIdle | schedNone | toUser | halted => exact ⟨by simp, by simp⟩
  | schedSwitch => exact ⟨by simp [Obs.Inside], by simp⟩
  | readGot hc hok =>
    obtain hp | ⟨hp, hnum⟩ := hi.serving hcur (Or.inr hc)
    · cases hp
    · cases hp
      rw [show callBuffer ctx = some (ctx.r 1, ctx.r 2) from if_pos (Or.inr hnum)]
      exact gotObs_inside hok
  | readSlept =>
    unfold Abs.sleptObs
    split
    · exact ⟨by simp, by simp⟩
    · exact ⟨by simp [Obs.Inside], by simp⟩
  | panic hc =>
    obtain hp | ⟨hp, -⟩ := hi.serving hcur (Or.inr hc) <;> cases hp
  | timer | spurious | uartNone | uartWake | svcQuiet | svcExit | svcKill | svcGot | svcSlept
  | fault => cases hev

end

theorem inCall_run {s s' : Sys cfg} {t : Tid cfg} {ctx : exception_context_t}
    {tr : List (Label cfg)} (hrep : Rep s)
    (hi : InCall ctx t s.abs) (hr : Lib.Run (StepWhere fun s _ => s.k.current ≠ t) s tr s') :
    Rep s' ∧ InCall ctx t s'.abs := by
  refine hr.invariant (I := fun s => Rep s ∧ InCall ctx t s.abs) ?_ ⟨hrep, hi⟩
  rintro s l s' ⟨hrep, hi⟩ ⟨hs, hok⟩
  obtain ⟨hrep', ha⟩ := step_refines hrep hs
  refine ⟨hrep', hi.step ha fun hsome => ?_⟩
  obtain ⟨e, he⟩ := Option.ne_none_iff_exists'.mp hsome
  exact hok e he

/-- `hN` says that the page tables fit in the address space. The last part is about a `sys_read` that has
slept: `t` may go on with it after any steps in which it has taken no event of its own. -/
theorem syscall_errors_exact (hN : cfg.NUM_PROCESSES * 16384 ≤ 2 ^ 32) {s : Sys cfg} (hr : Reachable s)
    (ctx : exception_context_t) (umem : Word → Byte) :
    (ctx.r 7 ≠ SYS_TICKS →
      ((syscall_dispatch s.k umem ctx).2.2 = .returns E_FAULT ↔ BadBuffer ctx) ∧
      ((syscall_dispatch s.k umem ctx).2.2 = .returns E_BADCALL ↔ BadCall cfg ctx)) ∧
    (ctx.r 7 = SYS_TICKS →
      syscall_dispatch s.k umem ctx =
        (s.k, [.sysret s.k.current s.k.tick_count], .returns s.k.tick_count)) ∧
    (BadBuffer ctx →
      syscall_dispatch s.k umem ctx = (s.k, [.sysret s.k.current E_FAULT], .returns E_FAULT)) ∧
    (BadCall cfg ctx →
      syscall_dispatch s.k umem ctx = (s.k, [.sysret s.k.current E_BADCALL], .returns E_BADCALL)) ∧
    (¬ BadBuffer ctx → ¬ BadCall cfg ctx →
      (∀ o ∈ (syscall_dispatch s.k umem ctx).2.1, o.Inside (callBuffer ctx)) ∧
      (ctx.r 7 ≠ SYS_TICKS → ∀ v, (syscall_dispatch s.k umem ctx).2.2 = .returns v → 0 ≤ v.toInt)) ∧
    ∀ (hctx : fault_from_user ctx = true), s.ctl = .user → ∀ tr s',
      Lib.Run (StepWhere fun s' _ => s'.k.current ≠ s.k.current)
        (enter s (.svc ⟨ctx, hctx⟩ umem)).1 tr s' →
      s'.k.current = s.k.current → ∀ l s'', Step s' l s'' → l.ev = none →
        (∀ o ∈ l.obs, o.Inside (callBuffer ctx)) ∧ ∀ v, .sysret s.k.current v ∈ l.obs → 0 ≤ v.toInt := by
  have hrep := reachable_rep hr
  have hbuf : BadBuffer ctx → _ := bad_buffer_dispatch s.k umem
  have hcall : BadCall cfg ctx → _ := bad_call_dispatch s.k umem
  have hgood : ¬ BadBuffer ctx → _ := good_call_dispatch s.k umem hN hrep.tables
  refine ⟨fun hticks => ⟨⟨fun he => ?_, fun h => by rw [hbuf h]⟩,
    ⟨fun he => ?_, fun h => by rw [hcall h]⟩⟩,
    ticks_dispatch s.k umem, hbuf, hcall, fun h1 h2 =>
      ?_, fun hctx hu tr s' hrun hcur l s'' hs hev => ?_⟩
  · by_contra hnot
    by_cases hbad : BadCall cfg ctx
    · rw [hcall hbad] at he
      cases he
    · exact absurd ((hgood hnot hbad hticks).ret _ he) (by decide)
  · by_contra hnot
    by_cases hbad : BadBuffer ctx
    · rw [hbuf hbad] at he
      cases he
    · exact absurd ((hgood hbad hnot hticks).ret _ he) (by decide)
  · by_cases hticks : ctx.r 7 = SYS_TICKS
    · refine ⟨?_, fun h => absurd hticks h⟩
      rw [ticks_dispatch s.k umem hticks]
      simp [Obs.Inside]
    · exact ⟨(hgood h1 h2 hticks).inside, fun _ => (hgood h1 h2 hticks).ret⟩
  · obtain ⟨hrep', ha⟩ := step_refines hrep (Step.event (.svc ⟨ctx, hctx⟩ umem) hu)
    obtain ⟨hrep'', hi⟩ := inCall_run hrep' (InCall.entered ha) hrun
    exact hi.obs hcur (step_refines hrep'' hs).2 hev

theorem syscall_errors_exact_wrap : Reachable (start demo) ∧ demo.NUM_PROCESSES * 16384 ≤ 2 ^ 32 ∧
    syscall_dispatch (boot demo) (fun _ => 0#8)
      (svcContext SYS_WRITE 0#32 0xFFFFFFFF#32 0x40000002#32).val =
      (boot demo, [.sysret Kernel.first E_FAULT], .returns E_FAULT) := by
  have hr : Reachable (start demo) := ⟨[], .refl⟩
  have hN : demo.NUM_PROCESSES * 16384 ≤ 2 ^ 32 := by decide
  have hbad : BadBuffer (svcContext SYS_WRITE 0#32 0xFFFFFFFF#32 0x40000002#32).val := by
    refine Or.inl ⟨rfl, ?_⟩
    unfold InWindow
    decide
  exact ⟨hr, hN, (syscall_errors_exact hN hr _ _).2.2.1 hbad⟩

end CortexAOS
