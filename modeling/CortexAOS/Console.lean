import CortexAOS.Invariant

/-!
# Console input as one stream

Every accepted byte is returned once, in order, by the `sys_read` that comes to it first.
-/

namespace CortexAOS

open task_state_t Kernel

variable {cfg : Config}

def returnedBytes (o : List (Obs cfg)) : List Byte := o.flatMap fun | .readDone _ _ bs => bs | _ => []

@[simp] theorem returnedBytes_append (o o' : List (Obs cfg)) :
    returnedBytes (o ++ o') = returnedBytes o ++ returnedBytes o' := List.flatMap_append ..

def accepted (tr : List (Label cfg)) : List Byte := tr.flatMap fun l => acceptedBytes l.obs

def returned (tr : List (Label cfg)) : List Byte := tr.flatMap fun l => returnedBytes l.obs

theorem accepted_append (tr tr' : List (Label cfg)) :
    accepted (tr ++ tr') = accepted tr ++ accepted tr' :=
  List.flatMap_append ..

theorem returned_append (tr tr' : List (Label cfg)) :
    returned (tr ++ tr') = returned tr ++ returned tr' :=
  List.flatMap_append ..

theorem accepted_nil {o : List (Obs cfg)} (h : ∀ c, .accepted c ∉ o) : acceptedBytes o = [] := by
  unfold acceptedBytes
  rw [List.filterMap_eq_nil_iff]
  intro x hx
  cases x with
  | accepted c => exact absurd hx (h c)
  | _ => rfl

theorem returned_nil {o : List (Obs cfg)} (h : ∀ t len bs, .readDone t len bs ∉ o) :
    returnedBytes o = [] := by
  unfold returnedBytes
  rw [List.flatMap_eq_nil_iff]
  intro x hx
  cases x with
  | readDone t len bs => exact absurd hx (h t len bs)
  | _ => rfl

def Silent (l : Label cfg) : Prop := acceptedBytes l.obs = [] ∧ returnedBytes l.obs = []

theorem plain_silent {o : List (Obs cfg)} (ho : ∀ x ∈ o, x.plain) :
    acceptedBytes o = [] ∧ returnedBytes o = [] :=
  ⟨accepted_nil fun _ => plain_not_mem ho rfl, returned_nil fun _ _ _ => plain_not_mem ho rfl⟩

theorem stores_silent (buf : Word) (bs : List Byte) :
    acceptedBytes (stores buf bs : List (Obs cfg)) = [] ∧
    returnedBytes (stores buf bs : List (Obs cfg)) = [] :=
  plain_silent (stores_plain buf bs)

theorem gotObs_bytes (a : Abs cfg) (buf len : Word) :
    acceptedBytes (a.gotObs buf len) = [] ∧
    returnedBytes (a.gotObs buf len) = a.ring.take len.toNat := by
  obtain ⟨h1, h2⟩ : _ ∧ returnedBytes (_ : List (Obs cfg)) = [] :=
    stores_silent buf (a.ring.take len.toNat)
  unfold Abs.gotObs
  rw [acceptedBytes_append, acceptedBytes_append, returnedBytes_append, returnedBytes_append, h1, h2]
  exact ⟨rfl, by simp [returnedBytes]⟩

theorem stream_step {a a' : Abs cfg} {l : Label cfg} (hs : AStep a l a') :
    a.ring ++ acceptedBytes l.obs = returnedBytes l.obs ++ a'.ring := by
  have hsilent :
      Silent l → a'.ring = a.ring → a.ring ++ acceptedBytes l.obs = returnedBytes l.obs ++ a'.ring := by
    rintro ⟨h1, h2⟩ h3
    rw [h1, h2, h3, List.append_nil, List.nil_append]
  cases hs with
  | uartNone _ ho hacc | uartWake _ ho hacc =>
    rw [returned_nil fun _ _ _ => rx_not_mem ho (by simp) (by simp), hacc]
    rfl
  | @svcGot ctx umem =>
    obtain ⟨h1, h2⟩ := gotObs_bytes a (ctx.val.r 1) (ctx.val.r 2)
    rw [h1, h2, List.append_nil]
    exact (List.take_append_drop ..).symm
  | @readGot buf len =>
    obtain ⟨h1, h2⟩ := gotObs_bytes a buf len
    rw [h1, h2, List.append_nil]
    exact (List.take_append_drop ..).symm
  | svcSlept | readSlept =>
    refine hsilent ?_ rfl
    unfold Silent Abs.sleptObs
    split <;> exact ⟨rfl, rfl⟩
  | svcQuiet _ ho | svcExit _ _ ho | svcKill _ _ _ _ ho =>
    obtain ⟨h1, h2⟩ := plain_silent ho
    refine hsilent ⟨?_, ?_⟩ rfl
    · rw [acceptedBytes_append, h1]; rfl
    · rw [returnedBytes_append, h2]; rfl
  | fault _ _ ho | panic _ ho => exact hsilent (plain_silent ho) rfl
  | timer | spurious | schedIdle | schedNone | schedSwitch | toUser | halted =>
      exact hsilent ⟨rfl, rfl⟩ rfl

theorem stream_run {a a' : Abs cfg} {tr : List (Label cfg)} (hr : Lib.Run AStep a tr a') :
    a.ring ++ accepted tr = returned tr ++ a'.ring := by
  refine hr.history (I := fun tr u => a.ring ++ accepted tr = returned tr ++ u.ring) ?_
    (by simp [accepted, returned])
  intro tr u l u' ih hs
  have hstep := stream_step hs
  have h1 : accepted [l] = acceptedBytes l.obs := by simp [accepted]
  have h2 : returned [l] = returnedBytes l.obs := by simp [returned]
  rw [accepted_append, returned_append, ← List.append_assoc, ih, h1, h2, List.append_assoc, hstep,
    List.append_assoc]

theorem push_obs (k : Kernel cfg) (h : k.RxOk) (c : Byte) :
    (uart_rx_push k c).2 = if k.ring.length = 127 then [.rejected c] else [.accepted c] := by
  split
  · rename_i hfull
    rw [uart_rx_push_full k h c hfull]
  · rename_i hroom
    have hle : k.ring.length ≤ 127 := by rw [length_ring]; exact h
    obtain ⟨k', hk, -⟩ := uart_rx_push_room k h c (by omega)
    rw [hk]

/-- The step in which a `sys_read` that has passed its checks comes back. -/
def ReadReturns (l : Label cfg) : Prop :=
  l.ev = none ∨ ∃ ctx umem, l.ev = some (.svc ctx umem) ∧ ctx.val.r 7 = SYS_READ ∧
    ReadOk (ctx.val.r 1) (ctx.val.r 2)

theorem sysret_read {a a' : Abs cfg} {l : Label cfg} (hs : AStep a l a') (hl : ReadReturns l)
    {t : Tid cfg} {ret : Word} (hm : .sysret t ret ∈ l.obs) :
    ∃ len bs, .readDone t len bs ∈ l.obs ∧ ret = BitVec.ofNat 32 bs.length := by
  have hgot : ∀ buf len, .sysret t ret ∈ a.gotObs buf len →
      ∃ len' bs, .readDone t len' bs ∈ a.gotObs buf len ∧ ret = BitVec.ofNat 32 bs.length := by
    intro buf len hq
    simp only [Abs.gotObs, List.mem_append, List.mem_singleton, reduceCtorEq, or_false,
      Obs.sysret.injEq] at hq
    rcases hq with hq | ⟨rfl, rfl⟩
    · exact absurd hq (plain_not_mem (stores_plain _ _) rfl)
    · exact ⟨len, a.ring.take len.toNat, by simp [Abs.gotObs], rfl⟩
  cases hs with
  | svcGot | readGot => exact hgot _ _ hm
  | svcSlept | readSlept => exact absurd hm (sleptObs_sysret t ret)
  | svcQuiet _ _ _ hread =>
    rcases hl with hl | ⟨ctx, umem, hl, hnum, hok⟩
    · cases hl
    · cases hl; exact absurd hok (hread hnum)
  | svcExit _ hnum =>
    rcases hl with hl | ⟨ctx, umem, hl, hread, -⟩
    · cases hl
    · cases hl; rw [hnum] at hread; cases hread
  | svcKill _ hnum =>
    rcases hl with hl | ⟨ctx, umem, hl, hread, -⟩
    · cases hl
    · cases hl; rw [hnum] at hread; cases hread
  | uartNone _ ho | uartWake _ ho => exact absurd hm (rx_not_mem ho (by simp) (by simp))
  | fault _ _ ho | panic _ ho => exact absurd hm (plain_not_mem ho rfl)
  | timer | spurious | schedIdle | schedNone | schedSwitch | toUser | halted => simp at hm

/-! ## Whose read it is -/

/-- `t` has gone to sleep in `sys_read(0, buf, len)`, and no system call of `t` has come back since. -/
def Outstanding (tr : List (Label cfg)) (t : Tid cfg) (buf len : Word) : Prop :=
  ∃ tr₁ l tr₂, tr = tr₁ ++ ([l] ++ tr₂) ∧ l.Asks buf len ∧ .queued t ∈ l.obs ∧
    ∀ l' ∈ tr₂, ∀ ret, .sysret t ret ∉ l'.obs

theorem Outstanding.snoc {tr : List (Label cfg)} {t : Tid cfg} {buf len : Word} {l : Label cfg}
    (h : Outstanding tr t buf len) (hl : ∀ ret, .sysret t ret ∉ l.obs) :
    Outstanding (tr ++ [l]) t buf len := by
  obtain ⟨tr₁, l₀, tr₂, rfl, hasks, hq, hback⟩ := h
  refine ⟨tr₁, l₀, tr₂ ++ [l], by simp, hasks, hq, fun l' hl' => ?_⟩
  rcases List.mem_append.mp hl' with hm | hm
  · exact hback l' hm
  · rw [List.mem_singleton.mp hm]
    exact hl

/-- Only the current thread comes back from a system call, and then it is in none. -/
theorem sysret_current {a a' : Abs cfg} {l : Label cfg} (hs : AStep a l a') {t : Tid cfg} {ret : Word}
    (hm : .sysret t ret ∈ l.obs) : t = a.current ∧ a'.ctl = .sched .svcTail := by
  rcases hs.inv_sysret with ⟨hctl, o, ret', hobs, hno⟩ | ⟨-, hno⟩
  · rw [hobs] at hm
    rcases List.mem_append.mp hm with hm | hm
    · exact absurd hm (hno t ret)
    · cases List.mem_singleton.mp hm
      exact ⟨rfl, hctl⟩
  · exact absurd hm (hno t ret)

/-- Whoever waits for bytes has asked for them. -/
structure Awaits (tr : List (Label cfg)) (a : Abs cfg) : Prop where
  parked : ∀ t buf len, t ≠ a.current → a.kont t = .readWait buf len → Outstanding tr t buf len
  running : ∀ buf len, a.ctl = .sched (.readWait buf len) ∨ a.ctl = .resume (.readWait buf len) →
    Outstanding tr a.current buf len

/-- A step in which the current thread keeps the processor and waits for nothing. -/
theorem Awaits.stay {tr : List (Label cfg)} {a a' : Abs cfg} {l : Label cfg} (h : Awaits tr a)
    (hs : AStep a l a') (hcur : a'.current = a.current) (hkont : a'.kont = a.kont)
    (hsched : ∀ buf len, a'.ctl ≠ .sched (.readWait buf len))
    (hresume : ∀ buf len, a'.ctl ≠ .resume (.readWait buf len)) : Awaits (tr ++ [l]) a' := by
  refine ⟨fun t buf len hne hk => ?_, fun buf len hc => (hc.elim (hsched _ _) (hresume _ _)).elim⟩
  rw [hcur] at hne
  rw [hkont] at hk
  exact (h.parked t buf len hne hk).snoc fun ret hm => hne (sysret_current hs hm).1

/-- A step in which it goes on to wait for what it has waited for. -/
theorem Awaits.keep {tr : List (Label cfg)} {a a' : Abs cfg} {l : Label cfg} (h : Awaits tr a)
    (hobs : ∀ t ret, .sysret t ret ∉ l.obs) (hcur : a'.current = a.current) (hkont : a'.kont = a.kont)
    (hctl : ∀ buf len, a'.ctl = .sched (.readWait buf len) ∨ a'.ctl = .resume (.readWait buf len) →
      a.ctl = .sched (.readWait buf len) ∨ a.ctl = .resume (.readWait buf len)) :
      Awaits (tr ++ [l]) a' := by
  refine ⟨fun t buf len hne hk => ?_, fun buf len hc => ?_⟩
  · rw [hcur] at hne
    rw [hkont] at hk
    exact (h.parked t buf len hne hk).snoc (hobs t)
  · rw [hcur]
    exact (h.running buf len (hctl buf len hc)).snoc (hobs _)

theorem Ctl.sched_ne_resume {p q : KPoint} : Ctl.sched p ≠ .resume q := by
  simp

theorem awaits_step {tr : List (Label cfg)} {a a' : Abs cfg} {l : Label cfg} (hi : Inv a)
    (h : Awaits tr a) (hs : AStep a l a') : Awaits (tr ++ [l]) a' := by
  have hstep := hs
  cases hs with
  | @svcSlept ctx umem hu hnum hok hr =>
    have hfree := (hi.user hu).2.2.2
    refine ⟨fun t buf len hne hk => (h.parked t buf len hne hk).snoc (sleptObs_sysret t),
      fun buf len hc => ?_⟩
    have hwait : (.sched (.readWait (ctx.val.r 1) (ctx.val.r 2)) : Ctl) = .sched (.readWait buf len) :=
      hc.resolve_right Ctl.sched_ne_resume
    cases hwait
    refine ⟨tr, _, [], rfl, ⟨ctx, umem, rfl, hnum, rfl, rfl⟩, ?_, by simp⟩
    show _ ∈ a.sleptObs
    rw [Abs.sleptObs, if_neg hfree]
    exact List.mem_singleton_self _
  | readSlept hc =>
    refine h.keep sleptObs_sysret rfl rfl fun buf len hc' => Or.inr ?_
    have hwait := hc'.resolve_right Ctl.sched_ne_resume
    cases hwait
    exact hc
  | schedIdle hc | schedNone hc =>
    refine h.keep (by simp) rfl rfl fun buf len hc' => Or.inl ?_
    have hwait := hc'.resolve_left Ctl.sched_ne_resume.symm
    cases hwait
    exact hc
  | @schedSwitch p c hc _ hne =>
    have hobs (t : Tid cfg) (ret : Word) : .sysret t ret ∉ [Obs.switched a.current c] := by simp
    refine ⟨fun t buf len hnext hk => ?_, fun buf len hc' => ?_⟩
    · -- The one that is left has its own point to go on from.
      by_cases ht : t = a.current
      · subst ht
        have hp : p = .readWait buf len := (Function.update_self ..).symm.trans hk
        exact (h.running buf len (Or.inl (hp ▸ hc))).snoc (hobs _)
      · exact (h.parked t buf len ht ((Function.update_of_ne ht ..).symm.trans hk)).snoc (hobs _)
    · have hk : a.kont c = .readWait buf len := Ctl.resume.inj (hc'.resolve_left Ctl.sched_ne_resume.symm)
      exact (h.parked c buf len hne hk).snoc (hobs _)
  | timer | spurious | uartNone | uartWake | svcQuiet | svcExit | svcKill | svcGot | fault
  | toUser | readGot | panic =>
    exact h.stay hstep rfl rfl (by simp [Abs.got, Abs.kill]) (by simp [Abs.got, Abs.kill])
  | halted hc => exact h.stay hstep rfl rfl (by simp [hc]) (by simp [hc])

theorem awaits_run {s : Sys cfg} {tr : List (Label cfg)} (hr : Lib.Run Step (start cfg) tr s) :
    Awaits tr s.abs := by
  have hinv := (run_refines rep_start hr).2.restrict (fun _ _ _ hi hs => inv_step hi hs) inv_start
  refine hinv.history (I := Awaits) (fun _ _ _ _ h hs => awaits_step hs.2.1 h hs.1) ⟨?_, ?_⟩
  all_goals rw [start_abs]
  · intro t buf len _ hk
    cases hk
  · rintro buf len (hc | hc) <;> cases hc

theorem stores_range (buf : Word) (bs : List Byte) : (stores buf bs : List (Obs cfg)) =
    (List.range bs.length).map fun i => .store (buf + BitVec.ofNat 32 i) (bs.getD i 0#8) := by
  unfold stores
  apply List.ext_getElem
  · simp
  · intro i h1 h2
    simp at h1
    simp [h1]

/-- A completed `sys_read`, as the step that completes it shows it: its buffer and length are those
that its caller has asked for, now or when it went to sleep. -/
theorem read_step {tr : List (Label cfg)} {a a' : Abs cfg} {l : Label cfg} (hw : Awaits tr a)
    (hs : AStep a l a')
    {t : Tid cfg} {len : Word} {bs : List Byte} (hm : .readDone t len bs ∈ l.obs) :
    1 ≤ bs.length ∧ bs.length ≤ len.toNat ∧ returnedBytes l.obs = bs ∧
      ∃ buf, valid_user_ptr buf len = true ∧ (l.Asks buf len ∨ l.ev = none ∧ Outstanding tr t buf len) ∧
        l.obs = ((List.range bs.length).map fun i => .store (buf + BitVec.ofNat 32 i) (bs.getD i 0#8)) ++
          [.readDone t len bs] ++ [.sysret t (BitVec.ofNat 32 bs.length)] := by
  obtain ⟨rfl, hr, rfl, -, buf, hok, hobs, hfrom⟩ := hs.inv_readDone hm
  have hlen : len.toNat ≠ 0 := fun h0 => hok.1 (BitVec.eq_of_toNat_eq (by simpa using h0))
  have hring := List.length_pos_iff.mpr hr
  refine ⟨?_, ?_, ?_, buf, hok.2, ?_, ?_⟩
  · rw [List.length_take]; omega
  · rw [List.length_take]; omega
  · rw [hobs]; exact (gotObs_bytes a buf len).2
  · exact hfrom.imp And.right fun ⟨hc, hev⟩ => ⟨hev, hw.running buf len (Or.inr hc)⟩
  · rw [hobs, ← stores_range]
    rfl

theorem console_is_a_stream {s : Sys cfg} {tr : List (Label cfg)} (hr : Lib.Run Step (start cfg) tr s) :
    returned tr ++ s.k.ring = accepted tr ∧
    (∀ pre c, (uart_rx_push (rx_drain s.k pre).1 c).2 =
      if (rx_drain s.k pre).1.ring.length = 127 then [.rejected c] else [.accepted c]) ∧
    (∀ tr1 l tr2 t len bs, tr = tr1 ++ ([l] ++ tr2) → .readDone t len bs ∈ l.obs →
      1 ≤ bs.length ∧ bs.length ≤ len.toNat ∧
      (∃ rest, accepted tr = returned tr1 ++ bs ++ rest) ∧
      ∃ buf, valid_user_ptr buf len = true ∧ (l.Asks buf len ∨ l.ev = none ∧ Outstanding tr1 t buf len) ∧
        l.obs = ((List.range bs.length).map fun i => .store (buf + BitVec.ofNat 32 i) (bs.getD i 0#8)) ++
          [.readDone t len bs] ++ [.sysret t (BitVec.ofNat 32 bs.length)]) ∧
    ∀ l ∈ tr, ReadReturns l → ∀ t ret, .sysret t ret ∈ l.obs →
      ∃ len bs, .readDone t len bs ∈ l.obs ∧ ret = BitVec.ofNat 32 bs.length := by
  have hring : (start cfg).abs.ring = [] := by rw [start_abs]
  have hstream : ∀ {u : Sys cfg} {tr : List (Label cfg)}, Lib.Run Step (start cfg) tr u →
      accepted tr = returned tr ++ u.k.ring := by
    intro u tr hu
    have := stream_run (run_refines rep_start hu).2
    rwa [hring, List.nil_append] at this
  refine ⟨(hstream hr).symm, ?_, ?_, ?_⟩
  · intro pre c
    exact push_obs _ (rx_drain_spec s.k (reachable_rep ⟨tr, hr⟩).rx pre).ok c
  · rintro tr1 l tr2 t len bs rfl hm
    obtain ⟨s1, hr1, hr2⟩ := hr.split
    obtain ⟨s2, hl, hr3⟩ := hr2.split
    obtain ⟨-, hstep⟩ := step_refines (reachable_rep ⟨tr1, hr1⟩) hl.of_single
    obtain ⟨h1, h2, h3, h4⟩ := read_step (awaits_run hr1) hstep hm
    refine ⟨h1, h2, ⟨returned tr2 ++ s.k.ring, ?_⟩, h4⟩
    rw [hstream hr, returned_append, returned_append, show returned [l] = bs by simp [returned, h3]]
    simp only [List.append_assoc]
  · intro l hl hread t ret hm
    obtain ⟨tr1, tr2, rfl⟩ := List.append_of_mem hl
    obtain ⟨s1, hr1, hr2⟩ := hr.split
    obtain ⟨s2, hs, -⟩ := hr2.uncons
    exact sysret_read (step_refines (reachable_rep ⟨tr1, hr1⟩) hs).2 hread hm

/-- A reader of two bytes sleeps, and three bytes come. -/
def threeBytes : Sys demo :=
  drive 5 (start demo) [svcEvent SYS_READ 0 USER_VIRT_BASE 2#32, .irq (.uart [0x41#8, 0xFF#8, 0x00#8])]

theorem console_is_a_stream_three :
    threeBytes.k.ring = [0x00#8] ∧
      ∃ tr, Lib.Run Step (start demo) tr threeBytes ∧
        returned tr ++ threeBytes.k.ring = accepted tr := by
  obtain ⟨tr, hr⟩ : Reachable threeBytes := drive_reachable 5 (start demo) _ ⟨[], .refl⟩
  exact ⟨by decide, tr, hr, (console_is_a_stream hr).1⟩

end CortexAOS
