import CortexAOS.Abstract
import CortexAOS.Lib.Clip

/-!
# Stores through user pointers

Whatever a program passes to `sys_read` or `sys_ps`, the bytes that these store go to the user
section, also when the call has slept in between.
-/

namespace CortexAOS

variable {cfg : Config}

def UserVa (va : Word) : Prop := 0x40000000 ≤ va.toNat ∧ va.toNat < 0x40100000

theorem UserVa.index {va : Word} (hu : UserVa va) : (va >>> 20).toNat = 0x400 := by
  unfold UserVa at hu
  rw [BitVec.toNat_ushiftRight, Nat.shiftRight_eq_div_pow]
  omega

theorem valid_user_ptr_spec {addr len : Word} (h : valid_user_ptr addr len = true) :
    0x40000000 ≤ addr.toNat ∧ addr.toNat + len.toNat ≤ 0x40100000 := by
  have hbase : USER_VIRT_BASE.toNat = 0x40000000 := by decide
  have htop : (USER_VIRT_BASE + USER_REGION_SIZE).toNat = 0x40100000 := by decide
  have h1 := addr.isLt
  have h2 := len.isLt
  unfold valid_user_ptr at h
  simp only [BitVec.lt_def, hbase, htop, BitVec.toNat_add] at h
  split_ifs at h
  omega

def Obs.InUser : Obs cfg → Prop
  | .store va _ => UserVa va
  | _ => True

theorem stores_inUser {buf len : Word} {bs : List Byte} (hp : valid_user_ptr buf len = true)
    (hl : bs.length ≤ len.toNat) : ∀ o ∈ (stores buf bs : List (Obs cfg)), o.InUser := by
  intro o ho
  obtain ⟨⟨c, i⟩, hm, rfl⟩ := List.mem_map.mp ho
  have hi := (List.mem_zipIdx' hm).1
  obtain ⟨h1, h2⟩ := valid_user_ptr_spec hp
  have hadd : (buf + BitVec.ofNat 32 i).toNat = buf.toNat + i := by
    rw [BitVec.toNat_add, BitVec.toNat_ofNat]
    omega
  show UserVa _
  unfold UserVa
  rw [hadd]
  omega

/-! ## sys_ps cuts its listing at the buffer -/

section

variable {size : Nat} {out : List Byte}

theorem ps_copy_eq (cs : CStr) (h : out.length ≤ size - 1) :
    ps_copy size cs out = Lib.clip (size - 1) out cs := by
  induction cs generalizing out with
  | nil => exact (Lib.clip_nil h).symm
  | cons c cs ih =>
    unfold ps_copy
    split
    · rw [ih (by simp; omega), Lib.clip_cons]
    · rw [Lib.clip_full (by omega)]

theorem ps_pad_eq (n : Nat) (h : out.length ≤ size - 1) :
    ps_pad size n out = Lib.clip (size - 1) out (List.replicate n 0x20#8) := by
  induction n generalizing out with
  | zero => exact (Lib.clip_nil h).symm
  | succ n ih =>
    unfold ps_pad
    rw [List.replicate_succ]
    split
    · rw [ih (by simp; omega), Lib.clip_cons]
    · rw [Lib.clip_full (by omega)]

theorem ps_put_eq (cs : CStr) (h : out.length ≤ size - 1) :
    ps_put size cs out = (Lib.clip (size - 1) out cs, decide (out.length + cs.length ≤ size - 1)) := by
  induction cs generalizing out with
  | nil => simp [ps_put, Lib.clip_nil h, h]
  | cons c cs ih =>
    unfold ps_put
    split
    · rw [Lib.clip_full (by omega)]
      simp only [List.length_cons, Prod.mk.injEq, true_and, Bool.false_eq, decide_eq_false_iff_not]
      omega
    · rw [ih (by simp; omega), Lib.clip_cons]
      simp only [List.length_append, List.length_cons, List.length_nil, Prod.mk.injEq, true_and,
        decide_eq_decide]
      omega

theorem ps_name_eq (nm : CStr) (h : out.length ≤ size - 1) :
    ps_pad size (PS_NAME_W - ((ps_copy size nm out).length - out.length)) (ps_copy size nm out) =
      Lib.clip (size - 1) out (nm.rightpad 7 0x20#8) := by
  rw [ps_copy_eq nm h, ps_pad_eq _ (Lib.length_clip_le ..), List.rightpad, ← Lib.clip_clip,
    Lib.length_clip]
  by_cases hfit : out.length + nm.length ≤ size - 1
  · rw [Nat.min_eq_right hfit, Nat.add_sub_cancel_left]
    rfl
  · have hfull : (Lib.clip (size - 1) out nm).length = size - 1 := by
      rw [Lib.length_clip]
      omega
    rw [Lib.clip_full hfull, Lib.clip_full hfull]

end

def psHead (k : Kernel cfg) (t : Tid cfg) : List Byte :=
  ((k.nameOf t).getD (ascii "?")).rightpad 7 0x20#8 ++
    (ascii " t" ++ [0x30#8 + BitVec.ofNat 8 (k.threads t).index] ++ ascii "  ")

def psText (k : Kernel cfg) (t : Tid cfg) : List Byte :=
  psHead k t ++ (state_name (k.state t) ++ ascii "\n")

theorem ps_line_eq (k : Kernel cfg) {size : Nat} {out : List Byte} (t : Tid cfg)
    (h : out.length ≤ size - 1) : ps_line k size t out =
      (Lib.clip (size - 1) out (psText k t), decide (out.length + (psText k t).length ≤ size - 1)) := by
  have hmid :
    (ascii " t" ++ [0x30#8 + BitVec.ofNat 8 (k.threads t).index] ++ ascii "  ").length = 5 := rfl
  have hhead : (psHead k t).length = (((k.nameOf t).getD (ascii "?")).rightpad 7 0x20#8).length + 5 := by
    rw [psHead, List.length_append, hmid]
  have hline : (psText k t).length = (psHead k t).length + ((state_name (k.state t)).length + 1) := by
    rw [psText, List.length_append, List.length_append]
    rfl
  have hput : ps_put size (ascii " t" ++ [0x30#8 + BitVec.ofNat 8 (k.threads t).index] ++ ascii "  ")
      (Lib.clip (size - 1) out (((k.nameOf t).getD (ascii "?")).rightpad 7 0x20#8)) =
      (Lib.clip (size - 1) out (psHead k t), decide (out.length + (psHead k t).length ≤ size - 1)) := by
    rw [ps_put_eq _ (Lib.length_clip_le ..), Lib.clip_clip, Lib.length_clip, hmid, hhead, ← psHead]
    simp only [Prod.mk.injEq, true_and, decide_eq_decide]
    omega
  unfold ps_line
  simp only [ps_name_eq _ h]
  rw [hput, hline]
  by_cases hfit : out.length + (psHead k t).length ≤ size - 1
  · rw [decide_eq_true hfit]
    simp only
    rw [ps_copy_eq _ (Lib.length_clip_le ..), Lib.clip_clip, ps_put_eq _ (Lib.length_clip_le ..),
      Lib.clip_clip, List.append_assoc, ← psText, Lib.length_clip, List.length_append]
    simp only [Prod.mk.injEq, true_and, decide_eq_decide]
    show _ + 1 ≤ _ ↔ _
    omega
  · have hfull : (Lib.clip (size - 1) out (psHead k t)).length = size - 1 := by
      rw [Lib.length_clip]
      omega
    rw [decide_eq_false hfit, psText, ← Lib.clip_clip, Lib.clip_full hfull]
    simp only [Prod.mk.injEq, true_and, Bool.false_eq, decide_eq_false_iff_not]
    omega

theorem ps_lines_eq (k : Kernel cfg) {size : Nat} (ts : List (Tid cfg)) {out : List Byte}
    (h : out.length ≤ size - 1) :
    ps_lines k size ts out = Lib.clip (size - 1) out (ts.flatMap (psText k)) := by
  induction ts generalizing out with
  | nil => exact (Lib.clip_nil h).symm
  | cons t ts ih =>
    unfold ps_lines
    rw [ps_line_eq k t h, List.flatMap_cons, ← Lib.clip_clip]
    by_cases hfit : out.length + (psText k t).length ≤ size - 1
    · rw [decide_eq_true hfit]
      exact ih (Lib.length_clip_le ..)
    · have hfull : (Lib.clip (size - 1) out (psText k t)).length = size - 1 := by
        rw [Lib.length_clip]
        omega
      rw [decide_eq_false hfit, Lib.clip_full hfull]

theorem ps_lines_length (k : Kernel cfg) (size : Nat) (ts : List (Tid cfg)) :
    (ps_lines k size ts []).length ≤ size := by
  rw [ps_lines_eq k ts (Nat.zero_le _)]
  exact (Lib.length_clip_le ..).trans (Nat.sub_le size 1)

/-! ## Every store through a user pointer stays in the user section -/

theorem read_copy_length (n : Nat) (k : Kernel cfg) : (read_copy n k).1.length ≤ n := by
  induction n generalizing k with
  | zero => exact Nat.le_refl 0
  | succ n ih =>
    unfold read_copy
    split
    · exact Nat.zero_le _
    · exact Nat.succ_le_succ (ih _)

theorem waitq_push_inUser (k : Kernel cfg) (t : Tid cfg) : ∀ o ∈ (waitq_push k t).2, o.InUser := by
  unfold waitq_push
  split_ifs <;> simp [Obs.InUser]

theorem sys_read_loop_inUser (k : Kernel cfg) {buf len : Word} (hp : valid_user_ptr buf len = true) :
    ∀ o ∈ (sys_read_loop k buf len).2.1, o.InUser := by
  have hlen := read_copy_length len.toNat k
  unfold sys_read_loop
  split
  · exact waitq_push_inUser _ _
  · rename_i heq
    rw [heq] at hlen
    intro o ho
    rcases List.mem_append.mp ho with ho | ho
    · exact stores_inUser hp hlen o ho
    · rw [List.mem_singleton.mp ho]; trivial

theorem finish_inUser (t : Tid cfg) (r : Result cfg) (h : ∀ o ∈ r.2.1, o.InUser) :
    ∀ o ∈ (finish t r).2.1, o.InUser := by
  obtain ⟨k, os, out⟩ := r
  cases out with
  | returns ret =>
    intro o ho
    rcases List.mem_append.mp ho with ho | ho
    · exact h o ho
    · rw [List.mem_singleton.mp ho]; trivial
  | sleeps buf len => exact h

theorem sys_write_inUser (k : Kernel cfg) (umem : Word → Byte) (buf len : Word) :
    ∀ o ∈ (sys_write k umem buf len).2.1, o.InUser := by
  unfold sys_write
  split
  · simp
  · intro o ho
    obtain ⟨i, -, hi⟩ := List.mem_flatMap.mp ho
    rcases List.mem_cons.mp hi with rfl | hi
    · trivial
    · unfold uart_putc at hi
      split at hi
      · rcases List.mem_cons.mp hi with rfl | hi
        · trivial
        · rw [List.mem_singleton.mp hi]; trivial
      · rw [List.mem_singleton.mp hi]; trivial

theorem sys_kill_inUser (k : Kernel cfg) (pid : Word) : ∀ o ∈ (sys_kill k pid).2.1, o.InUser := by
  unfold sys_kill
  dsimp only
  split_ifs <;> simp [Obs.InUser]

theorem syscall_table_inUser (k : Kernel cfg) (umem : Word → Byte) (num r0 r1 r2 : Word) :
    ∀ o ∈ (syscall_table k umem num r0 r1 r2).2.1, o.InUser := by
  unfold syscall_table
  split_ifs
  · exact sys_write_inUser k umem r1 r2
  · simp [sys_getpid]
  · simp [sys_yield]
  · simp [sys_exit, Obs.InUser]
  · unfold sys_read
    split_ifs with hlen hvalid
    · simp
    · simp
    · exact sys_read_loop_inUser k (by simpa using hvalid)
  · unfold sys_ps
    split_ifs with hvalid
    · simp
    · exact stores_inUser (by simpa using hvalid) (ps_lines_length k _ _)
  · exact sys_kill_inUser k r0
  · simp [sys_ticks]

theorem handle_fault_inUser (k : Kernel cfg) (f : Fault) (ctx : exception_context_t) :
    ∀ o ∈ (handle_fault k f ctx).2.1, o.InUser := by
  unfold handle_fault
  split_ifs <;> cases f <;>
    simp [Fault.report, Fault.panic, user_fault_kill, dump_context, halt_forever, Obs.InUser]

theorem handle_inUser {s : Sys cfg} (h : Rep s) (e : Event) : ∀ o ∈ (handle s.k e).2.1, o.InUser := by
  cases e with
  | irq i =>
    cases i with
    | timer => simp [handle, handle_irq, irq_dispatch]
    | spurious => simp [handle, handle_irq, irq_dispatch]
    | uart fifo =>
      intro o ho
      rcases (rx_drain_spec s.k h.rx fifo).rxOnly o ho with ⟨c, rfl⟩ | ⟨c, rfl⟩ <;> trivial
  | svc ctx umem =>
    show ∀ o ∈ (syscall_dispatch s.k umem ctx).2.1, o.InUser
    unfold syscall_dispatch
    dsimp only
    split_ifs
    · exact finish_inUser _ _ (by simp)
    · exact finish_inUser _ _ (syscall_table_inUser _ _ _ _ _ _)
  | dataAbort dfsr dfar ctx => exact handle_fault_inUser _ _ _
  | prefetchAbort ifsr ifar ctx => exact handle_fault_inUser _ _ _
  | undefined ctx => exact handle_fault_inUser _ _ _

theorem step_inUser {s s' : Sys cfg} {l : Label cfg} (h : Rep s) (hs : Step s l s') :
    ∀ o ∈ l.obs, o.InUser := by
  cases hs with
  | event e hu => exact handle_inUser h e
  | kernel hu =>
    show ∀ o ∈ (kernelStep s).2, o.InUser
    unfold kernelStep
    split
    · simp
    · simp
    · unfold call_schedule
      split <;> simp [Obs.InUser]
    · rename_i p hc
      cases p with
      | readWait buf len =>
        exact finish_inUser _ _ (sys_read_loop_inUser s.k (h.ctl buf len (Or.inr hc)).2)
      | faultTail => simp [return_to, halt_forever, Obs.InUser]
      | firstEntry => simp [return_to]
      | irqTail => simp [return_to]
      | svcTail => simp [return_to]

end CortexAOS
