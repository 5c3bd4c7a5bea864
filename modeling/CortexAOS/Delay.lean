import CortexAOS.Exception
import Mathlib.Algebra.Ring.Nat
import Mathlib.Logic.Function.Iterate

/-!
# ulib_delay_ticks, and the counter that it waits on

`tick_count` has 32 bits and wraps. The number of calls of `timer_tick` does not.
-/

namespace CortexAOS

open Kernel task_state_t

variable {cfg : Config}

/-! ## The counter in the system -/

section

variable (k : Kernel cfg)

@[simp] theorem setState_tick_count (t : Tid cfg) (st : task_state_t) :
    (k.setState t st).tick_count = k.tick_count := rfl

@[simp] theorem resched_tick_count : (scheduler_request_resched k).tick_count = k.tick_count := rfl

@[simp] theorem timer_tick_count : (timer_tick k).tick_count = k.tick_count + 1#32 := rfl

@[simp] theorem retire_tick_count (p : Pid cfg) : (k.retire p).tick_count = k.tick_count := by
  unfold retire
  rw [kill_loop]
  rfl

@[simp] theorem waitq_push_tick_count (t : Tid cfg) : (waitq_push k t).1.tick_count = k.tick_count := by
  unfold waitq_push
  split_ifs <;> rfl

@[simp] theorem waitq_pop_tick_count : (waitq_pop k).2.tick_count = k.tick_count := by
  unfold waitq_pop
  split_ifs <;> rfl

@[simp] theorem block_tick_count : (scheduler_block_on_input k).1.tick_count = k.tick_count :=
  waitq_push_tick_count (k.setState k.current TASK_BLOCKED) k.current

theorem wake_loop_tick_count (n : Nat) : (wake_loop n k).tick_count = k.tick_count := by
  induction n generalizing k with
  | zero => rfl
  | succ n ih =>
    have hpop := waitq_pop_tick_count k
    unfold wake_loop
    rcases hr : waitq_pop k with ⟨_ | t, k'⟩ <;> rw [hr] at hpop
    · exact hpop
    · simp only
      split_ifs
      · rw [ih, hpop]
      · exact hpop

theorem rx_drain_tick_count (fifo : List Byte) : (rx_drain k fifo).1.tick_count = k.tick_count := by
  induction fifo generalizing k with
  | nil => rfl
  | cons c cs ih =>
    have hpush : (uart_rx_push k c).1.tick_count = k.tick_count := by
      unfold uart_rx_push
      simp only
      split_ifs <;> rfl
    exact (ih _).trans hpush

theorem read_copy_tick_count (n : Nat) : (read_copy n k).2.tick_count = k.tick_count := by
  induction n generalizing k with
  | zero => rfl
  | succ n ih =>
    have hpop : (uart_rx_pop k).2.tick_count = k.tick_count := by
      unfold uart_rx_pop
      split_ifs <;> rfl
    unfold read_copy
    rcases hr : uart_rx_pop k with ⟨_ | c, k'⟩ <;> rw [hr] at hpop
    · exact hpop
    · exact (ih k').trans hpop

@[simp] theorem read_loop_tick_count (buf len : Word) :
    (sys_read_loop k buf len).1.tick_count = k.tick_count := by
  have hcopy := read_copy_tick_count k len.toNat
  unfold sys_read_loop
  rcases hr : read_copy len.toNat k with ⟨_ | ⟨c, cs⟩, k'⟩ <;> rw [hr] at hcopy
  · simpa using hcopy
  · exact hcopy

theorem syscall_table_tick_count (umem : Word → Byte) (num r0 r1 r2 : Word) :
    (syscall_table k umem num r0 r1 r2).1.tick_count = k.tick_count := by
  unfold syscall_table
  split_ifs
  · unfold sys_write
    split_ifs <;> rfl
  · rfl
  · rfl
  · rfl
  · unfold sys_read
    split_ifs <;> simp
  · unfold sys_ps
    split_ifs <;> rfl
  · unfold sys_kill
    split_ifs
    · simp only
      split_ifs <;> simp
    · rfl
  · rfl

theorem finish_kernel (t : Tid cfg) (r : Result cfg) : (finish t r).1 = r.1 := by
  rcases r with ⟨k', o, ret | ⟨buf, len⟩⟩ <;> rfl

@[simp] theorem svc_tick_count (umem : Word → Byte) (ctx : exception_context_t) :
    (handle_svc k umem ctx).1.tick_count = k.tick_count := by
  show (syscall_dispatch k umem ctx).1.tick_count = _
  unfold syscall_dispatch
  simp only
  split_ifs
  · rw [finish_kernel]
  · rw [finish_kernel, syscall_table_tick_count]

@[simp] theorem fault_tick_count (f : Fault) (ctx : exception_context_t) :
    (handle_fault k f ctx).1.tick_count = k.tick_count := by
  unfold handle_fault
  split_ifs
  · exact retire_tick_count k _
  · rfl

theorem schedule_tick_count : (schedule k).1.tick_count = k.tick_count := by
  unfold schedule
  split_ifs
  · rfl
  · simp only
    split
    · simp only [perform_switch]
      split_ifs <;> rfl
    · rfl

end

def Label.ticked (l : Label cfg) : Bool :=
  match l.ev with
  | some (.irq .timer) => true
  | _ => false

theorem handle_tick_count (k : Kernel cfg) (e : Event) (o : List (Obs cfg)) :
    (handle k e).1.tick_count = k.tick_count + if Label.ticked (⟨some e, o⟩ : Label cfg) then 1#32
      else 0#32 := by
  rcases e with (_ | fifo | _) | ⟨ctx, umem⟩ | ⟨dfsr, dfar, ctx⟩ | ⟨ifsr, ifar, ctx⟩ | ctx
  · rfl
  · simp only [Label.ticked, Bool.false_eq_true, if_false, BitVec.add_zero]
    exact (wake_loop_tick_count _ _).trans (rx_drain_tick_count k fifo)
  all_goals simp only [Label.ticked, Bool.false_eq_true, if_false, BitVec.add_zero]
  · rfl
  · exact svc_tick_count k umem ctx
  · exact fault_tick_count k _ ctx
  · exact fault_tick_count k _ ctx
  · exact fault_tick_count k _ ctx

theorem kernelStep_tick_count (s : Sys cfg) : (kernelStep s).1.k.tick_count = s.k.tick_count := by
  unfold kernelStep
  split
  · rfl
  · rfl
  · unfold call_schedule
    have hsched := schedule_tick_count s.k
    rcases hr : schedule s.k with ⟨k', _ | ⟨prev, cand⟩⟩ <;> rw [hr] at hsched <;> exact hsched
  · unfold return_to
    split
    · rfl
    · rfl
    · rfl
    · simp [read_again, finish_kernel]
    · rfl

theorem step_tick_count {s s' : Sys cfg} {l : Label cfg} (h : Step s l s') :
    s'.k.tick_count = s.k.tick_count + if l.ticked then 1#32 else 0#32 := by
  cases h with
  | event e h => exact handle_tick_count s.k e _
  | kernel h => simp [Label.ticked, kernelStep_tick_count]

/-- Every run of the system: only the timer moves the counter, by one each time. -/
theorem run_tick_count {s s' : Sys cfg} {tr : List (Label cfg)} (h : Lib.Run Step s tr s') :
    s'.k.tick_count = s.k.tick_count + BitVec.ofNat 32 (tr.countP Label.ticked) := by
  refine h.history
    (I := fun tr u => u.k.tick_count = s.k.tick_count + BitVec.ofNat 32 (tr.countP Label.ticked))
    ?_ (by simp)
  intro tr t l u ih hs
  rw [step_tick_count hs, ih, List.countP_append, BitVec.ofNat_add, BitVec.add_assoc]
  congr 2
  cases hl : l.ticked <;> simp [hl]

/-! ## ulib_delay_ticks -/

/-- The `while`, on what the calls of `sys_ticks` return from now on: how often it calls `sys_yield`.
`none` is a loop that has not come to its end with the last of them. -/
def delay_loop (start ticks : Word) : List Word → Option Nat
  | [] => none
  | now :: samples =>
      if now - start < ticks then (delay_loop start ticks samples).map (· + 1) else some 0

def ulib_delay_ticks (ticks : Word) : List Word → Option Nat
  | [] => none
  | start :: samples => delay_loop start ticks samples

def ticksAfter (k : Kernel cfg) (n : Nat) : Word := (timer_tick^[n] k).tick_count

theorem ticksAfter_eq (k : Kernel cfg) (n : Nat) :
    ticksAfter k n = k.tick_count + BitVec.ofNat 32 n := by
  induction n with
  | zero => simp [ticksAfter]
  | succ n ih =>
    rw [ticksAfter, Function.iterate_succ_apply', timer_tick_count]
    rw [ticksAfter] at ih
    rw [ih, BitVec.ofNat_add, BitVec.add_assoc]

/-- The difference of two samples is the true count between them, modulo 2^32. -/
theorem elapsed (t0 : Word) {first c : Nat} (h : first ≤ c) :
    ((t0 + BitVec.ofNat 32 c) - (t0 + BitVec.ofNat 32 first)).toNat = (c - first) % 2 ^ 32 := by
  rw [BitVec.toNat_sub, BitVec.toNat_add, BitVec.toNat_add, BitVec.toNat_ofNat, BitVec.toNat_ofNat]
  omega

theorem delay_loop_eq (k : Kernel cfg) (ticks : Word) (first : Nat) (obs : List Nat)
    (h : ∀ c ∈ obs, first ≤ c) :
    delay_loop (ticksAfter k first) ticks (obs.map (ticksAfter k)) =
      obs.findIdx? fun c => ticks.toNat ≤ (c - first) % 2 ^ 32 := by
  induction obs with
  | nil => rfl
  | cons c obs ih =>
    have hc := elapsed k.tick_count (h c (by simp))
    rw [← ticksAfter_eq, ← ticksAfter_eq] at hc
    have hlt : ticksAfter k c - ticksAfter k first < ticks ↔ ¬ ticks.toNat ≤ (c - first) % 2 ^ 32 := by
      rw [BitVec.lt_def, hc, Nat.not_le]
    rw [List.map_cons, delay_loop, List.findIdx?_cons, ih fun d hd => h d (by simp [hd])]
    by_cases hle : ticks.toNat ≤ (c - first) % 2 ^ 32
    · rw [if_neg fun hn => hlt.mp hn hle, if_pos (by simpa using hle)]
    · rw [if_pos (hlt.mpr hle), if_neg (by simpa using hle)]

/-- From any value of the counter, whatever the samples skip: the loop ends with the first sample
whose true distance from the start, modulo 2^32, is `ticks` or more. -/
theorem delay_ticks_exact (k : Kernel cfg) (ticks : Word) (first : Nat) (obs : List Nat)
    (h : (first :: obs).Pairwise (· ≤ ·)) :
    ulib_delay_ticks ticks ((first :: obs).map (ticksAfter k)) =
      obs.findIdx? (fun c => ticks.toNat ≤ (c - first) % 2 ^ 32) ∧
    (∀ m, ulib_delay_ticks ticks ((first :: obs).map (ticksAfter k)) = some m →
      ∃ c, obs[m]? = some c ∧ ticks.toNat ≤ c - first) ∧
    (∀ i c, obs[i]? = some c → ticks.toNat ≤ c - first → c - first < 2 ^ 32 →
      ∃ m ≤ i, ulib_delay_ticks ticks ((first :: obs).map (ticksAfter k)) = some m) := by
  have heq : ulib_delay_ticks ticks ((first :: obs).map (ticksAfter k)) =
      obs.findIdx? (fun c => ticks.toNat ≤ (c - first) % 2 ^ 32) :=
    delay_loop_eq k ticks first obs (List.pairwise_cons.mp h).1
  refine ⟨heq, ?_, ?_⟩
  · intro m hm
    rw [heq] at hm
    obtain ⟨hlt, hexit, -⟩ := List.findIdx?_eq_some_iff_getElem.mp hm
    have hle : ticks.toNat ≤ (obs[m] - first) % 2 ^ 32 := by simpa using hexit
    exact ⟨obs[m], List.getElem?_eq_getElem hlt, hle.trans (Nat.mod_le _ _)⟩
  · intro i c hi hticks hwrap
    rw [heq]
    obtain ⟨hlt, rfl⟩ := List.getElem?_eq_some_iff.mp hi
    have hexit : ticks.toNat ≤ (obs[i] - first) % 2 ^ 32 := by rwa [Nat.mod_eq_of_lt hwrap]
    cases hf : obs.findIdx? (fun c => ticks.toNat ≤ (c - first) % 2 ^ 32) with
    | none =>
        exact absurd hexit (by simpa using List.findIdx?_eq_none_iff.mp hf obs[i] (List.getElem_mem hlt))
    | some m =>
      refine ⟨m, ?_, rfl⟩
      by_contra hmi
      obtain ⟨hm, -, hbefore⟩ := List.findIdx?_eq_some_iff_getElem.mp hf
      have hnot := hbefore i (by omega)
      simp only [decide_eq_true_eq] at hnot
      exact hnot hexit

theorem delay_ticks_exact_wrap :
    let k : Kernel demo := { boot demo with tick_count := 0xFFFFFFFE#32 }
    [0, 1, 3, 6, 7].map (ticksAfter k) = [0xFFFFFFFE#32, 0xFFFFFFFF#32, 1#32, 4#32, 5#32] ∧
      ulib_delay_ticks 6#32 ([0, 1, 3, 6, 7].map (ticksAfter k)) = some 2 := by
  refine ⟨by simp [ticksAfter_eq], ?_⟩
  exact (delay_ticks_exact _ 6#32 0 [1, 3, 6, 7] (by decide)).1.trans (by decide)

/-- Over a run of the whole system, from one `sys_ticks` to another: the `while` does not end
with a sample before `ticks` timer interrupts have come. -/
theorem delay_run {s s' : Sys cfg} {tr : List (Label cfg)} (h : Lib.Run Step s tr s') (ticks : Word)
    (hexit : ¬ s'.k.tick_count - s.k.tick_count < ticks) : ticks.toNat ≤ tr.countP Label.ticked := by
  have hdiff := elapsed s.k.tick_count (Nat.zero_le (tr.countP Label.ticked))
  rw [← run_tick_count h, BitVec.add_zero, Nat.sub_zero] at hdiff
  rw [BitVec.lt_def, hdiff] at hexit
  exact (Nat.le_of_not_lt hexit).trans (Nat.mod_le _ _)

end CortexAOS
