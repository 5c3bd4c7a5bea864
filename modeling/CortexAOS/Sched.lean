import CortexAOS.Tables
import CortexAOS.Lib.Ring
import Mathlib.Data.Fintype.Card
import Mathlib.Data.List.Nodup
import Mathlib.Data.List.ReduceOption

/-!
# scheduler.c

`schedule` is cut where it calls `context_switch`: what happens after that call depends on the
thread that is switched in, and is in `Exception.lean`.
-/

namespace CortexAOS

open task_state_t

variable {cfg : Config}

def scheduler_tick (k : Kernel cfg) : Kernel cfg := { k with need_reschedule := true }

def scheduler_request_resched (k : Kernel cfg) : Kernel cfg := { k with need_reschedule := true }

/-! ## The wait queue -/

def waitq_push (k : Kernel cfg) (t : Tid cfg) : Kernel cfg × List (Obs cfg) :=
  if (List.range k.waitq_count).any
      (fun i => k.uart_waitq ((k.waitq_head + i) % cfg.NUM_THREADS) = some t) then
    (k, [])
  else if k.waitq_count ≥ cfg.NUM_THREADS then (k, [])
  else
    ({ k with
        uart_waitq :=
          Function.update k.uart_waitq ((k.waitq_head + k.waitq_count) % cfg.NUM_THREADS) (some t)
        waitq_count := k.waitq_count + 1 },
      [.queued t])

def waitq_pop (k : Kernel cfg) : Option (Tid cfg) × Kernel cfg :=
  if k.waitq_count = 0 then (none, k)
  else
    (k.uart_waitq k.waitq_head,
      { k with
        uart_waitq := Function.update k.uart_waitq k.waitq_head none
        waitq_head := (k.waitq_head + 1) % cfg.NUM_THREADS
        waitq_count := k.waitq_count - 1 })

/-- Up to its call of `schedule()`. -/
def scheduler_block_on_input (k : Kernel cfg) : Kernel cfg × List (Obs cfg) :=
  let k := k.setState k.current TASK_BLOCKED
  let (k, o) := waitq_push k k.current
  ({ k with need_reschedule := true }, o)

/-- The `for (;;)` of `scheduler_wake_reader`. Each round pops an entry, so `waitq_count` rounds
are enough. -/
def wake_loop : Nat → Kernel cfg → Kernel cfg
  | 0, k => k
  | n + 1, k =>
    match waitq_pop k with
    | (none, k') => k'
    | (some t, k') =>
      if k'.state t ≠ TASK_BLOCKED then wake_loop n k'
      else { k'.setState t TASK_READY with wake_hint := some t, need_reschedule := true }

def scheduler_wake_reader (k : Kernel cfg) : Kernel cfg := wake_loop k.waitq_count k

/-! ## schedule -/

/-- Up to its call of `context_switch`. -/
def perform_switch (k : Kernel cfg) (prev cand : Tid cfg) : Kernel cfg :=
  let k := { k with switch_count := k.switch_count + 1#32 }
  let k := if k.state prev = TASK_RUNNING then k.setState prev TASK_READY else k
  let k := k.setState cand TASK_RUNNING
  { k with current := cand }

def runnable (st : task_state_t) : Bool := st = TASK_READY || st = TASK_RUNNING

/-- The round-robin loop: the first other runnable thread after `prev`. -/
def sweep (k : Kernel cfg) (prev : Tid cfg) : Option (Tid cfg) :=
  let start := ((k.threads prev).tid + 1) % cfg.NUM_THREADS
  ((List.range cfg.NUM_THREADS).map fun i => wrap (start + i)).find?
    fun cand => cand ≠ prev && runnable (k.state cand)

/-- The thread that `schedule` passes to `perform_switch`, if any. -/
def pick (k : Kernel cfg) : Option (Tid cfg) :=
  match k.wake_hint with
  | some hint => if hint ≠ k.current && runnable (k.state hint) then some hint else sweep k k.current
  | none => sweep k k.current

/-- `some (prev, cand)` when it called `perform_switch(prev, cand)`. -/
def schedule (k : Kernel cfg) : Kernel cfg × Option (Tid cfg × Tid cfg) :=
  if !k.need_reschedule then (k, none)
  else
    let next := pick k
    let k := { k with need_reschedule := false, wake_hint := none }
    match next with
    | some cand => (perform_switch k k.current cand, some (k.current, cand))
    | none => (k, none)

/-! ## States -/

namespace Kernel

/-- Nothing but the states of the threads differs. -/
def withStates (k : Kernel cfg) (f : Tid cfg → task_state_t) : Kernel cfg :=
  { k with threads := fun u => { k.threads u with state := f u } }

@[simp] theorem withStates_state (k : Kernel cfg) (f : Tid cfg → task_state_t) :
    (k.withStates f).state = f := rfl

@[simp] theorem withStates_withStates (k : Kernel cfg) (f g : Tid cfg → task_state_t) :
    (k.withStates f).withStates g = k.withStates g := rfl

theorem setState_eq (k : Kernel cfg) (t : Tid cfg) (st : task_state_t) :
    k.setState t st = k.withStates fun u => if u = t then st else k.state u := by
  unfold setState withStates
  congr 1
  funext u
  by_cases h : u = t
  · subst h; simp
  · simp [h, state]

@[simp] theorem setState_state (k : Kernel cfg) (t u : Tid cfg) (st : task_state_t) :
    (k.setState t st).state u = if u = t then st else k.state u := by
  rw [setState_eq, withStates_state]

@[simp] theorem setState_processes (k : Kernel cfg) (t : Tid cfg) (st : task_state_t) :
    (k.setState t st).processes = k.processes := rfl
@[simp] theorem setState_current (k : Kernel cfg) (t : Tid cfg) (st : task_state_t) :
    (k.setState t st).current = k.current := rfl
@[simp] theorem setState_need_reschedule (k : Kernel cfg) (t : Tid cfg) (st : task_state_t) :
    (k.setState t st).need_reschedule = k.need_reschedule := rfl
@[simp] theorem setState_wake_hint (k : Kernel cfg) (t : Tid cfg) (st : task_state_t) :
    (k.setState t st).wake_hint = k.wake_hint := rfl

/-! ## The wait queue as a list -/

def queue (k : Kernel cfg) : List (Tid cfg) :=
  (Lib.Ring.contents k.uart_waitq k.waitq_head k.waitq_count cfg.NUM_THREADS).reduceOption

/-- The representation invariant of the three wait-queue variables. -/
structure QueueOk (k : Kernel cfg) : Prop where
  count_le : k.waitq_count ≤ cfg.NUM_THREADS
  head_lt : k.waitq_head < cfg.NUM_THREADS
  used : Lib.Ring.contents k.uart_waitq k.waitq_head k.waitq_count cfg.NUM_THREADS = k.queue.map some
  nodup : k.queue.Nodup
  unused : ∀ j < cfg.NUM_THREADS,
    (∀ i < k.waitq_count, Lib.Ring.slot k.waitq_head cfg.NUM_THREADS i ≠ j) → k.uart_waitq j = none

def withQueue (k : Kernel cfg) (q : Nat → Option (Tid cfg)) (head count : Nat) : Kernel cfg :=
  { k with uart_waitq := q, waitq_head := head, waitq_count := count }

@[simp] theorem setState_queue (k : Kernel cfg) (t : Tid cfg) (st : task_state_t) :
    (k.setState t st).queue = k.queue := rfl

theorem queue_frame {k k' : Kernel cfg} (hq : k'.uart_waitq = k.uart_waitq)
    (hh : k'.waitq_head = k.waitq_head) (hc : k'.waitq_count = k.waitq_count) : k'.queue = k.queue := by
  unfold queue; rw [hq, hh, hc]

theorem QueueOk.frame {k k' : Kernel cfg} (h : k.QueueOk) (hq : k'.uart_waitq = k.uart_waitq)
    (hh : k'.waitq_head = k.waitq_head) (hc : k'.waitq_count = k.waitq_count) : k'.QueueOk := by
  have he := queue_frame hq hh hc
  refine ⟨?_, ?_, ?_, ?_, ?_⟩
  · rw [hc]; exact h.count_le
  · rw [hh]; exact h.head_lt
  · rw [he, hq, hh, hc]; exact h.used
  · rw [he]; exact h.nodup
  · rw [hq, hh, hc]; exact h.unused

theorem QueueOk.length {k : Kernel cfg} (h : k.QueueOk) : k.queue.length = k.waitq_count := by
  have := congrArg List.length h.used
  simpa using this.symm

theorem QueueOk.mem_iff {k : Kernel cfg} (h : k.QueueOk) (t : Tid cfg) :
    t ∈ k.queue ↔ ∃ i < k.waitq_count, k.uart_waitq ((k.waitq_head + i) % cfg.NUM_THREADS) = some t := by
  rw [show (∃ i < k.waitq_count, k.uart_waitq ((k.waitq_head + i) % cfg.NUM_THREADS) = some t) ↔
      some t ∈ Lib.Ring.contents k.uart_waitq k.waitq_head k.waitq_count cfg.NUM_THREADS from
    Lib.Ring.mem_contents.symm, h.used]
  simp

end Kernel

open Kernel

theorem queue_room {k : Kernel cfg} (h : k.QueueOk) (t : Tid cfg) (ht : t ∉ k.queue) :
    k.waitq_count < cfg.NUM_THREADS := by
  have hn : (t :: k.queue).Nodup := List.nodup_cons.mpr ⟨ht, h.nodup⟩
  have hc := hn.length_le_card
  rw [List.length_cons, h.length, Fintype.card_fin] at hc
  omega

theorem waitq_push_mem {k : Kernel cfg} (h : k.QueueOk) (t : Tid cfg) (ht : t ∈ k.queue) :
    waitq_push k t = (k, []) := by
  unfold waitq_push
  rw [if_pos]
  simpa using (h.mem_iff t).mp ht

theorem queue_of_contents {k : Kernel cfg} {l : List (Tid cfg)}
    (h : Lib.Ring.contents k.uart_waitq k.waitq_head k.waitq_count cfg.NUM_THREADS = l.map some) :
    k.queue = l := by
  rw [Kernel.queue, h, List.reduceOption, List.filterMap_map]
  exact List.filterMap_some

theorem waitq_push_new {k : Kernel cfg} (h : k.QueueOk) (t : Tid cfg) (ht : t ∉ k.queue) :
    ∃ q n, waitq_push k t = (k.withQueue q k.waitq_head n, [.queued t]) ∧
      (k.withQueue q k.waitq_head n).QueueOk ∧
      (k.withQueue q k.waitq_head n).queue = k.queue ++ [t] := by
  have hroom := queue_room h t ht
  have hany : ¬ (List.range k.waitq_count).any
      (fun i => k.uart_waitq ((k.waitq_head + i) % cfg.NUM_THREADS) = some t) = true := by
    rw [h.mem_iff] at ht
    simpa using ht
  let q :=
    Function.update k.uart_waitq (Lib.Ring.slot k.waitq_head cfg.NUM_THREADS k.waitq_count) (some t)
  have hused : Lib.Ring.contents q k.waitq_head (k.waitq_count + 1) cfg.NUM_THREADS =
      (k.queue ++ [t]).map some := by
    rw [Lib.Ring.contents_append _ _ _ hroom, h.used, List.map_append, List.map_singleton]
  have hqueue : (k.withQueue q k.waitq_head (k.waitq_count + 1)).queue = k.queue ++ [t] :=
    queue_of_contents hused
  refine ⟨q, k.waitq_count + 1, ?_, ?_, hqueue⟩
  · unfold waitq_push
    rw [if_neg hany, if_neg (by omega)]
    rfl
  · refine ⟨hroom, h.head_lt, ?_, ?_, ?_⟩
    · rw [hqueue]; exact hused
    · rw [hqueue]
      exact List.nodup_append.mpr
        ⟨h.nodup, by simp, by simpa using fun a ha => (ne_of_mem_of_not_mem ha ht)⟩
    · intro j hj hfree
      have hne : j ≠ Lib.Ring.slot k.waitq_head cfg.NUM_THREADS k.waitq_count :=
        (hfree k.waitq_count (Nat.lt_succ_self _)).symm
      show Function.update k.uart_waitq _ (some t) j = none
      rw [Function.update_of_ne hne]
      exact h.unused j hj fun i hi => hfree i (Nat.lt_succ_of_lt hi)

theorem waitq_pop_cons {k : Kernel cfg} (h : k.QueueOk) (t : Tid cfg) (rest : List (Tid cfg))
    (hq : k.queue = t :: rest) :
    ∃ q head n, waitq_pop k = (some t, k.withQueue q head n) ∧
      (k.withQueue q head n).QueueOk ∧ (k.withQueue q head n).queue = rest := by
  have hlen := h.length
  obtain ⟨n, hn⟩ : ∃ n, k.waitq_count = n + 1 := ⟨rest.length, by rw [← hlen, hq]; rfl⟩
  have hle := h.count_le
  have hmod := Nat.mod_eq_of_lt h.head_lt
  have hsplit := h.used
  rw [hn, Lib.Ring.contents_succ, hq, List.map_cons, hmod] at hsplit
  obtain ⟨hhead, htail⟩ := List.cons.inj hsplit
  let q := Function.update k.uart_waitq k.waitq_head none
  have hused : Lib.Ring.contents q ((k.waitq_head + 1) % cfg.NUM_THREADS) n cfg.NUM_THREADS =
      rest.map some := by
    have hclear := Lib.Ring.contents_clear k.uart_waitq k.waitq_head none
      (show n < cfg.NUM_THREADS by omega)
    rw [hmod] at hclear
    rw [Lib.Ring.contents_start_mod, hclear, htail]
  have hqueue : (k.withQueue q ((k.waitq_head + 1) % cfg.NUM_THREADS) n).queue = rest :=
    queue_of_contents hused
  refine ⟨q, (k.waitq_head + 1) % cfg.NUM_THREADS, n, ?_, ?_, hqueue⟩
  · unfold waitq_pop
    rw [if_neg (by omega), hhead, hn]
    rfl
  · refine ⟨by show n ≤ _; omega, Nat.mod_lt _ cfg.num_threads_pos, ?_, ?_, ?_⟩
    · rw [hqueue]; exact hused
    · have hnodup := h.nodup
      rw [hq] at hnodup
      rw [hqueue]; exact hnodup.of_cons
    · intro j hj hfree
      show q j = none
      by_cases hjh : j = k.waitq_head
      · subst hjh; simp [q]
      · simp only [q, Function.update_of_ne hjh]
        apply h.unused j hj
        intro i hi
        cases i with
        | zero => simpa [Lib.Ring.slot, hmod] using Ne.symm hjh
        | succ i =>
          rw [Lib.Ring.slot_succ, ← Lib.Ring.slot_mod]
          exact hfree i (by show i < n; omega)

/-! ## Waking and blocking -/

/-- What `scheduler_wake_reader` does to a queue with a live thread `w` behind corpses only. -/
structure Woken (k k' : Kernel cfg) (w : Tid cfg) (rest : List (Tid cfg)) : Prop where
  found : ∃ corpses, k.queue = corpses ++ w :: rest ∧ ∀ u ∈ corpses, k.state u ≠ TASK_BLOCKED
  blocked : k.state w = TASK_BLOCKED
  eq : ∃ q head n, k' =
    { (k.withQueue q head n).setState w TASK_READY with wake_hint := some w, need_reschedule := true }
  ok : k'.QueueOk
  queue : k'.queue = rest

/-- Nobody to wake: the corpses are dropped. -/
structure Emptied (k k' : Kernel cfg) : Prop where
  corpses : ∀ u ∈ k.queue, k.state u ≠ TASK_BLOCKED
  eq : ∃ q head n, k' = k.withQueue q head n
  ok : k'.QueueOk
  queue : k'.queue = []

theorem wake_loop_spec (n : Nat) (k : Kernel cfg) (h : k.QueueOk) (hn : k.queue.length = n) :
    Emptied k (wake_loop n k) ∨ ∃ w rest, Woken k (wake_loop n k) w rest := by
  induction n generalizing k with
  | zero =>
    have hq := List.eq_nil_of_length_eq_zero hn
    exact Or.inl ⟨by simp [hq], ⟨_, _, _, rfl⟩, h, hq⟩
  | succ n ih =>
    obtain ⟨t, rest, hq⟩ := List.exists_of_length_succ _ hn
    obtain ⟨q, head, m, hpop, hok, hrest⟩ := waitq_pop_cons h t rest hq
    have hstate : (k.withQueue q head m).state t = k.state t := rfl
    unfold wake_loop
    simp only [hpop, hstate]
    by_cases hb : k.state t = TASK_BLOCKED
    · right
      rw [if_neg (by simpa using hb)]
      exact ⟨t, rest,
        ⟨⟨[], by simpa using hq, by simp⟩, hb, ⟨q, head, m, rfl⟩, hok.frame rfl rfl rfl, hrest⟩⟩
    · rw [if_pos hb]
      have hlen : (k.withQueue q head m).queue.length = n := by
        rw [hrest]; rw [hq] at hn; simpa using hn
      rcases ih _ hok hlen with he | ⟨w, rest', hw⟩
      · left
        obtain ⟨q', head', m', heq⟩ := he.eq
        refine ⟨?_, ⟨q', head', m', heq⟩, he.ok, he.queue⟩
        rw [hq]
        have hc := he.corpses
        rw [hrest] at hc
        exact List.forall_mem_cons.mpr ⟨hb, hc⟩
      · right
        obtain ⟨corpses, hf, hc⟩ := hw.found
        obtain ⟨q', head', m', heq⟩ := hw.eq
        refine ⟨w, rest', ⟨⟨t :: corpses, ?_, ?_⟩, hw.blocked, ⟨q', head', m', heq⟩, hw.ok, hw.queue⟩⟩
        · rw [hq, List.cons_append, ← hf, hrest]
        · exact List.forall_mem_cons.mpr ⟨hb, hc⟩

theorem scheduler_wake_reader_spec (k : Kernel cfg) (h : k.QueueOk) :
    Emptied k (scheduler_wake_reader k) ∨ ∃ w rest, Woken k (scheduler_wake_reader k) w rest :=
  wake_loop_spec _ k h h.length

/-- The current thread is BLOCKED and in the queue, at its end unless it was there already. -/
structure Slept (k k' : Kernel cfg) (o : List (Obs cfg)) : Prop where
  eq : ∃ q n, k' = { (k.setState k.current TASK_BLOCKED).withQueue q k.waitq_head n with
    need_reschedule := true }
  ok : k'.QueueOk
  queue : (k.current ∈ k.queue ∧ k'.queue = k.queue ∧ o = []) ∨
    (k.current ∉ k.queue ∧ k'.queue = k.queue ++ [k.current] ∧ o = [.queued k.current])

theorem scheduler_block_on_input_spec (k : Kernel cfg) (h : k.QueueOk) :
    Slept k (scheduler_block_on_input k).1 (scheduler_block_on_input k).2 := by
  have h' : (k.setState k.current TASK_BLOCKED).QueueOk := h.frame rfl rfl rfl
  unfold scheduler_block_on_input
  by_cases hm : k.current ∈ k.queue
  · have hp := waitq_push_mem h' k.current hm
    simp only [setState_current, hp]
    exact ⟨⟨k.uart_waitq, k.waitq_count, rfl⟩, h.frame rfl rfl rfl, Or.inl ⟨hm, rfl, rfl⟩⟩
  · obtain ⟨q, n, hp, hok, hq⟩ := waitq_push_new h' k.current hm
    simp only [setState_current, hp]
    exact ⟨⟨q, n, rfl⟩, hok.frame rfl rfl rfl, Or.inr ⟨hm, hq, rfl⟩⟩

/-! ## Choosing and switching -/

theorem wrap_surjective (start : Nat) (c : Tid cfg) : ∃ i < cfg.NUM_THREADS, wrap (start + i) = c := by
  have hpos := cfg.num_threads_pos
  have hc := c.isLt
  have hs := Nat.mod_lt start hpos
  refine ⟨(c.val + cfg.NUM_THREADS - start % cfg.NUM_THREADS) % cfg.NUM_THREADS, Nat.mod_lt _ hpos, ?_⟩
  apply Fin.ext
  simp only [wrap]
  rw [Nat.add_mod_mod, ← Nat.mod_add_mod,
    show start % cfg.NUM_THREADS + (c.val + cfg.NUM_THREADS - start % cfg.NUM_THREADS) =
    c.val + cfg.NUM_THREADS by omega, Nat.add_mod_right, Nat.mod_eq_of_lt hc]

theorem sweep_some {k : Kernel cfg} {prev c : Tid cfg} (h : sweep k prev = some c) :
    c ≠ prev ∧ runnable (k.state c) := by
  have := List.find?_some h
  simpa using this

theorem sweep_none {k : Kernel cfg} {prev : Tid cfg} (h : sweep k prev = none) (c : Tid cfg)
    (hc : c ≠ prev) : runnable (k.state c) = false := by
  obtain ⟨i, hi, hw⟩ := wrap_surjective (((k.threads prev).tid + 1) % cfg.NUM_THREADS) c
  have := List.find?_eq_none.mp h c (List.mem_map.mpr ⟨i, List.mem_range.mpr hi, hw⟩)
  simpa [hc] using this

theorem pick_some {k : Kernel cfg} {c : Tid cfg} (h : pick k = some c) :
    c ≠ k.current ∧ runnable (k.state c) := by
  unfold pick at h
  split at h
  · split at h
    · rename_i hint _ hr
      cases h
      simpa using hr
    · exact sweep_some h
  · exact sweep_some h

theorem pick_none {k : Kernel cfg} (h : pick k = none) (c : Tid cfg) (hc : c ≠ k.current) :
    runnable (k.state c) = false := by
  unfold pick at h
  split at h
  · split at h
    · cases h
    · exact sweep_none h c hc
  · exact sweep_none h c hc

theorem pick_hint {k : Kernel cfg} {w : Tid cfg} (hint : k.wake_hint = some w) (hne : w ≠ k.current)
    (hr : k.state w = TASK_READY) : pick k = some w := by
  unfold pick
  simp [hint, hne, hr, runnable]

theorem schedule_cases (k : Kernel cfg) :
    (k.need_reschedule = false ∧ schedule k = (k, none)) ∨
    (k.need_reschedule = true ∧ pick k = none ∧
      schedule k = ({ k with need_reschedule := false, wake_hint := none }, none)) ∨
    (∃ c, k.need_reschedule = true ∧ pick k = some c ∧
      schedule k = (perform_switch { k with need_reschedule := false, wake_hint := none } k.current c,
        some (k.current, c))) := by
  unfold schedule
  by_cases hn : k.need_reschedule = true
  · right
    cases hp : pick k with
    | none => left; simp [hn]
    | some c => right; exact ⟨c, by simp [hn]⟩
  · left
    simp only [Bool.not_eq_true] at hn
    simp [hn]

def switchStates (st : Tid cfg → task_state_t) (prev cand u : Tid cfg) : task_state_t :=
  if u = cand then TASK_RUNNING
  else if u = prev ∧ st prev = TASK_RUNNING then TASK_READY else st u

section

variable {st : Tid cfg → task_state_t} {prev cand u : Tid cfg}

@[simp] theorem switchStates_cand : switchStates st prev cand cand = TASK_RUNNING := if_pos rfl

theorem switchStates_kept (hu : u ≠ cand) (hr : u = prev → st u ≠ TASK_RUNNING) :
    switchStates st prev cand u = st u := by
  unfold switchStates
  rw [if_neg hu, if_neg]
  rintro ⟨rfl, hrun⟩
  exact hr rfl hrun

theorem switchStates_of_ne (hu : u ≠ cand) :
    ((u = prev → st u ≠ TASK_RUNNING) ∧ switchStates st prev cand u = st u) ∨
    (u = prev ∧ st u = TASK_RUNNING ∧ switchStates st prev cand u = TASK_READY) := by
  by_cases hr : u = prev → st u ≠ TASK_RUNNING
  · exact Or.inl ⟨hr, switchStates_kept hu hr⟩
  · push Not at hr
    obtain ⟨rfl, hrun⟩ := hr
    exact Or.inr ⟨rfl, hrun, (if_neg hu).trans (if_pos ⟨rfl, hrun⟩)⟩

end

theorem perform_switch_eq (k : Kernel cfg) (prev cand : Tid cfg) :
    perform_switch k prev cand = { k.withStates (switchStates k.state prev cand) with
      switch_count := k.switch_count + 1#32
      current := cand } := by
  have hk : Kernel.state { k with switch_count := k.switch_count + 1#32 } = k.state := rfl
  unfold perform_switch
  by_cases hr : k.state prev = TASK_RUNNING
  · simp only [hk, hr, if_true, setState_eq, withStates_state, withStates_withStates]
    simp only [Kernel.withStates, switchStates, hr, and_true]
  · simp only [hk, hr, if_false, setState_eq]
    simp only [Kernel.withStates, switchStates, hr, and_false, if_false]

end CortexAOS
