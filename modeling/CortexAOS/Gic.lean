import CortexAOS.Exception

/-!
# gicv1.c and intc_core.c: the interrupt path of the QEMU board

The system of `Exception.lean`, with the interrupt controller in it: what its CPU interface returns
from IAR is an input, and what is written to EOIR is seen.
-/

namespace CortexAOS.Gic

variable {cfg : Config}

def MAX_IRQS : Nat := 128
def GIC_SPURIOUS : Word := 1023#32

/-- The functions that `kmain` registers. -/
inductive irq_handler_t where
  | timer_irq
  | uart_rx_irq
  deriving DecidableEq

abbrev IrqTable := Fin MAX_IRQS → Option irq_handler_t

def irq_register (irq_table : IrqTable) (irq : Word) (fn : irq_handler_t) : IrqTable :=
  if h : irq.toNat < MAX_IRQS then Function.update irq_table ⟨irq.toNat, h⟩ (some fn) else irq_table

def IRQ_TIMER : Word := 36#32
def IRQ_UART0 : Word := 44#32

def kmainTable : IrqTable :=
  irq_register (irq_register (fun _ => none) IRQ_TIMER .timer_irq) IRQ_UART0 .uart_rx_irq

/-- Through `sp804_irq` and `pl011_rx_irq`. -/
def irq_handler_t.run (k : Kernel cfg) (fifo : List Byte) : irq_handler_t → Kernel cfg × List (Obs cfg)
  | .timer_irq => (timer_tick k, [])
  | .uart_rx_irq => CortexAOS.uart_rx_irq k fifo

inductive IrqObs (cfg : Config) where
  /-- IAR has been read. -/
  | ack (iar : Word)
  | called (h : irq_handler_t)
  /-- EOIR has been written. -/
  | eoi (id : Word)
  | kernel (o : Obs cfg)

def gicv1_get_active (iar : Word) : Word :=
  let id := iar &&& 0x3FF#32
  if id ≥ GIC_SPURIOUS then BitVec.ofNat 32 MAX_IRQS else id

def gicv1_eoi (irq : Word) : Word := if irq.toNat ≥ MAX_IRQS then GIC_SPURIOUS else irq

/-- `n < MAX_IRQS && irq_table[n]`. -/
def handlerOf (irq_table : IrqTable) (n : Word) : Option irq_handler_t :=
  if h : n.toNat < MAX_IRQS then irq_table ⟨n.toNat, h⟩ else none

/-- `fifo` is what the console chip holds, in case its handler is called. -/
def irq_dispatch (irq_table : IrqTable) (k : Kernel cfg) (iar : Word) (fifo : List Byte) :
    Kernel cfg × List (IrqObs cfg) :=
  let n := gicv1_get_active iar
  match handlerOf irq_table n with
  | some h =>
      ((h.run k fifo).1, [.ack iar, .called h] ++ (h.run k fifo).2.map .kernel ++ [.eoi (gicv1_eoi n)])
  | none => (k, [.ack iar, .eoi (gicv1_eoi n)])

/-- A step of the system on this board: an interrupt, or what `Step` has for everything else. -/
inductive GStep (irq_table : IrqTable) : Sys cfg → List (IrqObs cfg) → Sys cfg → Prop
  | irq {s : Sys cfg} (iar : Word) (fifo : List Byte) (h : s.ctl = .user) :
      GStep irq_table s (irq_dispatch irq_table s.k iar fifo).2
        { s with k := (irq_dispatch irq_table s.k iar fifo).1, ctl := .sched .irqTail }
  | other {s s' : Sys cfg} {l : Label cfg} (hs : Step s l s') (hne : ∀ i, l.ev ≠ some (.irq i)) :
      GStep irq_table s (l.obs.map .kernel) s'

/-! ## The same system -/

/-- The interrupt that a value of IAR stands for. -/
def classify (irq_table : IrqTable) (iar : Word) (fifo : List Byte) : Irq :=
  match handlerOf irq_table (gicv1_get_active iar) with
  | some .timer_irq => .timer
  | some .uart_rx_irq => .uart fifo
  | none => .spurious

def IrqObs.kernel? : IrqObs cfg → Option (Obs cfg)
  | .kernel o => some o
  | _ => none

theorem kernel?_map (os : List (Obs cfg)) : (os.map IrqObs.kernel).filterMap IrqObs.kernel? = os := by
  rw [List.filterMap_map]
  exact List.filterMap_some

theorem irq_dispatch_classify (irq_table : IrqTable) (k : Kernel cfg) (iar : Word) (fifo : List Byte) :
    (irq_dispatch irq_table k iar fifo).1 = (CortexAOS.irq_dispatch k (classify irq_table iar fifo)).1 ∧
      (irq_dispatch irq_table k iar fifo).2.filterMap IrqObs.kernel? =
        (CortexAOS.irq_dispatch k (classify irq_table iar fifo)).2 := by
  unfold irq_dispatch classify
  dsimp only
  rcases handlerOf irq_table (gicv1_get_active iar) with _ | _ | _
  · exact ⟨rfl, rfl⟩
  · exact ⟨rfl, rfl⟩
  · refine ⟨rfl, ?_⟩
    simp only [List.filterMap_append, kernel?_map]
    exact List.append_nil _

/-- With any table, the board does nothing that the system of `Exception.lean` does not. -/
theorem GStep.step {irq_table : IrqTable} {s s' : Sys cfg} {os : List (IrqObs cfg)}
    (h : GStep irq_table s os s') : ∃ l, Step s l s' ∧ l.obs = os.filterMap IrqObs.kernel? := by
  cases h with
  | irq iar fifo h =>
    obtain ⟨h1, h2⟩ := irq_dispatch_classify irq_table s.k iar fifo
    refine ⟨⟨some (.irq (classify irq_table iar fifo)), _⟩, ?_, h2.symm⟩
    rw [h1]
    exact Step.event (.irq (classify irq_table iar fifo)) h
  | other hs hne => exact ⟨_, hs, (kernel?_map _).symm⟩

theorem run_step {irq_table : IrqTable} {s s' : Sys cfg} {tr : List (List (IrqObs cfg))}
    (h : Lib.Run (GStep irq_table) s tr s') : ∃ tr', Lib.Run Step s tr' s' := by
  induction h with
  | refl => exact ⟨[], .refl⟩
  | snoc _ hs ih =>
    obtain ⟨tr', hr⟩ := ih
    obtain ⟨l, hl, -⟩ := hs.step
    exact ⟨_, hr.snoc hl⟩

/-! ## Acknowledge and end of interrupt -/

/-- Where a trace stands: the interrupt that is active, and the handlers it still has to call. -/
inductive Pending where
  | idle
  | active (id : Word) (handlers : List irq_handler_t)
  deriving DecidableEq

def isSwitch : Obs cfg → Bool
  | .switched .. => true
  | _ => false

def Pending.next (irq_table : IrqTable) : Pending → IrqObs cfg → Option Pending
  | .idle, .ack iar => some (.active (iar &&& 0x3FF#32) (handlerOf irq_table (iar &&& 0x3FF#32)).toList)
  | .idle, .kernel _ => some .idle
  | .active id (h :: hs), .called h' => if h' = h then some (.active id hs) else none
  | .active id hs, .kernel o => if isSwitch o then none else some (.active id hs)
  | .active id [], .eoi id' => if id' = id then some .idle else none
  | _, _ => none

/-- Every acknowledged id is written to EOIR before the next one is read, after its handler has been
called, once, if it has one; no other handler is called, and no thread is switched in between. -/
def Matched (irq_table : IrqTable) (tr : List (IrqObs cfg)) : Prop :=
  tr.foldlM (Pending.next irq_table) Pending.idle = some Pending.idle

instance (irq_table : IrqTable) (tr : List (IrqObs cfg)) : Decidable (Matched irq_table tr) :=
  inferInstanceAs (Decidable (_ = _))

/-- The ids that have a number in the table, and the spurious one. -/
def Covered (iar : Word) : Prop := (iar &&& 0x3FF#32).toNat < MAX_IRQS ∨ iar &&& 0x3FF#32 = GIC_SPURIOUS

instance (iar : Word) : Decidable (Covered iar) := inferInstanceAs (Decidable (_ ∨ _))

theorem id_lt (iar : Word) : (iar &&& 0x3FF#32).toNat < 1024 := by
  have h := Nat.and_le_right (n := iar.toNat) (m := 0x3FF)
  rw [BitVec.toNat_and]
  exact Nat.lt_succ_of_le h

theorem handlerOf_get_active (irq_table : IrqTable) (iar : Word) :
    handlerOf irq_table (gicv1_get_active iar) = handlerOf irq_table (iar &&& 0x3FF#32) := by
  unfold gicv1_get_active
  dsimp only
  split_ifs with h
  · have hlarge : ¬ (iar &&& 0x3FF#32).toNat < MAX_IRQS := by
      rw [ge_iff_le, BitVec.le_def] at h
      exact Nat.not_lt.mpr (Nat.le_trans (by decide) h)
    rw [handlerOf, handlerOf, dif_neg hlarge, dif_neg (by decide)]
  · rfl

/-- `gicv1_eoi` gets the id back from `gicv1_get_active` if it is one of these, and not otherwise. -/
theorem eoi_get_active (iar : Word) : gicv1_eoi (gicv1_get_active iar) = iar &&& 0x3FF#32 ↔
    Covered iar := by
  have hlt := id_lt iar
  unfold Covered gicv1_eoi gicv1_get_active
  dsimp only
  split_ifs with h1 h2 h2
  · have heq : iar &&& 0x3FF#32 = GIC_SPURIOUS := by
      rw [ge_iff_le, BitVec.le_def] at h1
      apply BitVec.eq_of_toNat_eq
      have hs : GIC_SPURIOUS.toNat = 1023 := by decide
      omega
    simp [heq]
  · exact absurd (show MAX_IRQS ≤ (BitVec.ofNat 32 MAX_IRQS).toNat by decide) h2
  · constructor
    · exact fun h => Or.inr h.symm
    · rintro (h | h)
      · exact absurd h2 (Nat.not_le.mpr h)
      · exact h.symm
  · exact ⟨fun _ => Or.inl (Nat.not_le.mp h2), fun _ => rfl⟩

/-! ## Handlers only raise flags -/

theorem rx_drain_no_switch (k : Kernel cfg) (fifo : List Byte) :
    ∀ o ∈ (rx_drain k fifo).2, isSwitch o = false := by
  induction fifo generalizing k with
  | nil => simp [rx_drain]
  | cons c cs ih =>
    intro o ho
    simp only [rx_drain, List.mem_append] at ho
    rcases ho with ho | ho
    · unfold uart_rx_push at ho
      simp only at ho
      split_ifs at ho <;> rw [List.mem_singleton] at ho <;> rw [ho] <;> rfl
    · exact ih _ o ho

theorem run_no_switch (k : Kernel cfg) (fifo : List Byte) (h : irq_handler_t) :
    ∀ o ∈ (h.run k fifo).2, isSwitch o = false := by
  cases h with
  | timer_irq => simp [irq_handler_t.run]
  | uart_rx_irq => exact rx_drain_no_switch k fifo

theorem idle_kernel (irq_table : IrqTable) (os : List (Obs cfg)) :
    (os.map IrqObs.kernel).foldlM (Pending.next irq_table) Pending.idle = some .idle := by
  induction os with
  | nil => rfl
  | cons o os ih => exact ih

theorem active_kernel (irq_table : IrqTable) (id : Word) (hs : List irq_handler_t) (os : List (Obs cfg))
    (h : ∀ o ∈ os, isSwitch o = false) :
    (os.map IrqObs.kernel).foldlM (Pending.next irq_table) (Pending.active id hs) =
      some (.active id hs) := by
  induction os with
  | nil => rfl
  | cons o os ih =>
    rw [List.map_cons, List.foldlM_cons, Pending.next, h o (by simp)]
    exact ih fun o' ho' => h o' (by simp [ho'])

theorem dispatch_next (irq_table : IrqTable) (k : Kernel cfg) (iar : Word) (fifo : List Byte) :
    (irq_dispatch irq_table k iar fifo).2.foldlM (Pending.next irq_table) Pending.idle =
      if Covered iar then some .idle else none := by
  have hhandler := handlerOf_get_active irq_table iar
  unfold irq_dispatch
  simp only
  rcases hh : handlerOf irq_table (gicv1_get_active iar) with _ | h
  · rw [hh] at hhandler
    simp [Pending.next, ← hhandler, eoi_get_active]
  · rw [hh] at hhandler
    have hrun := active_kernel irq_table (iar &&& 0x3FF#32) [] _ (run_no_switch k fifo h)
    simp [Pending.next, ← hhandler, hrun, eoi_get_active]

/-! ## Every run -/

theorem ack_of_dispatch {irq_table : IrqTable} {k : Kernel cfg} {iar iar' : Word} {fifo : List Byte}
    (h : IrqObs.ack iar' ∈ (irq_dispatch irq_table k iar fifo).2) : iar' = iar := by
  unfold irq_dispatch at h
  simp only at h
  rcases hh : handlerOf irq_table (gicv1_get_active iar) with _ | f <;> simp [hh] at h <;> exact h

theorem ack_mem_dispatch (irq_table : IrqTable) (k : Kernel cfg) (iar : Word) (fifo : List Byte) :
    IrqObs.ack iar ∈ (irq_dispatch irq_table k iar fifo).2 := by
  unfold irq_dispatch
  simp only
  rcases handlerOf irq_table (gicv1_get_active iar) with _ | f <;> simp

theorem step_next {irq_table : IrqTable} {s s' : Sys cfg} {os : List (IrqObs cfg)}
    (h : GStep irq_table s os s') :
    (∀ iar, .ack iar ∈ os → Covered iar) ∧ os.foldlM (Pending.next irq_table) Pending.idle = some .idle ∨
      (¬ ∀ iar, .ack iar ∈ os → Covered iar) ∧
      os.foldlM (Pending.next irq_table) Pending.idle = none := by
  cases h with
  | irq iar fifo h =>
    rw [dispatch_next]
    by_cases hc : Covered iar
    · exact .inl ⟨fun iar' hm => by rw [ack_of_dispatch hm]; exact hc, if_pos hc⟩
    · exact .inr ⟨fun hall => hc (hall iar (ack_mem_dispatch irq_table s.k iar fifo)), if_neg hc⟩
  | other hs hne => exact .inl ⟨by simp, idle_kernel irq_table _⟩

theorem run_next {irq_table : IrqTable} {s s' : Sys cfg} {tr : List (List (IrqObs cfg))}
    (h : Lib.Run (GStep irq_table) s tr s') :
    (∀ iar, .ack iar ∈ tr.flatten → Covered iar) ∧
        tr.flatten.foldlM (Pending.next irq_table) Pending.idle = some .idle ∨
      (¬ ∀ iar, .ack iar ∈ tr.flatten → Covered iar) ∧
        tr.flatten.foldlM (Pending.next irq_table) Pending.idle = none := by
  induction h with
  | refl => exact .inl ⟨by simp, rfl⟩
  | @snoc tr t u os h hs ih =>
    rw [List.flatten_append, List.flatten_singleton, List.foldlM_append]
    simp only [List.mem_append, or_imp, forall_and]
    rcases ih with ⟨hall, hidle⟩ | ⟨hnot, hnone⟩
    · rw [hidle]
      rcases step_next hs with ⟨hall', hidle'⟩ | ⟨hnot', hnone'⟩
      · exact .inl ⟨⟨hall, hall'⟩, hidle'⟩
      · exact .inr ⟨fun hc => hnot' hc.2, hnone'⟩
    · rw [hnone]
      exact .inr ⟨fun hc => hnot hc.1, rfl⟩

/-- Every run on the GIC board: interrupts are acknowledged and ended in pairs if and only if no id
that is read lies between `MAX_IRQS` and the spurious one. -/
theorem irq_matched_iff {irq_table : IrqTable} {s s' : Sys cfg} {tr : List (List (IrqObs cfg))}
    (h : Lib.Run (GStep irq_table) s tr s') :
    Matched irq_table tr.flatten ↔ ∀ iar, .ack iar ∈ tr.flatten → Covered iar := by
  unfold Matched
  rcases run_next h with ⟨hall, hidle⟩ | ⟨hnot, hnone⟩
  · exact ⟨fun _ => hall, fun _ => hidle⟩
  · rw [hnone]
    exact ⟨fun h => (by cases h), fun hall => absurd hall hnot⟩

theorem irq_matched_timer : ∃ tr s', Lib.Run (GStep kmainTable) (start demo) tr s' ∧
    IrqObs.ack IRQ_TIMER ∈ tr.flatten ∧ Matched kmainTable tr.flatten := by
  have h1 : GStep kmainTable (start demo) _ _ := .other (.kernel (by decide)) (by simp)
  have h2 : GStep kmainTable (kernelStep (start demo)).1 _ _ := .irq IRQ_TIMER [] rfl
  have hrun := (Lib.Run.single h1).snoc h2
  refine ⟨_, _, hrun, by simp [ack_mem_dispatch], (irq_matched_iff hrun).mpr ?_⟩
  intro iar hm
  simp only [List.flatten_append, List.flatten_singleton, List.mem_append, List.mem_map,
    reduceCtorEq, and_false, exists_false, false_or] at hm
  rw [ack_of_dispatch hm]
  decide

/-- The GIC hands out line 200: it is never ended, the spurious id is. -/
theorem line_200_not_ended : ∃ tr s', Lib.Run (GStep kmainTable) (start demo) tr s' ∧
    tr.flatten.filter (fun o => o.kernel?.isNone) = [.ack 200#32, .eoi 1023#32] ∧
    ¬ Matched kmainTable tr.flatten := by
  have h1 : GStep kmainTable (start demo) _ _ := .other (.kernel (by decide)) (by simp)
  have h2 : GStep kmainTable (kernelStep (start demo)).1 _ _ := .irq 200#32 [] rfl
  exact ⟨_, _, (Lib.Run.single h1).snoc h2, rfl, by decide⟩

end CortexAOS.Gic
