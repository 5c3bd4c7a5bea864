import CortexAOS.Exception

/-!
# pl011.c, one register access at a time

The chip latches its receive status when a byte comes in, and `pl011_rx_irq` clears it after it has
drained the FIFO. Bytes may come in between any two of its accesses.
-/

namespace CortexAOS

variable {cfg : Config}

/-! ## The chip -/

def PL011_FR_RXFE : Word := 1#32 <<< 4
def PL011_INT_RX : Word := 1#32 <<< 4
def PL011_INT_RT : Word := 1#32 <<< 6

/-- The receive side: `ris` is the latched status and `imsc` the mask over it. -/
structure Pl011 where
  fifo : List Byte
  ris : Word
  imsc : Word

namespace Pl011

def arrive (d : Pl011) (c : Byte) : Pl011 :=
  { d with fifo := d.fifo ++ [c], ris := d.ris ||| PL011_INT_RX }

def readFr (d : Pl011) : Word := if d.fifo = [] then PL011_FR_RXFE else 0#32

def writeIcr (d : Pl011) (w : Word) : Pl011 := { d with ris := d.ris &&& ~~~w }

def latched (d : Pl011) : Bool := d.ris &&& PL011_INT_RX ≠ 0#32

end Pl011

/-- What `pl011_init` leaves in a chip that has received nothing. -/
def pl011_init : Pl011 := ⟨[], 0#32, PL011_INT_RX ||| PL011_INT_RT⟩

/-! ## The driver -/

/-- The next access of `pl011_rx_irq`; `idle` is outside of it. -/
inductive RxPc where
  | idle
  | poll
  | data
  | ack
  | wake
  deriving DecidableEq

structure RxSys (cfg : Config) where
  dev : Pl011
  pc : RxPc
  k : Kernel cfg

inductive RxLabel where
  | arrive (c : Byte)
  /-- `irq_dispatch` has called the handler. -/
  | irq
  | fr
  | dr (c : Byte)
  | icr
  /-- `scheduler_wake_reader()`, and back. -/
  | ret
  deriving DecidableEq

inductive RxStep : RxSys cfg → RxLabel → RxSys cfg → Prop
  | arrive {s : RxSys cfg} (c : Byte) : RxStep s (.arrive c) { s with dev := s.dev.arrive c }
  | irq {s : RxSys cfg} (h : s.pc = .idle) (hline : s.dev.ris &&& s.dev.imsc ≠ 0#32) :
      RxStep s .irq { s with pc := .poll }
  | fr {s : RxSys cfg} (h : s.pc = .poll) :
      RxStep s .fr { s with pc := if s.dev.readFr &&& PL011_FR_RXFE = 0#32 then .data else .ack }
  | dr {s : RxSys cfg} {c : Byte} {cs : List Byte} (h : s.pc = .data) (hfifo : s.dev.fifo = c :: cs) :
      RxStep s (.dr c) { dev := { s.dev with fifo := cs }, pc := .poll, k := (uart_rx_push s.k c).1 }
  | icr {s : RxSys cfg} (h : s.pc = .ack) :
      RxStep s .icr { s with dev := s.dev.writeIcr (PL011_INT_RX ||| PL011_INT_RT), pc := .wake }
  | ret {s : RxSys cfg} (h : s.pc = .wake) :
      RxStep s .ret { s with pc := .idle, k := scheduler_wake_reader s.k }

def rxStart (k : Kernel cfg) : RxSys cfg := ⟨pl011_init, .idle, k⟩

/-! ## Single accesses -/

namespace Pl011

@[simp] theorem arrive_fifo (d : Pl011) (c : Byte) : (d.arrive c).fifo = d.fifo ++ [c] := rfl

@[simp] theorem arrive_latched (d : Pl011) (c : Byte) : (d.arrive c).latched = true := by
  unfold latched arrive
  dsimp only
  rw [BitVec.and_or_distrib_right, BitVec.and_self, decide_eq_true_iff]
  intro h
  have hbit := congrArg (fun w : Word => w.getLsbD 4) h
  simp [PL011_INT_RX] at hbit

@[simp] theorem writeIcr_fifo (d : Pl011) (w : Word) : (d.writeIcr w).fifo = d.fifo := rfl

@[simp] theorem writeIcr_latched (d : Pl011) :
    (d.writeIcr (PL011_INT_RX ||| PL011_INT_RT)).latched = false := by
  have hmask : ~~~(PL011_INT_RX ||| PL011_INT_RT) &&& PL011_INT_RX = 0#32 := by decide
  unfold latched writeIcr
  dsimp only
  rw [BitVec.and_assoc, hmask]
  simp

theorem readFr_empty (d : Pl011) : d.readFr &&& PL011_FR_RXFE = 0#32 ↔ d.fifo ≠ [] := by
  unfold readFr
  split
  · rename_i h
    simp [h, PL011_FR_RXFE]
  · rename_i h
    simp [h]

end Pl011

/-! ## The order of accesses and arrivals -/

/-- What has happened since FR was last read. -/
def sinceFr (tr : List RxLabel) : List RxLabel :=
  tr.foldl (fun acc l => if l = .fr then [] else acc ++ [l]) []

@[simp] theorem sinceFr_snoc (tr : List RxLabel) (l : RxLabel) :
    sinceFr (tr ++ [l]) = if l = .fr then [] else sinceFr tr ++ [l] := by
  simp [sinceFr]

/-- The handler has just returned; bytes came in between its last read of FR and its write to ICR,
and none after that. -/
def Missed (tr : List RxLabel) : Prop :=
  ∃ cs : List Byte, cs ≠ [] ∧ sinceFr tr = cs.map .arrive ++ [.icr, .ret]

theorem missed_last {tr : List RxLabel} {l : RxLabel} (h : Missed (tr ++ [l])) : l = .ret := by
  obtain ⟨cs, -, heq⟩ := h
  rw [sinceFr_snoc] at heq
  split at heq
  · simp at heq
  · have hlast := congrArg List.getLast? heq
    simpa using hlast

theorem arrivals_unique {cs cs' : List Byte} {x y : List RxLabel}
    (h : cs.map RxLabel.arrive ++ .icr :: x = cs'.map RxLabel.arrive ++ .icr :: y) :
    cs = cs' ∧ x = y := by
  induction cs generalizing cs' with
  | nil =>
    rcases cs' with _ | ⟨c', cs'⟩
    · exact ⟨rfl, by simpa using h⟩
    · simp at h
  | cons c cs ih =>
    rcases cs' with _ | ⟨c', cs'⟩
    · simp at h
    · simp only [List.map_cons, List.cons_append, List.cons.injEq, RxLabel.arrive.injEq] at h
      obtain ⟨rfl, h⟩ := h
      obtain ⟨rfl, rfl⟩ := ih h
      exact ⟨rfl, rfl⟩

/-! ## Runs -/

/-- The bytes that wait in the chip will raise another interrupt. -/
def RxSys.Armed (s : RxSys cfg) : Prop := s.pc = .idle → s.dev.fifo ≠ [] → s.dev.latched = true

def RxInv (tr : List RxLabel) (s : RxSys cfg) : Prop :=
  match s.pc with
  | .idle => (s.dev.fifo ≠ [] → s.dev.latched = true) ↔ ¬ Missed tr
  | .poll | .data => ¬ Missed tr
  | .ack => ∃ cs : List Byte, sinceFr tr = cs.map .arrive ∧ s.dev.fifo = cs
  | .wake => ∃ cs cs' : List Byte, sinceFr tr = cs.map .arrive ++ .icr :: cs'.map .arrive ∧
      s.dev.fifo = cs ++ cs' ∧ (s.dev.latched = true ↔ cs' ≠ [])

section

variable {tr : List RxLabel} {s s' : RxSys cfg} {l : RxLabel}

theorem not_missed (h : l ≠ .ret) : ¬ Missed (tr ++ [l]) := fun hm => h (missed_last hm)

/-- The return is where it shows: what came in before the ICR write is no longer latched. -/
theorem missed_ret {cs cs' : List Byte} (h : sinceFr tr = cs.map .arrive ++ .icr :: cs'.map .arrive) :
    Missed (tr ++ [.ret]) ↔ cs ≠ [] ∧ cs' = [] := by
  unfold Missed
  rw [sinceFr_snoc, if_neg (by simp), h]
  constructor
  · rintro ⟨ds, hne, heq⟩
    rw [List.append_assoc, List.cons_append] at heq
    obtain ⟨rfl, hrest⟩ := arrivals_unique heq
    refine ⟨hne, ?_⟩
    rcases cs' with _ | ⟨c, cs'⟩
    · rfl
    · simp at hrest
  · rintro ⟨hne, rfl⟩
    exact ⟨cs, hne, by simp⟩

theorem rxInv_arrive (h : RxInv tr s) (c : Byte) :
    RxInv (tr ++ [.arrive c]) { s with dev := s.dev.arrive c } := by
  have hnot : ¬ Missed (tr ++ [.arrive c]) := not_missed (by simp)
  unfold RxInv at h ⊢
  dsimp only
  split at h
  · simpa using hnot
  · exact hnot
  · exact hnot
  · obtain ⟨cs, hsince, hfifo⟩ := h
    exact ⟨cs ++ [c], by simp [hsince], by simp [hfifo]⟩
  · obtain ⟨cs, cs', hsince, hfifo, -⟩ := h
    exact ⟨cs, cs' ++ [c], by simp [hsince], by simp [hfifo], by simp⟩

theorem rxInv_step (h : RxInv tr s) (hs : RxStep s l s') : RxInv (tr ++ [l]) s' := by
  cases hs with
  | arrive c => exact rxInv_arrive h c
  | irq => exact not_missed (by simp)
  | fr hpc =>
    have hnot : ¬ Missed (tr ++ [.fr]) := not_missed (by simp)
    unfold RxInv
    dsimp only
    split_ifs with hempty
    · exact hnot
    · rw [Pl011.readFr_empty, not_not] at hempty
      exact ⟨[], by simp, hempty⟩
  | dr => exact not_missed (by simp)
  | icr hpc =>
    rw [RxInv, hpc] at h
    obtain ⟨cs, hsince, hfifo⟩ := h
    exact ⟨cs, [], by simp [hsince], by simp [hfifo], by simp⟩
  | ret hpc =>
    rw [RxInv, hpc] at h
    obtain ⟨cs, cs', hsince, hfifo, hlatch⟩ := h
    show (s.dev.fifo ≠ [] → s.dev.latched = true) ↔ ¬ Missed (tr ++ [.ret])
    rw [missed_ret hsince, hlatch, hfifo]
    rcases cs' with _ | ⟨c, cs'⟩
    · simp
    · simp

end

theorem RxInv.armed_iff {tr : List RxLabel} {s : RxSys cfg} (h : RxInv tr s) :
    s.Armed ↔ ¬ Missed tr := by
  unfold RxSys.Armed
  unfold RxInv at h
  split at h
  · rename_i hpc
    simpa [hpc] using h
  · rename_i hpc
    simpa [hpc] using h
  · rename_i hpc
    simpa [hpc] using h
  · rename_i hpc
    obtain ⟨cs, hsince, -⟩ := h
    have hnot : ¬ Missed tr := by
      rintro ⟨ds, -, heq⟩
      have hmem : RxLabel.icr ∈ cs.map RxLabel.arrive := by rw [← hsince, heq]; simp
      simp at hmem
    simpa [hpc] using hnot
  · rename_i hpc
    obtain ⟨cs, cs', hsince, -⟩ := h
    have hnot : ¬ Missed tr := by
      rintro ⟨ds, -, heq⟩
      have hmem : RxLabel.ret ∈ cs.map RxLabel.arrive ++ .icr :: cs'.map .arrive := by
        rw [← hsince, heq]; simp
      simp at hmem
    simpa [hpc] using hnot

/-- The bytes left behind raise another interrupt, but for those that came in after the last FR read and
before the ICR write, if none has followed. -/
theorem rx_handshake_iff (k : Kernel cfg) {tr : List RxLabel} {s : RxSys cfg}
    (hr : Lib.Run RxStep (rxStart k) tr s) : s.Armed ↔ ¬ Missed tr := by
  have h : RxInv tr s := by
    refine hr.history (I := RxInv) (fun _ _ _ _ h hs => rxInv_step h hs) ?_
    simp [RxInv, rxStart, pl011_init, Missed, sinceFr]
  exact h.armed_iff

/-- The second byte comes in just after the ICR write: it stays in the chip, and will interrupt. -/
theorem rx_handshake_iff_one :
    ∃ tr s, Lib.Run RxStep (rxStart (boot demo)) tr s ∧ ¬ Missed tr ∧ s.Armed ∧
    tr = [.arrive 0x61#8, .irq, .fr, .dr 0x61#8, .fr, .icr, .arrive 0x62#8, .ret] ∧
    s.pc = .idle ∧ s.dev.fifo = [0x62#8] := by
  have hr : Lib.Run RxStep (rxStart (boot demo)) _ _ :=
    (((((((Lib.Run.single (.arrive 0x61#8)).snoc (.irq rfl (by decide))).snoc (.fr rfl)).snoc
      (.dr rfl rfl)).snoc (.fr rfl)).snoc (.icr rfl)).snoc (.arrive 0x62#8)).snoc (.ret rfl)
  have hnot : ¬ Missed [.arrive 0x61#8, .irq, .fr, .dr 0x61#8, .fr, .icr, .arrive 0x62#8, .ret] := by
    rintro ⟨cs, hne, heq⟩
    rcases cs with _ | ⟨c, cs⟩
    · exact hne rfl
    · simp [sinceFr] at heq
  exact ⟨_, _, hr, hnot, (rx_handshake_iff _ hr).mpr hnot, rfl, rfl, rfl⟩

/-- The second byte comes in just before the ICR write: it stays in the chip, and no interrupt will
come. -/
theorem byte_in_window_is_stuck :
    ¬ ∀ (tr : List RxLabel) (s : RxSys demo), Lib.Run RxStep (rxStart (boot demo)) tr s →
    s.pc = .idle → s.dev.fifo ≠ [] → s.dev.latched = true := by
  intro h
  have hr : Lib.Run RxStep (rxStart (boot demo)) _ _ :=
    (((((((Lib.Run.single (.arrive 0x61#8)).snoc (.irq rfl (by decide))).snoc (.fr rfl)).snoc
      (.dr rfl rfl)).snoc (.fr rfl)).snoc (.arrive 0x62#8)).snoc (.icr rfl)).snoc (.ret rfl)
  exact absurd (h _ _ hr rfl (by decide)) (by decide)

/-! ## The handler as a whole -/

def RxLabel.byte : RxLabel → Option Byte
  | .dr c => some c
  | .arrive _ | .irq | .fr | .icr | .ret => none

theorem rx_drain_snoc (k : Kernel cfg) (bs : List Byte) (c : Byte) :
    (rx_drain k (bs ++ [c])).1 = (uart_rx_push (rx_drain k bs).1 c).1 := by
  induction bs generalizing k with
  | nil => rfl
  | cons b bs ih => exact ih _

/-- From its entry to its return, the handler is `uart_rx_irq` on the bytes that it has read. -/
theorem activation_eq {s s' : RxSys cfg} {tr : List RxLabel} (hpc : s.pc = .poll)
    (hr : Lib.Run RxStep s tr s')
    (hback : ∀ l ∈ tr, l ≠ .ret) {s'' : RxSys cfg} (hret : RxStep s' .ret s'') :
    s''.k = (uart_rx_irq s.k (tr.filterMap RxLabel.byte)).1 := by
  have hk : s'.k = (rx_drain s.k (tr.filterMap RxLabel.byte)).1 ∧ s'.pc ≠ .idle := by
    clear hret
    induction hr with
    | refl => exact ⟨rfl, by rw [hpc]; simp⟩
    | snoc _ hs ih =>
      obtain ⟨hk, hin⟩ := ih fun l hl => hback l (by simp [hl])
      rw [List.filterMap_append]
      cases hs with
      | arrive => exact ⟨by simpa [List.filterMap_cons, RxLabel.byte] using hk, hin⟩
      | irq h => exact absurd h hin
      | fr =>
        refine ⟨by simpa [List.filterMap_cons, RxLabel.byte] using hk, ?_⟩
        dsimp only
        split <;> simp
      | @dr c cs =>
        refine ⟨?_, by simp⟩
        rw [show [RxLabel.dr c].filterMap RxLabel.byte = [c] from rfl, rx_drain_snoc, ← hk]
      | icr => exact ⟨by simpa [List.filterMap_cons, RxLabel.byte] using hk, by simp⟩
      | ret => exact absurd rfl (hback .ret (by simp))
  cases hret
  show scheduler_wake_reader s'.k = _
  rw [hk.1]
  rfl

end CortexAOS
