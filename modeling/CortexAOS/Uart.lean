import CortexAOS.Tables
import CortexAOS.Lib.Ring
import Mathlib.Data.Nat.ModEq

/-! # The receive ring of uart_core.c -/

namespace CortexAOS

variable {cfg : Config}

def UART_RX_BUF_SIZE : Word := 128#32
def UART_RX_MASK : Word := UART_RX_BUF_SIZE - 1

def uart_rx_push (k : Kernel cfg) (c : Byte) : Kernel cfg × List (Obs cfg) :=
  let next := k.rx_head + 1#32
  if next &&& UART_RX_MASK ≠ k.rx_tail &&& UART_RX_MASK then
    ({ k with rx_buf := Function.update k.rx_buf (k.rx_head &&& UART_RX_MASK).toNat c, rx_head := next },
      [.accepted c])
  else (k, [.rejected c])

def uart_rx_empty (k : Kernel cfg) : Bool := k.rx_head = k.rx_tail

/-- `none` is the `-1` of the source. -/
def uart_rx_pop (k : Kernel cfg) : Option Byte × Kernel cfg :=
  if k.rx_head = k.rx_tail then (none, k)
  else (some (k.rx_buf (k.rx_tail &&& UART_RX_MASK).toNat), { k with rx_tail := k.rx_tail + 1#32 })

/-- The loop of `pl011_rx_irq` and `ns16550_rx_irq`: every byte that the chip's FIFO gives up. -/
def rx_drain (k : Kernel cfg) : List Byte → Kernel cfg × List (Obs cfg)
  | [] => (k, [])
  | c :: cs =>
    let (k', o) := uart_rx_push k c
    let (k'', o') := rx_drain k' cs
    (k'', o ++ o')

/-- `'\n'` goes out as `'\r'`, `'\n'`. -/
def uart_putc (c : Byte) : List (Obs cfg) := if c = 0x0A#8 then [.putc 0x0D#8, .putc c] else [.putc c]

/-! ## The ring as a list -/

namespace Kernel

def rxCount (k : Kernel cfg) : Nat := (k.rx_head - k.rx_tail).toNat

def ring (k : Kernel cfg) : List Byte := Lib.Ring.contents k.rx_buf k.rx_tail.toNat k.rxCount 128

def RxOk (k : Kernel cfg) : Prop := k.rxCount ≤ 127

def withRx (k : Kernel cfg) (buf : Nat → Byte) (head tail : Word) : Kernel cfg :=
  { k with rx_buf := buf, rx_head := head, rx_tail := tail }

def SameButRx (k k' : Kernel cfg) : Prop := ∃ buf head tail, k' = k.withRx buf head tail

@[simp] theorem length_ring (k : Kernel cfg) : k.ring.length = k.rxCount := by simp [ring]

theorem SameButRx.refl (k : Kernel cfg) : SameButRx k k := ⟨_, _, _, rfl⟩

theorem SameButRx.trans {k k' k'' : Kernel cfg} (h : SameButRx k k') (h' : SameButRx k' k'') :
    SameButRx k k'' := by
  obtain ⟨_, _, _, rfl⟩ := h
  obtain ⟨buf, head, tail, rfl⟩ := h'
  exact ⟨buf, head, tail, rfl⟩

end Kernel

open Kernel

theorem mask_toNat (w : Word) : (w &&& UART_RX_MASK).toNat = w.toNat % 128 := by
  have h : UART_RX_MASK.toNat = 2 ^ 7 - 1 := by decide
  rw [BitVec.toNat_and, h, Nat.and_two_pow_sub_one_eq_mod]

theorem mask_eq_iff (v w : Word) :
    v &&& UART_RX_MASK = w &&& UART_RX_MASK ↔ v.toNat % 128 = w.toNat % 128 := by
  rw [BitVec.toNat_eq, mask_toNat, mask_toNat]

theorem rx_head_toNat (k : Kernel cfg) : k.rx_head.toNat = (k.rx_tail.toNat + k.rxCount) % 2 ^ 32 := by
  have := k.rx_head.isLt
  have := k.rx_tail.isLt
  simp only [rxCount, BitVec.toNat_sub]
  omega

theorem rx_empty_iff (k : Kernel cfg) : k.rx_head = k.rx_tail ↔ k.ring = [] := by
  rw [← List.length_eq_zero_iff, length_ring, BitVec.toNat_eq, rx_head_toNat, rxCount]
  have := k.rx_head.isLt
  have := k.rx_tail.isLt
  simp only [BitVec.toNat_sub]
  omega

/-- Full and empty are told apart: a push is refused with 127 bytes in the ring. -/
theorem rx_full_iff (k : Kernel cfg) (h : k.RxOk) :
    (k.rx_head + 1#32) &&& UART_RX_MASK = k.rx_tail &&& UART_RX_MASK ↔ k.rxCount = 127 := by
  have hh := rx_head_toNat k
  unfold RxOk at h
  rw [mask_eq_iff, BitVec.toNat_add, hh]
  have := k.rx_tail.isLt
  simp only [BitVec.toNat_ofNat]
  omega

theorem uart_rx_push_full (k : Kernel cfg) (h : k.RxOk) (c : Byte) (hfull : k.ring.length = 127) :
    uart_rx_push k c = (k, [.rejected c]) := by
  rw [length_ring] at hfull
  unfold uart_rx_push
  rw [if_neg]
  simpa using (rx_full_iff k h).mpr hfull

/-- A push that finds room, in one piece: the byte goes to the end of the ring. -/
structure Pushed (k k' : Kernel cfg) (c : Byte) : Prop where
  same : SameButRx k k'
  ok : k'.RxOk
  ring : k'.ring = k.ring ++ [c]

theorem uart_rx_push_room (k : Kernel cfg) (h : k.RxOk) (c : Byte) (hroom : k.ring.length < 127) :
    ∃ k', uart_rx_push k c = (k', [.accepted c]) ∧ Pushed k k' c := by
  rw [length_ring] at hroom
  have hne : (k.rx_head + 1#32) &&& UART_RX_MASK ≠ k.rx_tail &&& UART_RX_MASK := by
    rw [ne_eq, rx_full_iff k h]; omega
  unfold uart_rx_push
  simp only [if_pos hne]
  have hcount : (k.rx_head + 1#32 - k.rx_tail).toNat = k.rxCount + 1 := by
    have := rx_head_toNat k
    have := k.rx_head.isLt
    have := k.rx_tail.isLt
    simp only [BitVec.toNat_sub, BitVec.toNat_add, BitVec.toNat_ofNat]
    omega
  refine ⟨_, rfl, ⟨_, _, _, rfl⟩, ?_, ?_⟩
  · show (k.rx_head + 1#32 - k.rx_tail).toNat ≤ 127
    omega
  · have hslot : (k.rx_head &&& UART_RX_MASK).toNat = Lib.Ring.slot k.rx_tail.toNat 128 k.rxCount := by
      rw [mask_toNat, rx_head_toNat, Lib.Ring.slot]
      omega
    show Lib.Ring.contents _ k.rx_tail.toNat (k.rx_head + 1#32 - k.rx_tail).toNat 128 = _
    rw [hcount, hslot]
    exact Lib.Ring.contents_append _ _ _ (by omega)

theorem uart_rx_pop_nil (k : Kernel cfg) (h : k.ring = []) : uart_rx_pop k = (none, k) := by
  unfold uart_rx_pop
  rw [if_pos ((rx_empty_iff k).mpr h)]

theorem uart_rx_pop_cons (k : Kernel cfg) (h : k.RxOk) (c : Byte) (cs : List Byte)
    (hr : k.ring = c :: cs) :
    ∃ k', uart_rx_pop k = (some c, k') ∧ SameButRx k k' ∧ k'.RxOk ∧ k'.ring = cs := by
  have hne : ¬ k.rx_head = k.rx_tail := by rw [rx_empty_iff, hr]; simp
  obtain ⟨n, hn⟩ : ∃ n, k.rxCount = n + 1 :=
    ⟨cs.length, by rw [← length_ring, hr]; rfl⟩
  have hcount : (k.rx_head - (k.rx_tail + 1#32)).toNat = n := by
    have := rx_head_toNat k
    have := k.rx_head.isLt
    have := k.rx_tail.isLt
    unfold RxOk at h
    simp only [BitVec.toNat_sub, BitVec.toNat_add, BitVec.toNat_ofNat]
    omega
  have hring : k.ring = k.rx_buf (k.rx_tail.toNat % 128) ::
      Lib.Ring.contents k.rx_buf (k.rx_tail.toNat + 1) n 128 := by
    rw [Kernel.ring, hn, Lib.Ring.contents_succ]
  rw [hr] at hring
  obtain ⟨hc, hcs⟩ := List.cons.inj hring
  unfold uart_rx_pop
  rw [if_neg hne]
  refine ⟨{ k with rx_tail := k.rx_tail + 1#32 }, by rw [mask_toNat, ← hc], ⟨_, _, _, rfl⟩, ?_, ?_⟩
  · unfold RxOk at h
    show (k.rx_head - (k.rx_tail + 1#32)).toNat ≤ 127
    omega
  · -- The tail may wrap to 0 here; the slots are the same modulo 128.
    show Lib.Ring.contents _ (k.rx_tail + 1#32).toNat (k.rx_head - (k.rx_tail + 1#32)).toNat 128 = _
    rw [hcount, hcs, ← Lib.Ring.contents_start_mod _ (k.rx_tail + 1#32).toNat,
      ← Lib.Ring.contents_start_mod _ (k.rx_tail.toNat + 1)]
    congr 1
    rw [BitVec.toNat_add]
    simp only [BitVec.toNat_ofNat]
    omega

/-! ## Draining the chip -/

def acceptedBytes (o : List (Obs cfg)) : List Byte :=
  o.filterMap fun | .accepted c => some c | _ => none

@[simp] theorem acceptedBytes_append (o o' : List (Obs cfg)) :
    acceptedBytes (o ++ o') = acceptedBytes o ++ acceptedBytes o' := List.filterMap_append ..

/-- The bytes that fit are appended in order, the others are dropped. -/
structure Drained (k : Kernel cfg) (bs : List Byte) (r : Kernel cfg × List (Obs cfg)) : Prop where
  same : SameButRx k r.1
  ok : r.1.RxOk
  ring : r.1.ring = k.ring ++ acceptedBytes r.2
  accepted : acceptedBytes r.2 = bs.take (127 - k.ring.length)
  rxOnly : ∀ o ∈ r.2, (∃ c, o = .accepted c) ∨ ∃ c, o = .rejected c

theorem rx_drain_spec (k : Kernel cfg) (h : k.RxOk) (bs : List Byte) : Drained k bs (rx_drain k bs) := by
  induction bs generalizing k with
  | nil =>
      exact ⟨.refl k, h, by simp [rx_drain, acceptedBytes], by simp [rx_drain, acceptedBytes],
        by simp [rx_drain]⟩
  | cons c cs ih =>
    by_cases hfull : k.ring.length = 127
    · have ih' := ih k h
      simp only [rx_drain, uart_rx_push_full k h c hfull]
      refine ⟨ih'.same, ih'.ok, ?_, ?_, ?_⟩
      · simpa [acceptedBytes] using ih'.ring
      · have := ih'.accepted
        rw [hfull] at this ⊢
        simpa [acceptedBytes] using this
      · simpa using ih'.rxOnly
    · have hlt : k.ring.length < 127 := by
        unfold RxOk at h
        rw [length_ring] at hfull ⊢
        omega
      obtain ⟨k', hk, hp⟩ := uart_rx_push_room k h c hlt
      have ih' := ih k' hp.ok
      simp only [rx_drain, hk]
      have hroom : 127 - k.ring.length = (127 - k'.ring.length) + 1 := by
        rw [hp.ring, List.length_append, List.length_singleton]; omega
      refine ⟨hp.same.trans ih'.same, ih'.ok, ?_, ?_, ?_⟩
      · rw [ih'.ring, hp.ring]
        simp [acceptedBytes]
      · rw [hroom, List.take_succ_cons, ← ih'.accepted]
        simp [acceptedBytes]
      · simpa using ih'.rxOnly

end CortexAOS
