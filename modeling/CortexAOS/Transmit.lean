import CortexAOS.Lib.Mmio
import CortexAOS.Pl011

/-!
# The console's way out

`uart_init` and `uart_putc` as the accesses that they make, for the chip of each board. The chip
sends what it holds whenever it likes, and its other status bits come and go.
-/

namespace CortexAOS.Drivers

open Lib Lib.Mmio

abbrev Driver (α : Type) : Type := Mmio Word Word α

/-- `while (REG32(a) & mask);` -/
def awaitClear (a mask : Word) : Driver Unit := await a fun v => v &&& mask == 0#32

/-- `while (!(REG32(a) & mask));` -/
def awaitSet (a mask : Word) : Driver Unit := await a fun v => v &&& mask != 0#32

theorem offset (base off : Word) : base + off - base = off := by
  rw [BitVec.add_comm, BitVec.add_sub_cancel]

theorem byte_of_word (c : Byte) : (c.setWidth 32).setWidth 8 = c := by
  rw [BitVec.setWidth_setWidth_of_le c (by decide), BitVec.setWidth_eq]

/-! ## drivers/uart.h and uart_core.c -/

/-- Without `rx_irq`, which also writes to the ring. -/
structure uart_ops where
  init : Word → Driver Unit
  putc : Word → Byte → Driver Unit

structure uart_device where
  ops : uart_ops
  base : Word
  irq : Word

def uart_init (console : uart_device) : Driver Unit := console.ops.init console.base

def uart_putc (console : uart_device) (c : Byte) : Driver Unit := do
  if c = 0x0A#8 then console.ops.putc console.base 0x0D#8
  console.ops.putc console.base c

/-- `uart_init`, and then whatever the kernel prints. -/
def session (console : uart_device) (text : List Byte) : Driver Unit := do
  uart_init console
  text.forM (uart_putc console)

/-- What `uart_putc` hands to the chip. -/
def crlf (c : Byte) : List Byte := if c = 0x0A#8 then [0x0D#8, c] else [c]

theorem uart_putc_obs {cfg : Config} (c : Byte) :
    (CortexAOS.uart_putc c : List (Obs cfg)) = (crlf c).map .putc := by
  unfold CortexAOS.uart_putc crlf
  split <;> rfl

section

variable {σ : Type} {D : Device σ Word Word} {G : σ → Word → Word → Prop} {P : σ → Prop}
    {console : uart_device}

/-- A chip that sets itself up and takes one byte at a time takes any text. -/
theorem session_triple (Says : List Byte → σ → Prop) (hstable : ∀ t, Stable D (Says t))
    (hinit : Triple D P G (console.ops.init console.base) fun _ => Says [])
    (hputc : ∀ t c, Triple D (Says t) G (console.ops.putc console.base c) fun _ => Says (t ++ [c]))
    (text : List Byte) : Triple D P G (session console text) fun _ => Says (text.flatMap crlf) := by
  have hchar : ∀ t c, Triple D (Says t) G (uart_putc console c) fun _ => Says (t ++ crlf c) := by
    intro t c
    unfold uart_putc crlf
    split
    · have h := (hputc t 0x0D#8).seq (hputc (t ++ [0x0D#8]) c)
      rw [List.append_assoc] at h
      exact h
    · exact hputc t c
  have hloop := Triple.forM (fun l => Says (l.flatMap crlf)) (fun l => hstable _) text [] fun l c _ => by
    rw [List.flatMap_append, List.flatMap_singleton]
    exact hchar (l.flatMap crlf) c
  exact hinit.seq hloop

end

/-! ## The transmit side of a chip -/

/-- Configuration, the bytes that wait, those sent, and the status bits that are not about them. -/
structure Tx (R : Type) where
  regs : R
  fifo : List Byte
  wire : List Byte
  flags : Word

namespace Tx

variable {R : Type} {sends : R → Bool}

inductive Own (sends : R → Bool) : Tx R → Tx R → Prop
  | send {d : Tx R} {c : Byte} {cs : List Byte} :
    sends d.regs = true → d.fifo = c :: cs → Own sends d { d with fifo := cs, wire := d.wire ++ [c] }
  | flags {d : Tx R} (w : Word) : Own sends d { d with flags := w }

/-- Sent or about to be sent. -/
def said (d : Tx R) : List Byte := d.wire ++ d.fifo

theorem said_push (d : Tx R) (c : Byte) : Tx.said { d with fifo := d.fifo ++ [c] } = d.said ++ [c] :=
  (List.append_assoc _ _ _).symm

theorem Own.keeps {d d' : Tx R} (h : Own sends d d') :
    d'.regs = d.regs ∧ d'.said = d.said ∧ d'.fifo.length ≤ d.fifo.length := by
  cases h with
  | send _ hfifo => exact ⟨rfl, by simp [said, hfifo], by simp [hfifo]⟩
  | flags w => exact ⟨rfl, rfl, le_rfl⟩

variable {D : Device (Tx R) Word Word} (hown : D.own = Own sends)

include hown in
theorem stable_said (C : R → Prop) (T : List Byte → Prop) : Stable D fun d => C d.regs ∧ T d.said := by
  rintro d d' ho ⟨hC, hT⟩
  rw [hown] at ho
  rw [ho.keeps.1, ho.keeps.2.1]
  exact ⟨hC, hT⟩

include hown in
theorem stable_room (n : Nat) : Stable D fun d => d.fifo.length < n := by
  intro d d' ho h
  rw [hown] at ho
  exact lt_of_le_of_lt ho.keeps.2.2 h

/-- What is enabled can run empty. -/
theorem drains (d : Tx R) (h : sends d.regs = true) :
    ∃ d', Relation.ReflTransGen (Own sends) d d' ∧ d'.regs = d.regs ∧ d'.fifo = [] := by
  obtain ⟨regs, fifo, wire, flags⟩ := d
  induction fifo generalizing wire with
  | nil => exact ⟨_, .refl, rfl, rfl⟩
  | cons c cs ih =>
    obtain ⟨d', hr, hregs, hfifo⟩ := ih (wire ++ [c]) h
    exact ⟨d', .head (.send h rfl) hr, hregs, hfifo⟩

include hown in
/-- A store that only sets the chip up: its registers are `f r` before and `g r` after. -/
theorem setup_triple {G : Tx R → Word → Word → Prop} {a v : Word} {f g : R → R} (T : List Byte → Prop)
    (hallow : ∀ d r, d.regs = f r → G d a v)
    (hwrite : ∀ d r, d.regs = f r → D.write d a v = { d with regs := g r }) :
    Triple D (fun d => (∃ r, d.regs = f r) ∧ T d.said) G (store a v) fun _ d =>
      (∃ r, d.regs = g r) ∧ T d.said := by
  refine .store (stable_said hown (fun r' => ∃ r, r' = f r) T) ?_ ?_
    (stable_said hown (fun r' => ∃ r, r' = g r) T)
  · rintro d ⟨⟨r, hr⟩, -⟩
    exact hallow d r hr
  · rintro d ⟨⟨r, hr⟩, hT⟩
    rw [hwrite d r hr]
    exact ⟨⟨r, rfl⟩, hT⟩

include hown in
/-- Wait for room for `n` bytes, and hand one over. -/
theorem putc_triple {G : Tx R → Word → Word → Prop} {status data v : Word} {done : Word → Bool}
    (C : R → Prop) (c : Byte)
    (T T' : List Byte → Prop) (hT : ∀ l, T l → T' (l ++ [c])) {n : Nat} (hn : 0 < n)
    (hsends : ∀ r, C r → sends r = true) (hafter : ∀ d a, D.after d a = d)
    (hread : ∀ d, C d.regs → (done (D.read d status) = true ↔ d.fifo.length < n))
    (hallow : ∀ d, C d.regs → d.fifo.length < n → G d data v)
    (hwrite : ∀ d, C d.regs → d.fifo.length < n → D.write d data v = { d with fifo := d.fifo ++ [c] }) :
    Triple D (fun d => C d.regs ∧ T d.said) G (do await status done; store data v) fun _ d =>
      C d.regs ∧ T' d.said := by
  have hstill (T : List Byte → Prop) : Stable D fun d => C d.regs ∧ T d.said := stable_said hown C T
  have hroom : Stable D fun d => (C d.regs ∧ T d.said) ∧ d.fifo.length < n :=
    (hstill T).and _ (stable_room hown n)
  refine .seq (.await (hstill T) ?_ ?_ ?_ hroom) (.store hroom ?_ ?_ (hstill T'))
  · intro d h _
    rw [hafter]
    exact h
  · intro d h hdone
    rw [hafter]
    exact ⟨h, (hread d h.1).mp hdone⟩
  · rintro d ⟨hC, -⟩
    obtain ⟨d', hr, hregs, hfifo⟩ := drains d (hsends _ hC)
    refine ⟨d', hown ▸ hr, (hread d' (hregs ▸ hC)).mpr ?_⟩
    rw [hfifo]
    exact hn
  · rintro d ⟨⟨hC, -⟩, hlt⟩
    exact hallow d hC hlt
  · rintro d ⟨⟨hC, hd⟩, hlt⟩
    rw [hwrite d hC hlt, said_push]
    exact ⟨hC, hT _ hd⟩

end Tx

/-! ## pl011.c -/

def PL011_DR : Word := 0x000#32
def PL011_FR : Word := 0x018#32
def PL011_IBRD : Word := 0x024#32
def PL011_FBRD : Word := 0x028#32
def PL011_LCR_H : Word := 0x02C#32
def PL011_CR : Word := 0x030#32
def PL011_IMSC : Word := 0x038#32

def PL011_FR_TXFF : Word := 1#32 <<< 5
def PL011_LCR_WLEN8 : Word := 0x3#32 <<< 5
def PL011_LCR_FEN : Word := 1#32 <<< 4
def PL011_CR_UARTEN : Word := 1#32 <<< 0
def PL011_CR_TXE : Word := 1#32 <<< 8
def PL011_CR_RXE : Word := 1#32 <<< 9

def pl011_init (base : Word) : Driver Unit := do
  store (base + PL011_CR) 0#32
  store (base + PL011_IBRD) 13#32
  store (base + PL011_FBRD) 1#32
  store (base + PL011_LCR_H) (PL011_LCR_WLEN8 ||| PL011_LCR_FEN)
  store (base + PL011_IMSC) (PL011_INT_RX ||| PL011_INT_RT)
  store (base + PL011_CR) (PL011_CR_UARTEN ||| PL011_CR_TXE ||| PL011_CR_RXE)

def pl011_putc (base : Word) (c : Byte) : Driver Unit := do
  awaitClear (base + PL011_FR) PL011_FR_TXFF
  store (base + PL011_DR) (c.setWidth 32)

def pl011_ops : uart_ops := ⟨pl011_init, pl011_putc⟩

/-- The chip takes the divisors over when LCR_H is written. -/
structure Pl011Regs where
  cr : Word
  ibrd : Word
  fbrd : Word
  lcr_h : Word
  imsc : Word
  divisor : Word × Word

namespace Pl011Regs

def sends (r : Pl011Regs) : Bool := r.cr &&& PL011_CR_UARTEN != 0#32 && r.cr &&& PL011_CR_TXE != 0#32

def write (r : Pl011Regs) (off v : Word) : Pl011Regs :=
  if off = PL011_CR then { r with cr := v }
  else if off = PL011_IBRD then { r with ibrd := v }
  else if off = PL011_FBRD then { r with fbrd := v }
  else if off = PL011_LCR_H then { r with lcr_h := v, divisor := (r.ibrd, r.fbrd) }
  else if off = PL011_IMSC then { r with imsc := v }
  else r

/-- 8 bits a byte, FIFOs on, 24 MHz / (16 * (13 + 1/64)) baud, receive interrupts only. -/
structure On (r : Pl011Regs) : Prop where
  cr : r.cr = PL011_CR_UARTEN ||| PL011_CR_TXE ||| PL011_CR_RXE
  lcr_h : r.lcr_h = PL011_LCR_WLEN8 ||| PL011_LCR_FEN
  imsc : r.imsc = PL011_INT_RX ||| PL011_INT_RT
  divisor : r.divisor = (13#32, 1#32)

end Pl011Regs

/-- Where the chip is, and how many bytes its FIFO holds. -/
structure Pl011Part where
  base : Word
  depth : Nat
  depth_pos : 0 < depth

namespace Pl011Part

variable (p : Pl011Part)

def capacity (r : Pl011Regs) : Nat := if r.lcr_h &&& PL011_LCR_FEN = 0#32 then 1 else p.depth

def readFr (d : Tx Pl011Regs) : Word :=
  d.flags &&& ~~~PL011_FR_TXFF ||| if d.fifo.length < p.capacity d.regs then 0#32 else PL011_FR_TXFF

/-- A byte that finds no room is lost. -/
def device : Device (Tx Pl011Regs) Word Word where
  read d a := if a - p.base = PL011_FR then p.readFr d else 0#32
  after d _ := d
  write d a v :=
    if a - p.base = PL011_DR then
      if d.fifo.length < p.capacity d.regs then { d with fifo := d.fifo ++ [v.setWidth 8] } else d
    else { d with regs := d.regs.write (a - p.base) v }
  own := Tx.Own Pl011Regs.sends

/-- Data only into an enabled chip with room, and the line only set up while the chip is off. -/
def Allowed (d : Tx Pl011Regs) (a _ : Word) : Prop :=
  (a - p.base = PL011_DR → d.regs.sends = true ∧ d.fifo.length < p.capacity d.regs) ∧
    (a - p.base = PL011_IBRD ∨ a - p.base = PL011_FBRD ∨ a - p.base = PL011_LCR_H →
      d.regs.cr &&& PL011_CR_UARTEN = 0#32)

theorem init_store {off v : Word} (hoff : off ≠ PL011_DR) {f : Pl011Regs → Pl011Regs}
    (T : List Byte → Prop)
    (hoffline : off = PL011_IBRD ∨ off = PL011_FBRD ∨ off = PL011_LCR_H →
      ∀ r, (f r).cr &&& PL011_CR_UARTEN = 0#32) :
    Triple p.device (fun d => (∃ r, d.regs = f r) ∧ T d.said) p.Allowed (store (p.base + off) v)
      fun _ d => (∃ r, d.regs = (f r).write off v) ∧ T d.said := by
  refine Tx.setup_triple (g := fun r => (f r).write off v) rfl T ?_ ?_
  · intro d r hr
    unfold Allowed
    rw [offset, hr]
    exact ⟨fun h => absurd h hoff, fun h => hoffline h r⟩
  · intro d r hr
    simp only [device, offset, if_neg hoff, hr]

theorem init_triple (T : List Byte → Prop) :
    Triple p.device (fun d => T d.said) p.Allowed (pl011_init p.base) fun _ d =>
      d.regs.On ∧ T d.said := by
  have hoff : (0#32 : Word) &&& PL011_CR_UARTEN = 0#32 := by decide
  have hinit :
      Triple p.device (fun d => (∃ r, d.regs = id r) ∧ T d.said) p.Allowed (pl011_init p.base) _ :=
    .seq (p.init_store (by decide) T fun h => absurd h (by decide)) <|
      .seq (p.init_store (by decide) T fun _ _ => hoff) <|
      .seq (p.init_store (by decide) T fun _ _ => hoff) <|
      .seq (p.init_store (by decide) T fun _ _ => hoff) <|
      .seq (p.init_store (by decide) T fun _ _ => hoff) <|
      p.init_store (by decide) T fun h => absurd h (by decide)
  refine (hinit.pre fun d hT => ⟨⟨d.regs, rfl⟩, hT⟩).post ?_
  rintro _ d ⟨⟨r, hr⟩, hT⟩
  rw [hr]
  exact ⟨⟨rfl, rfl, rfl, rfl⟩, hT⟩

/-! ### One byte -/

theorem readFr_clear (d : Tx Pl011Regs) :
    p.readFr d &&& PL011_FR_TXFF = 0#32 ↔ d.fifo.length < p.capacity d.regs := by
  have hnot : ~~~PL011_FR_TXFF &&& PL011_FR_TXFF = 0#32 := by decide
  unfold readFr
  rw [BitVec.and_or_distrib_right, BitVec.and_assoc, hnot, BitVec.and_zero, BitVec.zero_or]
  split
  · simp [*]
  · simp [*, PL011_FR_TXFF]

theorem on_sends {r : Pl011Regs} (h : r.On) : r.sends = true := by
  unfold Pl011Regs.sends
  rw [h.cr]
  decide

theorem capacity_on {r : Pl011Regs} (h : r.On) : p.capacity r = p.depth := by
  unfold capacity
  rw [h.lcr_h]
  exact if_neg (by decide)

theorem putc_triple (t : List Byte) (c : Byte) :
    Triple p.device (fun d => d.regs.On ∧ d.said = t) p.Allowed (pl011_putc p.base c) fun _ d =>
      d.regs.On ∧ d.said = t ++ [c] := by
  refine Tx.putc_triple rfl Pl011Regs.On c (· = t) (· = t ++ [c]) (fun l h => h ▸ rfl) p.depth_pos
    (fun _ => on_sends) (fun _ _ => rfl) ?_ ?_ ?_
  · intro d hon
    simp only [device, offset, if_true, beq_iff_eq, readFr_clear, p.capacity_on hon]
  · intro d hon hlt
    unfold Allowed
    rw [offset, p.capacity_on hon]
    exact ⟨fun _ => ⟨on_sends hon, hlt⟩, fun h => absurd h (by decide)⟩
  · intro d hon hlt
    simp only [device, offset, if_true, p.capacity_on hon, hlt, byte_of_word]

end Pl011Part

/-! ## ns16550.c -/

def NS16550_THR : Word := 0x00#32
def NS16550_DLL : Word := 0x00#32
def NS16550_DLH : Word := 0x04#32
def NS16550_IER : Word := 0x04#32
def NS16550_FCR : Word := 0x08#32
def NS16550_LCR : Word := 0x0C#32
def NS16550_LSR : Word := 0x14#32
def NS16550_MDR1 : Word := 0xA4#32

def NS16550_LSR_THRE : Word := 1#32 <<< 5
def NS16550_IER_RHR_IT : Word := 1#32 <<< 0
def NS16550_FCR_EN : Word := 1#32 <<< 0
def NS16550_FCR_RXCLR : Word := 1#32 <<< 1
def NS16550_FCR_TXCLR : Word := 1#32 <<< 2
def NS16550_FCR_RXTRIG1 : Word := 0#32 <<< 6
def NS16550_LCR_8N1 : Word := 0x03#32
def NS16550_LCR_DLAB : Word := 1#32 <<< 7
def NS16550_MDR1_16X : Word := 0x00#32
def NS16550_MDR1_RESET : Word := 0x07#32

def ns16550_init (base : Word) : Driver Unit := do
  store (base + NS16550_MDR1) NS16550_MDR1_RESET
  store (base + NS16550_IER) 0#32
  store (base + NS16550_FCR)
    (NS16550_FCR_EN ||| NS16550_FCR_RXCLR ||| NS16550_FCR_TXCLR ||| NS16550_FCR_RXTRIG1)
  store (base + NS16550_LCR) (NS16550_LCR_DLAB ||| NS16550_LCR_8N1)
  store (base + NS16550_DLL) (26#32 &&& 0xFF#32)
  store (base + NS16550_DLH) 0#32
  store (base + NS16550_LCR) NS16550_LCR_8N1
  store (base + NS16550_IER) NS16550_IER_RHR_IT
  store (base + NS16550_MDR1) NS16550_MDR1_16X

def ns16550_putc (base : Word) (c : Byte) : Driver Unit := do
  awaitSet (base + NS16550_LSR) NS16550_LSR_THRE
  store (base + NS16550_THR) (c.setWidth 32)

def ns16550_ops : uart_ops := ⟨ns16550_init, ns16550_putc⟩

structure Ns16550Regs where
  mdr1 : Word
  ier : Word
  fcr : Word
  lcr : Word
  dll : Word
  dlh : Word

namespace Ns16550Regs

def dlab (r : Ns16550Regs) : Bool := r.lcr &&& NS16550_LCR_DLAB != 0#32

def sends (r : Ns16550Regs) : Bool := r.mdr1 &&& NS16550_MDR1_RESET != NS16550_MDR1_RESET

/-- With DLAB set, the first two registers are the divisor. -/
def write (r : Ns16550Regs) (off v : Word) : Ns16550Regs :=
  if off = NS16550_DLL then if r.dlab then { r with dll := v } else r
  else if off = NS16550_IER then if r.dlab then { r with dlh := v } else { r with ier := v }
  else if off = NS16550_FCR then { r with fcr := v }
  else if off = NS16550_LCR then { r with lcr := v }
  else if off = NS16550_MDR1 then { r with mdr1 := v }
  else r

theorem write_mdr1 (r : Ns16550Regs) (off v : Word) :
    (r.write off v).mdr1 = if off = NS16550_MDR1 then v else r.mdr1 := by
  unfold write
  split_ifs <;> simp_all [NS16550_DLL, NS16550_IER, NS16550_FCR, NS16550_LCR, NS16550_MDR1]

theorem write_lcr (r : Ns16550Regs) (off v : Word) :
    (r.write off v).lcr = if off = NS16550_LCR then v else r.lcr := by
  unfold write
  split_ifs <;> simp_all [NS16550_DLL, NS16550_IER, NS16550_FCR, NS16550_LCR]

theorem write_dll {r : Ns16550Regs} (h : r.dlab = true) (v : Word) :
    r.write NS16550_DLL v = { r with dll := v } := by
  simp only [write, h, if_true]

theorem write_dlh {r : Ns16550Regs} (h : r.dlab = true) (v : Word) :
    r.write NS16550_DLH v = { r with dlh := v } := by
  simp only [write, if_neg (show NS16550_DLH ≠ NS16550_DLL by decide), h, if_true]
  rfl

theorem write_ier {r : Ns16550Regs} (h : r.dlab = false) (v : Word) :
    r.write NS16550_IER v = { r with ier := v } := by
  simp only [write, if_neg (show NS16550_IER ≠ NS16550_DLL by decide), h, if_true,
    Bool.false_eq_true, if_false]

/-- 8N1 at 48 MHz / (16 * 26) baud, FIFOs on, an interrupt for every byte received. -/
structure On (r : Ns16550Regs) : Prop where
  mdr1 : r.mdr1 = NS16550_MDR1_16X
  ier : r.ier = NS16550_IER_RHR_IT
  fcr : r.fcr = NS16550_FCR_EN ||| NS16550_FCR_RXCLR ||| NS16550_FCR_TXCLR ||| NS16550_FCR_RXTRIG1
  lcr : r.lcr = NS16550_LCR_8N1
  dll : r.dll = 26#32
  dlh : r.dlh = 0#32

end Ns16550Regs

structure Ns16550Part where
  base : Word
  depth : Nat
  depth_pos : 0 < depth

namespace Ns16550Part

variable (p : Ns16550Part)

/-- THRE is about the whole FIFO. -/
def readLsr (d : Tx Ns16550Regs) : Word :=
  d.flags &&& ~~~NS16550_LSR_THRE ||| if d.fifo = [] then NS16550_LSR_THRE else 0#32

/-- A byte that finds no room is lost, and so is what waits when TXCLR is written. -/
def device : Device (Tx Ns16550Regs) Word Word where
  read d a := if a - p.base = NS16550_LSR then readLsr d else 0#32
  after d _ := d
  write d a v :=
    if a - p.base = NS16550_THR ∧ d.regs.dlab = false then
      if d.fifo.length < p.depth then { d with fifo := d.fifo ++ [v.setWidth 8] } else d
    else if a - p.base = NS16550_FCR ∧ v &&& NS16550_FCR_TXCLR ≠ 0#32 then
      { d with regs := d.regs.write (a - p.base) v, fifo := [] }
    else { d with regs := d.regs.write (a - p.base) v }
  own := Tx.Own Ns16550Regs.sends

/-- Data only into an enabled chip that has nothing left to send, and the line only set up while the
chip is off. -/
def Allowed (d : Tx Ns16550Regs) (a _ : Word) : Prop :=
  (a - p.base = NS16550_THR → d.regs.dlab = false → d.regs.sends = true ∧ d.fifo = []) ∧
    (a - p.base = NS16550_DLL ∨ a - p.base = NS16550_DLH → d.regs.dlab = true → d.regs.sends = false) ∧
    (a - p.base = NS16550_LCR → d.regs.sends = false)

/-- What was sent before, and then `t`. -/
def After (old t l : List Byte) : Prop := ∃ sent, sent <+: old ∧ l = sent ++ t

section

variable {f : Ns16550Regs → Ns16550Regs} {off v : Word}

/-- A store of `ns16550_init`. -/
theorem init_store (hdata : off = NS16550_THR → ∀ r, (f r).dlab = true) (hclear : off ≠ NS16550_FCR)
    (T : List Byte → Prop)
    (hoff : off = NS16550_DLL ∨ off = NS16550_DLH ∨ off = NS16550_LCR → ∀ r, (f r).sends = false) :
    Triple p.device (fun d => (∃ r, d.regs = f r) ∧ T d.said) p.Allowed (store (p.base + off) v)
      fun _ d => (∃ r, d.regs = (f r).write off v) ∧ T d.said := by
  refine Tx.setup_triple (g := fun r => (f r).write off v) rfl T ?_ ?_
  · intro d r hr
    unfold Allowed
    rw [offset, hr]
    refine ⟨fun h hdlab => absurd (hdata h r) (by simp [hdlab]),
      fun h _ => hoff (h.imp_right Or.inl) r, fun h => ?_⟩
    exact hoff (Or.inr (Or.inr h)) r
  · intro d r hr
    have hnot : ¬ (off = NS16550_THR ∧ (f r).dlab = false) :=
      fun h => absurd (hdata h.1 r) (by simp [h.2])
    simp only [device, offset, hr, if_neg hnot, hclear, false_and, if_false]

/-- The one store that throws bytes away. -/
theorem clear_store {old : List Byte} (hv : v &&& NS16550_FCR_TXCLR ≠ 0#32) :
    Triple p.device (fun d => (∃ r, d.regs = f r) ∧ d.said = old) p.Allowed
      (store (p.base + NS16550_FCR) v)
      fun _ d => (∃ r, d.regs = (f r).write NS16550_FCR v) ∧ After old [] d.said := by
  refine .store (Tx.stable_said rfl (fun r' => ∃ r, r' = f r) (· = old)) ?_ ?_
    (Tx.stable_said rfl (fun r' => ∃ r, r' = (f r).write NS16550_FCR v) (After old []))
  · rintro d -
    unfold Allowed
    rw [offset]
    exact ⟨fun h => absurd h (by decide), fun h => absurd h (by decide), fun h => absurd h (by decide)⟩
  · rintro d ⟨⟨r, hr⟩, hsaid⟩
    have hnot : ¬ (NS16550_FCR = NS16550_THR ∧ (f r).dlab = false) := fun h => absurd h.1 (by decide)
    simp only [device, offset, hr, if_neg hnot, ne_eq, hv, not_false_eq_true, and_self, if_true]
    refine ⟨⟨r, rfl⟩, d.wire, ?_, rfl⟩
    rw [← hsaid]
    exact List.prefix_append _ _

end

theorem data_8n1 {r : Ns16550Regs} (h : r.lcr = NS16550_LCR_8N1) : r.dlab = false := by
  unfold Ns16550Regs.dlab
  rw [h]
  decide

theorem init_triple (old : List Byte) :
    Triple p.device (fun d => d.said = old) p.Allowed (ns16550_init p.base) fun _ d =>
      d.regs.On ∧ After old [] d.said := by
  have hdata {off : Word} (h : off ≠ NS16550_THR) (f : Ns16550Regs → Ns16550Regs) :
      off = NS16550_THR → ∀ r, (f r).dlab = true := fun he => absurd he h
  have hquiet {r : Ns16550Regs} (h : r.mdr1 = NS16550_MDR1_RESET) : r.sends = false := by
    unfold Ns16550Regs.sends
    rw [h]
    decide
  have hdlab {r : Ns16550Regs} (h : r.lcr = NS16550_LCR_DLAB ||| NS16550_LCR_8N1) : r.dlab = true := by
    unfold Ns16550Regs.dlab
    rw [h]
    decide
  have hinit :
      Triple p.device (fun d => (∃ r, d.regs = id r) ∧ d.said = old) p.Allowed (ns16550_init p.base) _ :=
    .seq (p.init_store (hdata (by decide) _) (by decide) (· = old) fun h => absurd h (by decide)) <|
      .seq (p.init_store (hdata (by decide) _) (by decide) (· = old) fun _ _ => hquiet rfl) <|
      .seq (p.clear_store (by decide)) <|
      .seq (p.init_store (hdata (by decide) _) (by decide) (After old [])
        fun _ _ => hquiet (by simp only [Ns16550Regs.write_mdr1]; rfl)) <|
      .seq (p.init_store (fun _ _ => hdlab (Ns16550Regs.write_lcr _ _ _)) (by decide) (After old [])
        fun _ _ => hquiet (by simp only [Ns16550Regs.write_mdr1]; rfl)) <|
      .seq (p.init_store (hdata (by decide) _) (by decide) (After old [])
        fun _ _ => hquiet (by simp only [Ns16550Regs.write_mdr1]; rfl)) <|
      .seq (p.init_store (hdata (by decide) _) (by decide) (After old [])
        fun _ _ => hquiet (by simp only [Ns16550Regs.write_mdr1]; rfl)) <|
      .seq (p.init_store (hdata (by decide) _) (by decide) (After old [])
        fun _ _ => hquiet (by simp only [Ns16550Regs.write_mdr1]; rfl)) <|
      p.init_store (hdata (by decide) _) (by decide) (After old []) fun h => absurd h (by decide)
  refine (hinit.pre fun d hd => ⟨⟨d.regs, rfl⟩, hd⟩).post ?_
  rintro _ d ⟨⟨r, hr⟩, hT⟩
  -- The write to IER may have gone to DLH, as the bootloader has left DLAB.
  generalize ((id r).write NS16550_MDR1 NS16550_MDR1_RESET).write NS16550_IER 0#32 = r' at hr
  have hset :
      (r'.write NS16550_FCR
        (NS16550_FCR_EN ||| NS16550_FCR_RXCLR ||| NS16550_FCR_TXCLR ||| NS16550_FCR_RXTRIG1)).write
      NS16550_LCR (NS16550_LCR_DLAB ||| NS16550_LCR_8N1) =
        { r' with
          fcr := NS16550_FCR_EN ||| NS16550_FCR_RXCLR ||| NS16550_FCR_TXCLR ||| NS16550_FCR_RXTRIG1
          lcr := NS16550_LCR_DLAB ||| NS16550_LCR_8N1 } := rfl
  rw [hset, Ns16550Regs.write_dll (hdlab rfl), Ns16550Regs.write_dlh (hdlab rfl),
    Ns16550Regs.write_ier (data_8n1 rfl)] at hr
  rw [hr]
  exact ⟨⟨rfl, rfl, rfl, rfl, (by decide : 26#32 &&& 0xFF#32 = 26#32), rfl⟩, hT⟩

theorem readLsr_set (d : Tx Ns16550Regs) : readLsr d &&& NS16550_LSR_THRE ≠ 0#32 ↔ d.fifo = [] := by
  have hnot : ~~~NS16550_LSR_THRE &&& NS16550_LSR_THRE = 0#32 := by decide
  unfold readLsr
  rw [BitVec.and_or_distrib_right, BitVec.and_assoc, hnot, BitVec.and_zero, BitVec.zero_or]
  split
  · simp [*, NS16550_LSR_THRE]
  · simp [*]

theorem on_sends {r : Ns16550Regs} (h : r.On) : r.sends = true := by
  unfold Ns16550Regs.sends
  rw [h.mdr1]
  decide

theorem putc_triple (old t : List Byte) (c : Byte) :
    Triple p.device (fun d => d.regs.On ∧ After old t d.said) p.Allowed
      (ns16550_putc p.base c) fun _ d =>
      d.regs.On ∧ After old (t ++ [c]) d.said := by
  have hempty (l : List Byte) : l.length < 1 ↔ l = [] := by rw [Nat.lt_one_iff, List.length_eq_zero_iff]
  refine Tx.putc_triple rfl Ns16550Regs.On c (After old t) (After old (t ++ [c])) ?_ Nat.one_pos
    (fun _ => on_sends) (fun _ _ => rfl) ?_ ?_ ?_
  · rintro l ⟨sent, hsent, rfl⟩
    exact ⟨sent, hsent, List.append_assoc _ _ _⟩
  · intro d _
    simp only [device, offset, if_true, bne_iff_ne, readLsr_set, hempty]
  · intro d hon hlt
    unfold Allowed
    rw [offset, data_8n1 hon.lcr]
    exact ⟨fun _ _ => ⟨on_sends hon, (hempty _).mp hlt⟩, fun _ h => absurd h (by decide), fun h =>
      absurd h (by decide)⟩
  · intro d hon hlt
    have hroom : d.fifo.length < p.depth := lt_of_lt_of_le hlt p.depth_pos
    simp only [device, offset, data_8n1 hon.lcr, and_self, if_true, hroom, byte_of_word]

end Ns16550Part

/-! ## The boards -/

def qemu_uart0 : uart_device := ⟨pl011_ops, 0x10009000#32, 44#32⟩
def bbb_uart0 : uart_device := ⟨ns16550_ops, 0x44E09000#32, 72#32⟩

/-- Whatever the chip does in between: what the kernel prints goes out byte by byte and in order,
nothing is written to a full FIFO, and the printing comes to its end. -/
theorem console_sends (cfg : Config) (text old : List Byte) :
    (text.flatMap CortexAOS.uart_putc : List (Obs cfg)) = (text.flatMap crlf).map .putc ∧
    (∀ p : Pl011Part, p.base = qemu_uart0.base →
      Triple p.device (fun d => d.said = old) p.Allowed (session qemu_uart0 text) fun _ d =>
        d.regs.On ∧ d.said = old ++ text.flatMap crlf) ∧
    (∀ p : Ns16550Part, p.base = bbb_uart0.base →
      Triple p.device (fun d => d.said = old) p.Allowed (session bbb_uart0 text) fun _ d =>
        d.regs.On ∧ Ns16550Part.After old (text.flatMap crlf) d.said) := by
  refine ⟨?_, fun p hp => ?_, fun p hp => ?_⟩
  · rw [List.map_flatMap]
    exact List.flatMap_congr fun c _ => uart_putc_obs c
  · refine session_triple (fun t (d : Tx Pl011Regs) => d.regs.On ∧ d.said = old ++ t)
      (fun t => ?_) ?_ (fun t c => ?_) text
    · exact Tx.stable_said rfl Pl011Regs.On (· = old ++ t)
    · rw [← hp, List.append_nil]
      exact p.init_triple (· = old)
    · rw [← hp, ← List.append_assoc]
      exact p.putc_triple (old ++ t) c
  · refine session_triple (fun t (d : Tx Ns16550Regs) => d.regs.On ∧ Ns16550Part.After old t d.said)
      (fun t => ?_) ?_ (fun t c => ?_) text
    · exact Tx.stable_said rfl Ns16550Regs.On (Ns16550Part.After old t)
    · rw [← hp]
      exact p.init_triple old
    · rw [← hp]
      exact p.putc_triple old t c

/-- With FIFOs of 16 and of 64 bytes. -/
def qemu_pl011 : Pl011Part := ⟨0x10009000#32, 16, by decide⟩
def bbb_ns16550 : Ns16550Part := ⟨0x44E09000#32, 64, by decide⟩

/-- `ok` and a newline, on a chip that holds nothing. -/
theorem console_sends_line :
    (Triple qemu_pl011.device (fun d => d.said = []) qemu_pl011.Allowed
      (session qemu_uart0 [0x6F#8, 0x6B#8, 0x0A#8])
      fun _ d => d.regs.On ∧ d.said = [0x6F#8, 0x6B#8, 0x0D#8, 0x0A#8]) ∧
    Triple bbb_ns16550.device (fun d => d.said = []) bbb_ns16550.Allowed
      (session bbb_uart0 [0x6F#8, 0x6B#8, 0x0A#8])
      fun _ d => d.regs.On ∧ d.said = [0x6F#8, 0x6B#8, 0x0D#8, 0x0A#8] := by
  obtain ⟨-, hqemu, hbbb⟩ := console_sends demo [0x6F#8, 0x6B#8, 0x0A#8] []
  refine ⟨hqemu qemu_pl011 rfl, (hbbb bbb_ns16550 rfl).post fun _ d hd => ⟨hd.1, ?_⟩⟩
  obtain ⟨sent, hsent, hsaid⟩ := hd.2
  rw [hsaid, List.prefix_nil.mp hsent]
  rfl

end CortexAOS.Drivers
