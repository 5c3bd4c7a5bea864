import CortexAOS.Pgtable
import CortexAOS.Lib.Lane

/-!
# process_init_all, in memory

`Pgtable.lean` takes the images as lists. Here they lie in memory, as do the PCBs, and the loop reads
and writes them there. The kernel reaches all of it through its own addresses.
-/

namespace CortexAOS

variable {cfg : Config}

/-! ## Bytes of memory -/

namespace Mem

def byte (m : Mem) (pa : Word) : Byte := Lib.Lane.get (m (pa.toNat / 4)) (pa.toNat % 4)

def ldr (m : Mem) (pa : Word) : Word := m (pa.toNat / 4)

def str (m : Mem) (pa v : Word) : Mem := Function.update m (pa.toNat / 4) v

end Mem

/-- `kmemcpy` with its source in memory. -/
def kmemcpy_from (m : Mem) (dst src : Word) (n : Nat) : Mem :=
  (List.range n).foldl
    (fun m i => m.setByte (dst + BitVec.ofNat 32 i) (m.byte (src + BitVec.ofNat 32 i))) m

/-! ## process.c -/

/-- Addresses that the linker chose: `processes`, and the fields of `user_images`. -/
structure Symbols (cfg : Config) where
  processes : Word
  start : Pid cfg → Word
  name : Pid cfg → Word

/-- Where the kernel's mapping puts one of its addresses. -/
def Board.pa (b : Board) (va : Word) : Word := va - b.PHYS_OFFSET

/-- The offset of `img_size`, which comes after `threads[]`. -/
def IMG_SIZE (cfg : Config) : Nat := 24 + 4 * cfg.THREADS_PER_PROC

def PCB_SIZE (cfg : Config) : Nat := IMG_SIZE cfg + 4

namespace Symbols

def end_ (y : Symbols cfg) (i : Pid cfg) : Word :=
  y.start i + BitVec.ofNat 32 (cfg.user_images i).image.length

def pcb (y : Symbols cfg) (i : Pid cfg) : Word :=
  cfg.board.pa (y.processes + BitVec.ofNat 32 i.val * BitVec.ofNat 32 (PCB_SIZE cfg))

/-- The part of a round that fills in the PCB. -/
def pcb_init (y : Symbols cfg) (m : Mem) (i : Pid cfg) : Mem :=
  let p := y.pcb i
  let img_size := y.end_ i - y.start i
  let m := kmemset m p 0#8 (PCB_SIZE cfg)
  let m := m.str p (BitVec.ofNat 32 i.val)
  let m := m.str (p + 4#32) (y.name i)
  let m := m.str (p + 8#32) (cfg.proc_pgd + BitVec.ofNat 32 i.val * PGD_SIZE)
  let m := m.str (p + 12#32) (cfg.proc_pgd + BitVec.ofNat 32 i.val * PGD_SIZE - cfg.board.PHYS_OFFSET)
  let m := m.str (p + 16#32) USER_VIRT_BASE
  let m := m.str (p + 20#32) (cfg.board.USER_PHYS_BASE + BitVec.ofNat 32 i.val * USER_PHYS_STRIDE)
  m.str (p + BitVec.ofNat 32 (IMG_SIZE cfg)) img_size

/-- The rest of the round. The addresses come from the PCB. -/
def load_image (y : Symbols cfg) (m : Mem) (i : Pid cfg) : Mem :=
  let p := y.pcb i
  let img_size := y.end_ i - y.start i
  let user_va := m.ldr (p + 20#32) + cfg.board.PHYS_OFFSET
  let m := kmemset m (cfg.board.pa user_va) 0#8 USER_REGION_SIZE.toNat
  let m := kmemcpy_from m (cfg.board.pa user_va) (cfg.board.pa (y.start i)) img_size.toNat
  pgtable_build_for_proc cfg.board cfg.boot_pgd_pa m (cfg.board.pa (m.ldr (p + 8#32)))
    (m.ldr (p + 20#32))

def process_init_all (y : Symbols cfg) (m : Mem) : Mem :=
  (List.finRange cfg.NUM_PROCESSES).foldl (fun m i => y.load_image (y.pcb_init m i) i) m

end Symbols

/-! ## Loops over bytes -/

theorem byte_setByte (m : Mem) (a x : Word) (c : Byte) :
    (m.setByte a c).byte x = if x = a then c else m.byte x := by
  have hset :
    m.setByte a c =
      Function.update m (a.toNat / 4) (Lib.Lane.set (m (a.toNat / 4)) (a.toNat % 4) c) := rfl
  have hlane : a.toNat % 4 < 4 := Nat.mod_lt _ (by decide)
  unfold Mem.byte
  rw [hset]
  by_cases hword : x.toNat / 4 = a.toNat / 4
  · rw [hword, Function.update_self]
    by_cases hx : x = a
    · rw [if_pos hx, hx, Lib.Lane.get_set_self _ hlane]
    · have hne : x.toNat % 4 ≠ a.toNat % 4 := fun h => hx (BitVec.eq_of_toNat_eq (by omega))
      rw [if_neg hx, Lib.Lane.get_set_of_ne _ hlane hne]
  · have hx : x ≠ a := fun h => hword (by rw [h])
    rw [if_neg hx, Function.update_of_ne hword]

theorem Within.byte {P : Nat → Prop} {m m' : Mem} (h : Within P m m') {x : Word}
    (hx : ¬ P (x.toNat / 4)) : m'.byte x = m.byte x := by
  unfold Mem.byte
  rw [h _ hx]

def Words (a n j : Nat) : Prop := a / 4 ≤ j ∧ j < (a + n) / 4

theorem offset_inj (a : Word) {i j n : Nat} (hn : n ≤ 2 ^ 32) (hi : i < n) (hj : j < n)
    (h : a + BitVec.ofNat 32 i = a + BitVec.ofNat 32 j) : i = j := by
  have heq := congrArg BitVec.toNat h
  rw [BitVec.toNat_add, BitVec.toNat_add, BitVec.toNat_ofNat, BitVec.toNat_ofNat] at heq
  have ha := a.isLt
  omega

theorem offset_words {a : Word} {d n : Nat} (ha : a.toNat % 4 = 0) (hn : n % 4 = 0)
    (hfit : a.toNat + n ≤ 2 ^ 32)
    (hd : d < n) : Words a.toNat n ((a + BitVec.ofNat 32 d).toNat / 4) := by
  unfold Words
  rw [BitVec.toNat_add, BitVec.toNat_ofNat]
  omega

theorem kmemset_byte (m : Mem) (a : Word) (v : Byte) {n d : Nat} (hd : d < n) :
    (kmemset m a v n).byte (a + BitVec.ofNat 32 d) = v := by
  unfold kmemset
  suffices hk : ∀ k, k ≤ n → ∀ d < k, ((List.range k).foldl
      (fun m i => m.setByte (a + BitVec.ofNat 32 i) v) m).byte (a + BitVec.ofNat 32 d) = v from
    hk n (Nat.le_refl _) d hd
  intro k
  induction k with
  | zero => intro _ d hd; omega
  | succ k ih =>
    intro hk d hd
    rw [List.range_succ, List.foldl_append, List.foldl_cons, List.foldl_nil, byte_setByte]
    by_cases heq : a + BitVec.ofNat 32 d = a + BitVec.ofNat 32 k
    · rw [if_pos heq]
    · rw [if_neg heq]
      have hne : d ≠ k := fun h => heq (by rw [h])
      exact ih (by omega) d (by omega)

section

variable {a : Word} {n : Nat} (ha : a.toNat % 4 = 0) (hn : n % 4 = 0) (hfit : a.toNat + n ≤ 2 ^ 32)

include ha hn hfit

theorem kmemset_words (m : Mem) (v : Byte) : Within (Words a.toNat n) m (kmemset m a v n) :=
  Within.foldl (fun m _ hi => setByte_within m _ v (offset_words ha hn hfit (List.mem_range.mp hi))) m

theorem kmemset_zero (m : Mem) {j : Nat} (hj : Words a.toNat n j) : kmemset m a 0#8 n j = 0#32 := by
  obtain ⟨hlo, hhi⟩ := hj
  apply Lib.Lane.ext
  intro l hl
  have hbyte := kmemset_byte m a 0#8 (show 4 * j + l - a.toNat < n by omega)
  have haddr : (a + BitVec.ofNat 32 (4 * j + l - a.toNat)).toNat = 4 * j + l := by
    rw [BitVec.toNat_add, BitVec.toNat_ofNat]
    omega
  unfold Mem.byte at hbyte
  rw [haddr, show (4 * j + l) / 4 = j by omega, show (4 * j + l) % 4 = l by omega] at hbyte
  rw [hbyte]
  unfold Lib.Lane.get
  simp

theorem kmemcpy_from_byte (m : Mem) {src : Word} {len : Nat} (hlen : len ≤ n)
    (hsrc : ∀ d < len, ¬ Words a.toNat n ((src + BitVec.ofNat 32 d).toNat / 4)) {d : Nat} (hd : d < n) :
    (kmemcpy_from m a src len).byte (a + BitVec.ofNat 32 d) =
      if d < len then m.byte (src + BitVec.ofNat 32 d) else m.byte (a + BitVec.ofNat 32 d) := by
  unfold kmemcpy_from
  suffices hk : ∀ k, k ≤ len → Within (Words a.toNat n) m ((List.range k).foldl
      (fun m i => m.setByte (a + BitVec.ofNat 32 i) (m.byte (src + BitVec.ofNat 32 i))) m) ∧
      ∀ d < n,
        ((List.range k).foldl
          (fun m i => m.setByte (a + BitVec.ofNat 32 i) (m.byte (src + BitVec.ofNat 32 i)))
        m).byte (a + BitVec.ofNat 32 d) =
        if d < k then m.byte (src + BitVec.ofNat 32 d) else m.byte (a + BitVec.ofNat 32 d) from
    (hk len (Nat.le_refl _)).2 d hd
  intro k
  induction k with
  | zero => exact fun _ => ⟨.refl m, fun d _ => by simp⟩
  | succ k ih =>
    intro hk
    obtain ⟨hwithin, hbytes⟩ := ih (by omega)
    rw [List.range_succ, List.foldl_append, List.foldl_cons, List.foldl_nil]
    refine ⟨hwithin.trans (setByte_within _ _ _ (offset_words ha hn hfit (by omega))), ?_⟩
    intro d hd
    rw [byte_setByte]
    by_cases heq : d = k
    · rw [if_pos (by rw [heq]), if_pos (by omega), heq, hwithin.byte (hsrc k (by omega))]
    · rw [if_neg fun h => heq (offset_inj a (by omega) hd (show k < n by omega) h), hbytes d hd]
      by_cases hlt : d < k
      · rw [if_pos hlt, if_pos (by omega)]
      · rw [if_neg hlt, if_neg (by omega)]

theorem kmemcpy_from_words (m : Mem) (src : Word) {len : Nat} (hlen : len ≤ n) :
    Within (Words a.toNat n) m (kmemcpy_from m a src len) := by
  refine Within.foldl (fun m i hi => setByte_within m _ _ ?_) m
  have hlt := List.mem_range.mp hi
  exact offset_words ha hn hfit (by omega)

end

/-! ## Where everything lies -/

def slotWords (i : Pid cfg) : Nat → Prop := Words (process_init cfg i).user_phys_base.toNat 0x100000

namespace Symbols

def pcbWords (y : Symbols cfg) (i : Pid cfg) : Nat → Prop := Words (y.pcb i).toNat (PCB_SIZE cfg)

/-- What a round may write: the slot of the process, its PCB and its table. -/
def Region (y : Symbols cfg) (i : Pid cfg) (j : Nat) : Prop :=
  slotWords i j ∨ y.pcbWords i j ∨ InTable (process_init cfg i).pgd_pa j

def ImageAt (y : Symbols cfg) (m : Mem) (i : Pid cfg) : Prop :=
  ∀ d < (cfg.user_images i).image.length,
    m.byte (cfg.board.pa (y.start i) + BitVec.ofNat 32 d) = (cfg.user_images i).image.getD d 0#8

/-- Different objects of the kernel have no word in common, with each other or with a slot, and an image
fits in the window that user.ld gives it. -/
structure Separate (y : Symbols cfg) : Prop where
  placed : Placed cfg
  pcb_aligned : y.processes.toNat % 4 = 0
  pcb_lo : 0xC0000000 ≤ y.processes.toNat
  pcb_hi : y.processes.toNat + cfg.NUM_PROCESSES * PCB_SIZE cfg ≤ 2 ^ 32
  size : ∀ i, (cfg.user_images i).image.length ≤ USER_REGION_SIZE.toNat
  pcb_boot : ∀ i j, y.pcbWords i j → ¬ InTable cfg.boot_pgd_pa j
  pcb_table : ∀ i q j, y.pcbWords i j → ¬ InTable (process_init cfg q).pgd_pa j
  pcb_slot : ∀ (i q : Pid cfg) j, y.pcbWords i j → ¬ slotWords q j
  table_slot : ∀ (i q : Pid cfg) j, InTable (process_init cfg i).pgd_pa j → ¬ slotWords q j
  boot_slot : ∀ (q : Pid cfg) j, InTable cfg.boot_pgd_pa j → ¬ slotWords q j
  image : ∀ i q, ∀ d < (cfg.user_images i).image.length,
    ¬ y.Region q ((cfg.board.pa (y.start i) + BitVec.ofNat 32 d).toNat / 4)

end Symbols

/-! ## What a round leaves -/

def SlotHolds (m : Mem) (i : Pid cfg) : Prop :=
  ∀ d < 0x100000, m.byte ((process_init cfg i).user_phys_base + BitVec.ofNat 32 d) =
    (cfg.user_images i).image.getD d 0#8

/-- The PCB in memory is the one of `Tables.lean`. -/
structure Symbols.PcbHolds (y : Symbols cfg) (m : Mem) (i : Pid cfg) : Prop where
  pid : m.entry (y.pcb i) 0 = BitVec.ofNat 32 (process_init cfg i).pid
  name : m.entry (y.pcb i) 1 = y.name i
  pgd : m.entry (y.pcb i) 2 = (process_init cfg i).pgd
  pgd_pa : m.entry (y.pcb i) 3 = (process_init cfg i).pgd_pa
  user_entry : m.entry (y.pcb i) 4 = (process_init cfg i).user_entry
  user_phys_base : m.entry (y.pcb i) 5 = (process_init cfg i).user_phys_base
  threads : ∀ t < cfg.THREADS_PER_PROC, m.entry (y.pcb i) (6 + t) = 0#32
  img_size : m.entry (y.pcb i) (6 + cfg.THREADS_PER_PROC) = (process_init cfg i).img_size

theorem PCB_SIZE_eq (cfg : Config) : PCB_SIZE cfg = 4 * (7 + cfg.THREADS_PER_PROC) := by
  unfold PCB_SIZE IMG_SIZE
  omega

theorem Symbols.PcbHolds.frame {y : Symbols cfg} {m m' : Mem} {i : Pid cfg} (h : y.PcbHolds m i)
    {P : Nat → Prop} (hw : Within P m m') (hP : ∀ j, y.pcbWords i j → ¬ P j) : y.PcbHolds m' i := by
  have hkeep : ∀ k < 7 + cfg.THREADS_PER_PROC, m'.entry (y.pcb i) k = m.entry (y.pcb i) k := by
    intro k hk
    refine hw _ (hP _ ⟨by omega, ?_⟩)
    rw [PCB_SIZE_eq]
    omega
  refine ⟨?_, ?_, ?_, ?_, ?_, ?_, ?_, ?_⟩
  · rw [hkeep 0 (by omega)]; exact h.pid
  · rw [hkeep 1 (by omega)]; exact h.name
  · rw [hkeep 2 (by omega)]; exact h.pgd
  · rw [hkeep 3 (by omega)]; exact h.pgd_pa
  · rw [hkeep 4 (by omega)]; exact h.user_entry
  · rw [hkeep 5 (by omega)]; exact h.user_phys_base
  · intro t ht
    rw [hkeep (6 + t) (by omega)]
    exact h.threads t ht
  · rw [hkeep _ (by omega)]; exact h.img_size

/-! ## Addresses as numbers -/

theorem pcb_room (i : Pid cfg) :
    i.val * PCB_SIZE cfg + PCB_SIZE cfg ≤ cfg.NUM_PROCESSES * PCB_SIZE cfg := by
  rw [← Nat.succ_mul]
  exact Nat.mul_le_mul_right _ i.isLt

namespace Symbols.Separate

variable {y : Symbols cfg} (h : y.Separate)

include h

theorem pcb_toNat (i : Pid cfg) :
    (y.pcb i).toNat =
      y.processes.toNat + i.val * PCB_SIZE cfg - 0xC0000000 + cfg.board.RAM_BASE.toNat := by
  have h1 := h.placed.offset_toNat
  have h2 := h.placed.ram_lt
  have h3 := h.pcb_lo
  have h4 := h.pcb_hi
  have h5 := pcb_room i
  have hmul : (BitVec.ofNat 32 i.val * BitVec.ofNat 32 (PCB_SIZE cfg)).toNat = i.val * PCB_SIZE cfg := by
    rw [← BitVec.ofNat_mul, BitVec.toNat_ofNat]
    exact Nat.mod_eq_of_lt (by omega)
  unfold Symbols.pcb Board.pa
  rw [BitVec.toNat_sub, BitVec.toNat_add, hmul, h1]
  omega

theorem pcb_pa_aligned (i : Pid cfg) : (y.pcb i).toNat % 4 = 0 := by
  have h1 := h.pcb_toNat i
  have h2 := h.placed.ram_aligned
  have h3 := h.pcb_aligned
  have h4 := h.pcb_lo
  have hsize : i.val * PCB_SIZE cfg % 4 = 0 := by
    rw [PCB_SIZE_eq, Nat.mul_left_comm]
    exact Nat.mul_mod_right _ _
  omega

theorem pcb_fits (i : Pid cfg) : (y.pcb i).toNat + PCB_SIZE cfg ≤ 2 ^ 32 := by
  have h1 := h.pcb_toNat i
  have h2 := h.placed.ram_lt
  have h3 := h.pcb_lo
  have h4 := h.pcb_hi
  have h5 := pcb_room i
  omega

theorem slot_aligned (i : Pid cfg) : (process_init cfg i).user_phys_base.toNat % 4 = 0 := by
  have h1 := h.placed.slot_toNat i
  have h2 := h.placed.ram_aligned
  omega

theorem slot_fits (i : Pid cfg) : (process_init cfg i).user_phys_base.toNat + 0x100000 ≤ 2 ^ 32 := by
  have h1 := h.placed.slot_toNat i
  have h2 := h.placed.slots
  have h3 := h.placed.user_base_toNat
  have hi := i.isLt
  rw [USER_PHYS_STRIDE_toNat] at h2
  omega

theorem regions_apart {p q : Pid cfg} (hne : p ≠ q) (j : Nat) (hp : y.Region p j) : ¬ y.Region q j := by
  have hv : p.val ≠ q.val := fun he => hne (Fin.ext he)
  rintro (hq | hq | hq)
  · rcases hp with hp | hp | hp
    · have h1 := h.placed.slot_toNat p
      have h2 := h.placed.slot_toNat q
      have h3 := h.placed.ram_aligned
      unfold slotWords Words at hp hq
      omega
    · exact h.pcb_slot p q j hp hq
    · exact h.table_slot p q j hp hq
  · rcases hp with hp | hp | hp
    · exact h.pcb_slot q p j hq hp
    · have h1 := h.pcb_toNat p
      have h2 := h.pcb_toNat q
      have h3 := h.pcb_pa_aligned p
      have h4 := h.pcb_pa_aligned q
      have h5 := h.pcb_lo
      unfold pcbWords Words at hp hq
      rcases Nat.lt_or_gt_of_ne hv with hlt | hgt
      · have := Nat.mul_le_mul_right (PCB_SIZE cfg) hlt
        rw [Nat.succ_mul] at this
        omega
      · have := Nat.mul_le_mul_right (PCB_SIZE cfg) hgt
        rw [Nat.succ_mul] at this
        omega
    · exact h.pcb_table q p j hq hp
  · rcases hp with hp | hp | hp
    · exact h.table_slot q p j hq hp
    · exact h.pcb_table p q j hp hq
    · exact h.placed.proc_apart hne j hp hq

theorem boot_apart (q : Pid cfg) (j : Nat) (hb : InTable cfg.boot_pgd_pa j) : ¬ y.Region q j := by
  rintro (hq | hq | hq)
  · exact h.boot_slot q j hb hq
  · exact h.pcb_boot q j hq hb
  · exact h.placed.boot_apart q j hb hq

end Symbols.Separate

/-! ## The PCB -/

theorem field_index {p o : Word} {k : Nat} (hp : p.toNat % 4 = 0) (ho : o.toNat = 4 * k)
    (hk : p.toNat + 4 * k < 2 ^ 32) : (p + o).toNat / 4 = p.toNat / 4 + k := by
  rw [BitVec.toNat_add, ho]
  omega

theorem str_field (m : Mem) {p o : Word} {k : Nat} (v : Word) (hp : p.toNat % 4 = 0)
    (ho : o.toNat = 4 * k)
    (hk : p.toNat + 4 * k < 2 ^ 32) : m.str (p + o) v = m.setEntry p k v := by
  unfold Mem.str Mem.setEntry
  rw [field_index hp ho hk]

theorem ldr_field (m : Mem) {p o : Word} {k : Nat} (hp : p.toNat % 4 = 0) (ho : o.toNat = 4 * k)
    (hk : p.toNat + 4 * k < 2 ^ 32) : m.ldr (p + o) = m.entry p k := by
  unfold Mem.ldr Mem.entry
  rw [field_index hp ho hk]

namespace Symbols

variable {y : Symbols cfg}

theorem img_size_eq (y : Symbols cfg) (i : Pid cfg) :
    y.end_ i - y.start i = (process_init cfg i).img_size := by
  unfold end_
  rw [BitVec.add_comm, BitVec.add_sub_cancel]
  rfl

/-- The stores of `pcb_init` after the `kmemset`, by word of the PCB. -/
def pcbStores (y : Symbols cfg) (i : Pid cfg) : List (Nat × Word) :=
  [(0, BitVec.ofNat 32 (process_init cfg i).pid), (1, y.name i), (2, (process_init cfg i).pgd),
    (3, (process_init cfg i).pgd_pa), (4, (process_init cfg i).user_entry),
    (5, (process_init cfg i).user_phys_base),
    (6 + cfg.THREADS_PER_PROC, (process_init cfg i).img_size)]

theorem map_fst_pcbStores (y : Symbols cfg) (i : Pid cfg) :
    (y.pcbStores i).map Prod.fst = [0, 1, 2, 3, 4, 5, 6 + cfg.THREADS_PER_PROC] := rfl

theorem pcb_init_eq (h : y.Separate) (m : Mem) (i : Pid cfg) :
    y.pcb_init m i = (kmemset m (y.pcb i) 0#8 (PCB_SIZE cfg)).storeAll (y.pcb i) (y.pcbStores i) := by
  have hp := h.pcb_pa_aligned i
  have hfit := h.pcb_fits i
  rw [PCB_SIZE_eq] at hfit
  have hoff : (BitVec.ofNat 32 (IMG_SIZE cfg)).toNat = 4 * (6 + cfg.THREADS_PER_PROC) := by
    unfold IMG_SIZE
    rw [BitVec.toNat_ofNat]
    omega
  have hstr : ∀ m : Mem, ∀ v, m.str (y.pcb i) v = m.setEntry (y.pcb i) 0 v := fun m v => by
    rw [Mem.str, Mem.setEntry, Nat.add_zero]
  unfold pcb_init
  dsimp only
  rw [img_size_eq, str_field _ _ hp hoff (by omega),
    str_field (o := 20#32) (k := 5) _ _ hp rfl (by omega),
    str_field (o := 16#32) (k := 4) _ _ hp rfl (by omega),
    str_field (o := 12#32) (k := 3) _ _ hp rfl (by omega),
    str_field (o := 8#32) (k := 2) _ _ hp rfl (by omega),
    str_field (o := 4#32) (k := 1) _ _ hp rfl (by omega), hstr]
  rfl

theorem pcb_init_field (h : y.Separate) (m : Mem) (i : Pid cfg) {p : Nat × Word}
    (hp : p ∈ y.pcbStores i) : (y.pcb_init m i).entry (y.pcb i) p.1 = p.2 := by
  rw [pcb_init_eq h]
  refine storeAll_of_mem _ _ _ ?_ hp
  simp only [map_fst_pcbStores, List.nodup_cons, List.mem_cons, List.not_mem_nil, or_false,
    List.nodup_nil, not_false_eq_true, and_true]
  omega

/-- No store: the word is what the `kmemset` has left. -/
theorem pcb_init_threads (h : y.Separate) (m : Mem) (i : Pid cfg) {t : Nat}
    (ht : t < cfg.THREADS_PER_PROC) : (y.pcb_init m i).entry (y.pcb i) (6 + t) = 0#32 := by
  have hsize := PCB_SIZE_eq cfg
  rw [pcb_init_eq h, storeAll_of_notMem]
  · exact kmemset_zero (h.pcb_pa_aligned i) (by omega) (h.pcb_fits i) m ⟨by omega, by omega⟩
  · simp only [map_fst_pcbStores, List.mem_cons, List.not_mem_nil, or_false]
    omega

theorem pcb_init_holds (h : y.Separate) (m : Mem) (i : Pid cfg) : y.PcbHolds (y.pcb_init m i) i where
  pid := pcb_init_field h m i (p := (0, _)) List.mem_cons_self
  name := pcb_init_field h m i (p := (1, _)) (by simp [pcbStores])
  pgd := pcb_init_field h m i (p := (2, _)) (by simp [pcbStores])
  pgd_pa := pcb_init_field h m i (p := (3, _)) (by simp [pcbStores])
  user_entry := pcb_init_field h m i (p := (4, _)) (by simp [pcbStores])
  user_phys_base := pcb_init_field h m i (p := (5, _)) (by simp [pcbStores])
  threads := fun _ ht => pcb_init_threads h m i ht
  img_size := pcb_init_field h m i (p := (_, _)) (by simp [pcbStores])

theorem pcb_init_within (h : y.Separate) (m : Mem) (i : Pid cfg) :
    Within (y.pcbWords i) m (y.pcb_init m i) := by
  have hsize := PCB_SIZE_eq cfg
  rw [pcb_init_eq h]
  refine (kmemset_words (h.pcb_pa_aligned i) (by omega) (h.pcb_fits i) m 0#8).trans (Within.foldl ?_ _)
  intro m p hp j hj
  have hlt : p.1 < 7 + cfg.THREADS_PER_PROC := by
    have hmem := List.mem_map_of_mem (f := Prod.fst) hp
    simp only [map_fst_pcbStores, List.mem_cons, List.not_mem_nil, or_false] at hmem
    omega
  have hne : j ≠ (y.pcb i).toNat / 4 + p.1 := by
    rintro rfl
    exact hj ⟨by omega, by omega⟩
  exact Function.update_of_ne hne _ _

/-! ## The image and the table -/

def fill_slot (y : Symbols cfg) (m : Mem) (i : Pid cfg) : Mem :=
  kmemcpy_from (kmemset m (process_init cfg i).user_phys_base 0#8 0x100000)
    (process_init cfg i).user_phys_base (cfg.board.pa (y.start i)) (cfg.user_images i).image.length

theorem fill_slot_within (h : y.Separate) (m : Mem) (i : Pid cfg) :
    Within (slotWords i) m (y.fill_slot m i) :=
  (kmemset_words (h.slot_aligned i) (by decide) (h.slot_fits i) m 0#8).trans
    (kmemcpy_from_words (h.slot_aligned i) (by decide) (h.slot_fits i) _ _ (h.size i))

theorem fill_slot_holds (h : y.Separate) {m : Mem} {i : Pid cfg} (himg : y.ImageAt m i) :
    SlotHolds (y.fill_slot m i) i := by
  intro d hd
  have hsrc : ∀ d < (cfg.user_images i).image.length,
      ¬ slotWords i ((cfg.board.pa (y.start i) + BitVec.ofNat 32 d).toNat / 4) :=
    fun d hd hslot => h.image i i d hd (Or.inl hslot)
  have hclear := kmemset_words (h.slot_aligned i) (by decide) (h.slot_fits i) m 0#8
  unfold fill_slot
  rw [kmemcpy_from_byte (h.slot_aligned i) (by decide) (h.slot_fits i) _ (h.size i) hsrc hd]
  split
  · rename_i hlt
    rw [hclear.byte (hsrc d hlt), himg d hlt]
  · rename_i hge
    rw [kmemset_byte m _ 0#8 hd, List.getD_eq_default _ _ (by omega)]

theorem load_image_eq (h : y.Separate) {m : Mem} {i : Pid cfg} (hpcb : y.PcbHolds m i) :
    y.load_image m i = pgtable_build_for_proc cfg.board cfg.boot_pgd_pa (y.fill_slot m i)
      (process_init cfg i).pgd_pa (process_init cfg i).user_phys_base := by
  have hp := h.pcb_pa_aligned i
  have hfit := h.pcb_fits i
  rw [PCB_SIZE_eq] at hfit
  have hbase :
      ∀ m : Mem, y.PcbHolds m i → m.ldr (y.pcb i + 20#32) = (process_init cfg i).user_phys_base :=
    fun m hm => (ldr_field m hp (k := 5) rfl (by omega)).trans hm.user_phys_base
  have hpgd : ∀ m : Mem, y.PcbHolds m i → m.ldr (y.pcb i + 8#32) = (process_init cfg i).pgd :=
    fun m hm => (ldr_field m hp (k := 2) rfl (by omega)).trans hm.pgd
  have hlen : (process_init cfg i).img_size.toNat = (cfg.user_images i).image.length := by
    have hsize := h.size i
    rw [USER_REGION_SIZE_toNat] at hsize
    show (BitVec.ofNat 32 (cfg.user_images i).image.length).toNat = _
    rw [BitVec.toNat_ofNat]
    omega
  have hva : cfg.board.pa ((process_init cfg i).user_phys_base + cfg.board.PHYS_OFFSET) =
      (process_init cfg i).user_phys_base := BitVec.add_sub_cancel _ _
  have hfill : y.PcbHolds (y.fill_slot m i) i :=
    hpcb.frame (fill_slot_within h m i) fun j hj => h.pcb_slot i i j hj
  unfold load_image
  dsimp only
  rw [img_size_eq, hlen, hbase m hpcb, hva, USER_REGION_SIZE_toNat]
  show pgtable_build_for_proc _ _ (y.fill_slot m i) (cfg.board.pa ((y.fill_slot m i).ldr _))
    ((y.fill_slot m i).ldr _) = _
  rw [hbase _ hfill, hpgd _ hfill]
  rfl

/-! ## One round, and all of them -/

/-- What process `i` has once its round is over, when the boot table holds `f`. -/
structure Built (y : Symbols cfg) (f : Nat → Word) (m : Mem) (i : Pid cfg) : Prop where
  slot : SlotHolds m i
  pcb : y.PcbHolds m i
  table :
    Holds m (process_init cfg i).pgd_pa (builtEntry cfg.board f (process_init cfg i).user_phys_base)

theorem Built.frame (h : y.Separate) {f : Nat → Word} {m m' : Mem} {i : Pid cfg}
    (hb : y.Built f m i) {P : Nat → Prop}
    (hw : Within P m m') (hP : ∀ j, y.Region i j → ¬ P j) : y.Built f m' i where
  slot := by
    intro d hd
    rw [hw.byte (hP _ (Or.inl (offset_words (h.slot_aligned i) (by decide) (h.slot_fits i) hd)))]
    exact hb.slot d hd
  pcb := hb.pcb.frame hw fun j hj => hP j (Or.inr (Or.inl hj))
  table := hb.table.within hw fun k hk => hP _ (Or.inr (Or.inr ⟨by omega, by omega⟩))

/-- What a round finds: the boot table, and its images. -/
structure Ready (y : Symbols cfg) (f : Nat → Word) (m : Mem) : Prop where
  boot : Holds m cfg.boot_pgd_pa f
  images : ∀ i, y.ImageAt m i

def init_round (y : Symbols cfg) (m : Mem) (i : Pid cfg) : Mem := y.load_image (y.pcb_init m i) i

theorem init_round_within (h : y.Separate) (m : Mem) (i : Pid cfg) :
    Within (y.Region i) m (y.init_round m i) := by
  have h1 := pcb_init_within h m i
  have h2 := fill_slot_within h (y.pcb_init m i) i
  have h3 := pgtable_build_for_proc_within cfg.board cfg.boot_pgd_pa (y.fill_slot (y.pcb_init m i) i)
    (process_init cfg i).pgd_pa (process_init cfg i).user_phys_base
  unfold init_round
  rw [load_image_eq h (pcb_init_holds h m i)]
  intro j hj
  rw [h3 j fun ht => hj (Or.inr (Or.inr ht)), h2 j fun hs => hj (Or.inl hs), h1 j fun hp =>
    hj (Or.inr (Or.inl hp))]

theorem Ready.round (h : y.Separate) {f : Nat → Word} {m : Mem} (hr : y.Ready f m) (i : Pid cfg) :
    y.Ready f (y.init_round m i) where
  boot := hr.boot.within (init_round_within h m i) fun k hk => h.boot_apart i _ ⟨by omega, by omega⟩
  images := by
    intro q d hd
    rw [(init_round_within h m i).byte (h.image q i d hd)]
    exact hr.images q d hd

theorem init_round_built (h : y.Separate) {f : Nat → Word} {m : Mem} (hr : y.Ready f m) (i : Pid cfg) :
    y.Built f (y.init_round m i) i := by
  have hpcb := pcb_init_within h m i
  have himg : y.ImageAt (y.pcb_init m i) i := by
    intro d hd
    rw [hpcb.byte fun hp => h.image i i d hd (Or.inr (Or.inl hp))]
    exact hr.images i d hd
  have hslot := fill_slot_within h (y.pcb_init m i) i
  have hboot : Holds (y.fill_slot (y.pcb_init m i) i) cfg.boot_pgd_pa f := by
    refine (hr.boot.within hpcb fun k hk hp => h.pcb_boot i _ hp ⟨by omega, by omega⟩).within hslot ?_
    exact fun k hk => h.boot_slot i _ ⟨by omega, by omega⟩
  have hbuild := pgtable_build_for_proc_within cfg.board cfg.boot_pgd_pa (y.fill_slot (y.pcb_init m i) i)
    (process_init cfg i).pgd_pa (process_init cfg i).user_phys_base
  unfold init_round
  rw [load_image_eq h (pcb_init_holds h m i)]
  refine ⟨?_, ?_, build_for_proc_holds (h.placed.boot_apart i) hboot _⟩
  · intro d hd
    rw [hbuild.byte fun ht =>
      h.table_slot i i _ ht (offset_words (h.slot_aligned i) (by decide) (h.slot_fits i) hd)]
    exact fill_slot_holds h himg d hd
  · refine ((pcb_init_holds h m i).frame hslot fun j hj => h.pcb_slot i i j hj).frame hbuild ?_
    exact fun j hj => h.pcb_table i i j hj

theorem process_init_all_built (h : y.Separate) {m : Mem} {f : Nat → Word} (hr : y.Ready f m)
    (q : Pid cfg) : y.Built f (y.process_init_all m) q := by
  refine (foldl_builds (B := y.Ready f) (T := fun m => y.Built f m q)
    (fun m i hm => hm.round h i) ?_ _ hr).2 (Or.inl (List.mem_finRange q))
  intro m i hm hq
  by_cases hqi : q = i
  · subst hqi
    exact init_round_built h hm q
  · exact (hq.resolve_left hqi).frame h (init_round_within h m i) fun j hj => h.regions_apart hqi j hj

/-- Any images, and any contents of memory before: every process gets its own image, PCB and table, and
nothing else is written. -/
theorem process_images_loaded (h : y.Separate) (m : Mem) (himg : ∀ i, y.ImageAt m i) :
    (∀ i : Pid cfg, SlotHolds (y.process_init_all m) i) ∧
    (∀ i, y.PcbHolds (y.process_init_all m) i ∧
      (y.process_init_all m).entry (y.pcb i) 0 = BitVec.ofNat 32 i.val ∧
      (y.process_init_all m).entry (y.pcb i) 5 =
        cfg.board.USER_PHYS_BASE + BitVec.ofNat 32 i.val * USER_PHYS_STRIDE ∧
      (y.process_init_all m).entry (y.pcb i) 3 =
        cfg.proc_pgd + BitVec.ofNat 32 i.val * PGD_SIZE - cfg.board.PHYS_OFFSET) ∧
    (∀ i, Holds (y.process_init_all m) (process_init cfg i).pgd_pa
      (builtEntry cfg.board (m.entry cfg.boot_pgd_pa) (process_init cfg i).user_phys_base)) ∧
    Within (fun j => ∃ i : Pid cfg, slotWords i j ∨ y.pcbWords i j ∨
      InTable (process_init cfg i).pgd_pa j) m (y.process_init_all m) := by
  have hbuilt := process_init_all_built h (f := m.entry cfg.boot_pgd_pa) ⟨fun _ _ => rfl, himg⟩
  refine ⟨fun i => (hbuilt i).slot, ?_, fun i => (hbuilt i).table, ?_⟩
  · intro i
    have hpcb := (hbuilt i).pcb
    exact ⟨hpcb, hpcb.pid, hpcb.user_phys_base, hpcb.pgd_pa⟩
  · exact Within.foldl (fun m i _ j hj => init_round_within h m i j fun hi => hj ⟨i, hi⟩) m

/-! ## The boot of Pgtable.lean -/

theorem kmemcpy_from_eq {a : Word} {n : Nat} (ha : a.toNat % 4 = 0) (hn : n % 4 = 0)
    (hfit : a.toNat + n ≤ 2 ^ 32) (m : Mem) {src : Word} {bs : List Byte} (hlen : bs.length ≤ n)
    (hsrc : ∀ d < bs.length, ¬ Words a.toNat n ((src + BitVec.ofNat 32 d).toNat / 4))
    (hbs : ∀ d < bs.length, m.byte (src + BitVec.ofNat 32 d) = bs.getD d 0#8) :
    kmemcpy_from m a src bs.length = kmemcpy m a bs := by
  have hzip : bs.zipIdx = (List.range bs.length).map fun i => (bs.getD i 0#8, i) := by
    apply List.ext_getElem (by simp)
    intro i h1 h2
    simp [List.getD_eq_getElem?_getD, List.getElem?_eq_getElem (show i < bs.length by simpa using h1)]
  unfold kmemcpy
  rw [hzip, List.foldl_map]
  suffices hk : ∀ k ≤ bs.length, kmemcpy_from m a src k =
      (List.range k).foldl (fun m i => m.setByte (a + BitVec.ofNat 32 i) (bs.getD i 0#8)) m from
    hk _ (Nat.le_refl _)
  intro k
  induction k with
  | zero => exact fun _ => rfl
  | succ k ih =>
    intro hk
    have hbyte := (kmemcpy_from_words ha hn hfit m src (show k ≤ n by omega)).byte (hsrc k (by omega))
    have hstep : kmemcpy_from m a src (k + 1) = (kmemcpy_from m a src k).setByte (a + BitVec.ofNat 32 k)
        ((kmemcpy_from m a src k).byte (src + BitVec.ofNat 32 k)) := by
      unfold kmemcpy_from
      rw [List.range_succ, List.foldl_append, List.foldl_cons, List.foldl_nil]
    rw [hstep, hbyte, hbs k (by omega), ih (by omega), List.range_succ, List.foldl_append,
      List.foldl_cons, List.foldl_nil]

/-- A round is the one of `Pgtable.lean`, after the stores to the PCB. -/
theorem init_round_process_memory (h : y.Separate) {m : Mem} {i : Pid cfg} (himg : y.ImageAt m i) :
    y.init_round m i = process_memory (y.pcb_init m i) i := by
  have hcopy : y.fill_slot (y.pcb_init m i) i =
      kmemcpy (kmemset (y.pcb_init m i) (process_init cfg i).user_phys_base 0#8 0x100000)
        (process_init cfg i).user_phys_base (cfg.user_images i).image := by
    refine kmemcpy_from_eq (h.slot_aligned i) (by decide) (h.slot_fits i) _ (h.size i) ?_ ?_
    · exact fun d hd hslot => h.image i i d hd (Or.inl hslot)
    · intro d hd
      rw [(kmemset_words (h.slot_aligned i) (by decide) (h.slot_fits i) _ 0#8).byte
        fun hslot => h.image i i d hd (Or.inl hslot),
        (pcb_init_within h m i).byte fun hp => h.image i i d hd (Or.inr (Or.inl hp))]
      exact himg d hd
  unfold init_round process_memory
  rw [load_image_eq h (pcb_init_holds h m i), hcopy, USER_REGION_SIZE_toNat]

end Symbols

/-! ## A build -/

def ones : Config :=
  shipped qemu (fun i => List.replicate (i.val + 1) 1#8) 0xC0114000#32 0xC0118000#32 0xC0126000#32
    0xC0100400#32

def onesSymbols : Symbols ones where
  processes := 0xC0130000#32
  start := fun i => 0xC0131000#32 + BitVec.ofNat 32 i.val * 16#32
  name := fun _ => 0xC0100000#32

theorem ones_separate : onesSymbols.Separate := by
  have hslot :
    ∀ i : Pid ones, (process_init ones i).user_phys_base.toNat =
      0x70200000 + i.val * 0x100000 := by decide
  have htable :
    ∀ i : Pid ones, (process_init ones i).pgd_pa.toNat = 0x70118000 + i.val * 16384 := by decide
  have hpcb : ∀ i : Pid ones, (onesSymbols.pcb i).toNat = 0x70130000 + i.val * 36 := by decide
  have hboot : ones.boot_pgd_pa.toNat = 0x70114000 := by decide
  have hsize : PCB_SIZE ones = 36 := by decide
  have hstart :
    ∀ i : Pid ones, (ones.board.pa (onesSymbols.start i)).toNat = 0x70131000 + i.val * 16 := by decide
  have hlen : ∀ i : Pid ones, (ones.user_images i).image.length = i.val + 1 := by decide
  have hlt : ∀ i : Pid ones, i.val < 3 := fun i => i.isLt
  have hplaced : Placed ones := by
    refine ⟨Or.inl rfl, ?_, ?_, ?_, ?_, ?_, Or.inl ?_, ?_⟩ <;> decide
  refine ⟨hplaced, by decide, by decide, ?_, ?_, ?_, ?_, ?_, ?_, ?_, ?_⟩
  · rw [hsize]
    decide
  · intro i
    have := hlt i
    rw [hlen, USER_REGION_SIZE_toNat]
    omega
  · intro i j
    have := hlt i
    simp only [Symbols.pcbWords, Words, InTable, PGD_ENTRIES, hpcb, hboot, hsize]
    omega
  · intro i q j
    have := hlt i
    have := hlt q
    simp only [Symbols.pcbWords, Words, InTable, PGD_ENTRIES, hpcb, htable, hsize]
    omega
  · intro i q j
    have := hlt i
    have := hlt q
    simp only [Symbols.pcbWords, slotWords, Words, hpcb, hslot, hsize]
    omega
  · intro i q j
    have := hlt i
    have := hlt q
    simp only [slotWords, Words, InTable, PGD_ENTRIES, htable, hslot]
    omega
  · intro q j
    have := hlt q
    simp only [slotWords, Words, InTable, PGD_ENTRIES, hboot, hslot]
    omega
  · intro i q d hd
    have := hlt i
    have := hlt q
    rw [hlen] at hd
    have haddr :
        (ones.board.pa (onesSymbols.start i) + BitVec.ofNat 32 d).toNat =
          0x70131000 + i.val * 16 + d := by
      rw [BitVec.toNat_add, hstart, BitVec.toNat_ofNat]
      omega
    rw [haddr]
    simp only [Symbols.Region, Symbols.pcbWords, slotWords, Words, InTable, PGD_ENTRIES, hpcb,
      htable, hslot, hsize]
    omega

/-- In a memory of ones the images are everywhere. -/
theorem ones_imageAt (y : Symbols ones) (i : Pid ones) : y.ImageAt (fun _ => 0x01010101#32) i := by
  intro d hd
  have hone : ∀ l < 4, Lib.Lane.get 0x01010101#32 l = 1#8 := by decide
  have himage : (ones.user_images i).image = List.replicate (i.val + 1) 1#8 := rfl
  rw [himage] at hd ⊢
  rw [Mem.byte, hone _ (Nat.mod_lt _ (by decide)), List.getD_replicate _ (by simpa using hd)]

/-- Memory is all ones before: the second slot gets two of them, and then zeros. -/
theorem process_images_loaded_ones :
    (onesSymbols.process_init_all fun _ => 0x01010101#32).byte 0x70300001#32 = 1#8 ∧
      (onesSymbols.process_init_all fun _ => 0x01010101#32).byte 0x70300002#32 = 0#8 := by
  have h := (Symbols.process_images_loaded ones_separate _ (ones_imageAt onesSymbols)).1 ⟨1, by decide⟩
  exact ⟨h 1 (by decide), h 2 (by decide)⟩

end CortexAOS
