import CortexAOS.Tables
import CortexAOS.Lib.Bits
import Mathlib.Data.List.Nodup

/-!
# pgtable.c, and the memory that boot leaves

Physical memory is an array of words. A table is named by its physical address, whichever mapping
the code reaches it through.
-/

namespace CortexAOS

variable {cfg : Config}

abbrev Mem := Nat → Word

namespace Mem

def entry (m : Mem) (pgd : Word) (i : Nat) : Word := m (pgd.toNat / 4 + i)

def setEntry (m : Mem) (pgd : Word) (i : Nat) (v : Word) : Mem := Function.update m (pgd.toNat / 4 + i) v

def setByte (m : Mem) (pa : Word) (c : Byte) : Mem :=
  let shift := 8 * (pa.toNat % 4)
  Function.update m (pa.toNat / 4)
    ((m (pa.toNat / 4) &&& ~~~(0xFF#32 <<< shift)) ||| (c.setWidth 32 <<< shift))

end Mem

/-! ## mmu.h -/

def PDE_TYPE_SECTION : Word := 0x2#32
def PDE_B : Word := 1#32 <<< 2
def PDE_C : Word := 1#32 <<< 3
def PDE_XN : Word := 1#32 <<< 4
def PDE_DOMAIN (n : Word) : Word := n <<< 5
def PDE_AP0 : Word := 1#32 <<< 10
def PDE_AP1 : Word := 1#32 <<< 11
def PDE_AP_KERN_RW : Word := PDE_AP0
def PDE_AP_KERN_USER_RW : Word := PDE_AP0 ||| PDE_AP1
def PDE_KERNEL_MEM : Word := PDE_TYPE_SECTION ||| PDE_C ||| PDE_B ||| PDE_AP_KERN_RW ||| PDE_DOMAIN 0#32
def PDE_DEVICE : Word := PDE_TYPE_SECTION ||| PDE_AP_KERN_RW ||| PDE_DOMAIN 0#32 ||| PDE_XN
def PDE_USER_TEXT : Word :=
  PDE_TYPE_SECTION ||| PDE_C ||| PDE_B ||| PDE_AP_KERN_USER_RW ||| PDE_DOMAIN 0#32
def PGD_ENTRIES : Nat := 4096
def VA_KERNEL_BASE : Word := 0xC0000000#32

/-! ## Building tables -/

def map_section (m : Mem) (pgd va pa attrs : Word) : Mem :=
  m.setEntry pgd (va >>> 20).toNat ((pa &&& 0xFFF00000#32) ||| attrs)

def pgtable_map_range (m : Mem) (pgd va pa size_bytes attrs : Word) : Mem :=
  (List.range (size_bytes >>> 20).toNat).foldl (fun m i =>
    map_section m pgd (va + BitVec.ofNat 32 i <<< 20) (pa + BitVec.ofNat 32 i <<< 20) attrs) m

def platform_map_peripherals (b : Board) (m : Mem) (pgd : Word) : Mem :=
  b.periph.foldl (fun m p => pgtable_map_range m pgd p.1 p.1 p.2 PDE_DEVICE) m

def mmu_build_boot_pgd (b : Board) (m : Mem) (pgd : Word) : Mem :=
  let m := pgtable_map_range m pgd b.RAM_BASE b.RAM_BASE b.RAM_SIZE PDE_KERNEL_MEM
  let m := pgtable_map_range m pgd VA_KERNEL_BASE b.RAM_BASE b.RAM_SIZE PDE_KERNEL_MEM
  platform_map_peripherals b m pgd

def Board.ident_lo (b : Board) : Nat := (b.RAM_BASE >>> 20).toNat
def Board.ident_hi (b : Board) : Nat := ((b.RAM_BASE + b.RAM_SIZE) >>> 20).toNat

def zero_table (m : Mem) (pgd : Word) : Mem :=
  (List.range PGD_ENTRIES).foldl (fun m i => m.setEntry pgd i 0#32) m

/-- One round of the second loop of `pgtable_build_for_proc`. -/
def copy_entry (b : Board) (boot_pgd pgd : Word) (m : Mem) (i : Nat) : Mem :=
  if m.entry boot_pgd i = 0#32 then m
  else if b.ident_lo ≤ i ∧ i < b.ident_hi then m
  else m.setEntry pgd i (m.entry boot_pgd i)

def pgtable_build_for_proc (b : Board) (boot_pgd : Word) (m : Mem) (pgd user_pa : Word) : Mem :=
  let m := zero_table m pgd
  let m := (List.range PGD_ENTRIES).foldl (copy_entry b boot_pgd pgd) m
  m.setEntry pgd (USER_VIRT_BASE >>> 20).toNat ((user_pa &&& 0xFFF00000#32) ||| PDE_USER_TEXT)

def mmu_drop_identity (b : Board) (m : Mem) (boot_pgd : Word) : Mem :=
  (List.range' b.ident_lo (b.ident_hi - b.ident_lo)).foldl (fun m i => m.setEntry boot_pgd i 0#32) m

/-! ## Boot -/

def kmemset (m : Mem) (pa : Word) (v : Byte) (n : Nat) : Mem :=
  (List.range n).foldl (fun m i => m.setByte (pa + BitVec.ofNat 32 i) v) m

def kmemcpy (m : Mem) (pa : Word) (bytes : List Byte) : Mem :=
  bytes.zipIdx.foldl (fun m p => m.setByte (pa + BitVec.ofNat 32 p.2) p.1) m

def Config.boot_pgd_pa (cfg : Config) : Word := cfg.boot_pgd - cfg.board.PHYS_OFFSET

/-- What one round of `process_init_all` does to memory. -/
def process_memory (m : Mem) (i : Pid cfg) : Mem :=
  let p := process_init cfg i
  let m := kmemset m p.user_phys_base 0#8 USER_REGION_SIZE.toNat
  let m := kmemcpy m p.user_phys_base (cfg.user_images i).image
  pgtable_build_for_proc cfg.board cfg.boot_pgd_pa m p.pgd_pa p.user_phys_base

/-- Memory when `kmain` calls `thread_first_run`, from what it held at reset. -/
def boot_memory (cfg : Config) (m : Mem) : Mem :=
  -- start.S clears .bss, and with it the boot table.
  let m := zero_table m cfg.boot_pgd_pa
  let m := mmu_build_boot_pgd cfg.board m cfg.boot_pgd_pa
  let m := (List.finRange cfg.NUM_PROCESSES).foldl process_memory m
  mmu_drop_identity cfg.board m cfg.boot_pgd_pa

/-! ## Which words a loop writes -/

/-- Memory differs at words of `P` only. -/
def Within (P : Nat → Prop) (m m' : Mem) : Prop := ∀ j, ¬ P j → m' j = m j

section

variable {P : Nat → Prop}

theorem Within.refl (m : Mem) : Within P m m := fun _ _ => rfl

theorem Within.trans {m m' m'' : Mem} (h : Within P m m') (h' : Within P m' m'') : Within P m m'' :=
  fun j hj => (h' j hj).trans (h j hj)

theorem Within.foldl {α : Type*} {f : Mem → α → Mem} {l : List α}
    (hf : ∀ m, ∀ x ∈ l, Within P m (f m x)) (m : Mem) : Within P m (l.foldl f m) := by
  induction l generalizing m with
  | nil => exact .refl m
  | cons x l ih =>
    refine (hf m x (by simp)).trans (ih (fun m y hy => hf m y (by simp [hy])) _)

end

def InTable (pgd : Word) (j : Nat) : Prop := pgd.toNat / 4 ≤ j ∧ j < pgd.toNat / 4 + PGD_ENTRIES

theorem setEntry_within (m : Mem) (pgd : Word) {i : Nat} (v : Word) (hi : i < PGD_ENTRIES) :
    Within (InTable pgd) m (m.setEntry pgd i v) := by
  intro j hj
  have hne : j ≠ pgd.toNat / 4 + i := by
    rintro rfl
    exact hj ⟨by omega, by omega⟩
  exact Function.update_of_ne hne _ _

theorem setByte_within (m : Mem) (pa : Word) (c : Byte) (h : P (pa.toNat / 4)) :
    Within P m (m.setByte pa c) := by
  intro j hj
  have hne : j ≠ pa.toNat / 4 := by rintro rfl; exact hj h
  exact Function.update_of_ne hne _ _

theorem section_index_lt (va : Word) : (va >>> 20).toNat < PGD_ENTRIES := by
  have := va.isLt
  rw [BitVec.toNat_ushiftRight, Nat.shiftRight_eq_div_pow, PGD_ENTRIES]
  omega

theorem section_index (va : Word) : (va >>> 20).toNat = va.toNat / 0x100000 := by
  rw [BitVec.toNat_ushiftRight, Nat.shiftRight_eq_div_pow]

theorem zero_table_within (m : Mem) (pgd : Word) : Within (InTable pgd) m (zero_table m pgd) :=
  Within.foldl (fun m _ hi => setEntry_within m pgd _ (List.mem_range.mp hi)) m

theorem copy_entry_within (b : Board) (boot_pgd pgd : Word) (m : Mem) {i : Nat} (hi : i < PGD_ENTRIES) :
    Within (InTable pgd) m (copy_entry b boot_pgd pgd m i) := by
  unfold copy_entry
  split_ifs
  · exact .refl m
  · exact .refl m
  · exact setEntry_within m pgd _ hi

theorem mmu_drop_identity_within (b : Board) (m : Mem) (pgd : Word) :
    Within (InTable pgd) m (mmu_drop_identity b m pgd) := by
  refine Within.foldl (fun m i hi => setEntry_within m pgd _ ?_) m
  have hlt := section_index_lt (b.RAM_BASE + b.RAM_SIZE)
  obtain ⟨hlo, hhi⟩ := List.mem_range'_1.mp hi
  unfold Board.ident_hi at hhi
  omega

theorem pgtable_build_for_proc_within (b : Board) (boot_pgd : Word) (m : Mem) (pgd user_pa : Word) :
    Within (InTable pgd) m (pgtable_build_for_proc b boot_pgd m pgd user_pa) := by
  unfold pgtable_build_for_proc
  refine ((zero_table_within m pgd).trans ?_).trans
    (setEntry_within _ pgd _ (section_index_lt USER_VIRT_BASE))
  exact Within.foldl (fun m _ hi => copy_entry_within b boot_pgd pgd m (List.mem_range.mp hi)) _

theorem setByte_above (m : Mem) {pa : Word} {lo n i : Nat} (c : Byte) (hlo : lo ≤ pa.toNat / 4)
    (hfit : pa.toNat + n ≤ 2 ^ 32) (hi : i < n) :
    Within (lo ≤ ·) m (m.setByte (pa + BitVec.ofNat 32 i) c) := by
  apply setByte_within
  rw [BitVec.toNat_add, BitVec.toNat_ofNat]
  omega

theorem kmemset_above (m : Mem) {pa : Word} {lo n : Nat} (v : Byte) (hlo : lo ≤ pa.toNat / 4)
    (hfit : pa.toNat + n ≤ 2 ^ 32) : Within (lo ≤ ·) m (kmemset m pa v n) :=
  Within.foldl (fun m _ hi => setByte_above m v hlo hfit (List.mem_range.mp hi)) m

theorem kmemcpy_above (m : Mem) {pa : Word} {lo : Nat} (bs : List Byte) (hlo : lo ≤ pa.toNat / 4)
    (hfit : pa.toNat + bs.length ≤ 2 ^ 32) : Within (lo ≤ ·) m (kmemcpy m pa bs) := by
  refine Within.foldl (fun m p hp => setByte_above m p.1 hlo hfit ?_) m
  exact (List.mem_zipIdx' hp).1

/-! ## What a table holds -/

def Holds (m : Mem) (pgd : Word) (f : Nat → Word) : Prop := ∀ i < PGD_ENTRIES, m.entry pgd i = f i

theorem Holds.within {P : Nat → Prop} {m m' : Mem} {pgd : Word} {f : Nat → Word} (h : Holds m pgd f)
    (hw : Within P m m') (hP : ∀ i < PGD_ENTRIES, ¬ P (pgd.toNat / 4 + i)) : Holds m' pgd f :=
  fun i hi => (hw _ (hP i hi)).trans (h i hi)

theorem entry_setEntry (m : Mem) (pgd : Word) (i j : Nat) (v : Word) :
    (m.setEntry pgd i v).entry pgd j = if j = i then v else m.entry pgd j := by
  unfold Mem.entry Mem.setEntry
  by_cases h : j = i
  · subst h; simp
  · rw [if_neg h, Function.update_of_ne (by omega)]

theorem Holds.setEntry {m : Mem} {pgd : Word} {f : Nat → Word} (h : Holds m pgd f) (i : Nat) (v : Word) :
    Holds (m.setEntry pgd i v) pgd (fun j => if j = i then v else f j) := by
  intro j hj
  rw [entry_setEntry, h j hj]

/-- The entry of a section that `pgtable_map_range` has mapped, or the old one. -/
def rangeEntry (va pa size attrs old : Word) (i : Nat) : Word :=
  if (va >>> 20).toNat ≤ i ∧ i < (va >>> 20).toNat + (size >>> 20).toNat then
    ((pa + BitVec.ofNat 32 (i - (va >>> 20).toNat) <<< 20) &&& 0xFFF00000#32) ||| attrs
  else old

def rangeStore (va pa attrs : Word) (i : Nat) : Nat × Word :=
  (((va + BitVec.ofNat 32 i <<< 20) >>> 20).toNat,
    ((pa + BitVec.ofNat 32 i <<< 20) &&& 0xFFF00000#32) ||| attrs)

def rangeStores (va pa size_bytes attrs : Word) : List (Nat × Word) :=
  (List.range (size_bytes >>> 20).toNat).map (rangeStore va pa attrs)

def Mem.storeAll (m : Mem) (pgd : Word) (l : List (Nat × Word)) : Mem :=
  l.foldl (fun m p => m.setEntry pgd p.1 p.2) m

theorem map_range_stores (m : Mem) (pgd va pa size attrs : Word) :
    pgtable_map_range m pgd va pa size attrs = m.storeAll pgd (rangeStores va pa size attrs) := by
  unfold pgtable_map_range Mem.storeAll rangeStores
  rw [List.foldl_map]
  rfl

theorem storeAll_of_notMem (m : Mem) (pgd : Word) (l : List (Nat × Word)) (i : Nat)
    (h : i ∉ l.map Prod.fst) : (m.storeAll pgd l).entry pgd i = m.entry pgd i := by
  induction l generalizing m with
  | nil => rfl
  | cons p l ih =>
    rw [List.map_cons, List.mem_cons, not_or] at h
    show ((m.setEntry pgd p.1 p.2).storeAll pgd l).entry pgd i = _
    rw [ih _ h.2, entry_setEntry, if_neg h.1]

theorem storeAll_of_mem (m : Mem) (pgd : Word) (l : List (Nat × Word)) (hn : (l.map Prod.fst).Nodup)
    {p : Nat × Word} (h : p ∈ l) : (m.storeAll pgd l).entry pgd p.1 = p.2 := by
  induction l generalizing m with
  | nil => cases h
  | cons q l ih =>
    rw [List.map_cons, List.nodup_cons] at hn
    show ((m.setEntry pgd q.1 q.2).storeAll pgd l).entry pgd p.1 = _
    rcases List.mem_cons.mp h with rfl | hl
    · rw [storeAll_of_notMem _ pgd l p.1 hn.1, entry_setEntry, if_pos rfl]
    · exact ih _ hn.2 hl

theorem storeAll_within (m : Mem) (pgd : Word) (l : List (Nat × Word)) (h : ∀ p ∈ l, p.1 < PGD_ENTRIES) :
    Within (InTable pgd) m (m.storeAll pgd l) :=
  Within.foldl (fun m p hp => setEntry_within m pgd p.2 (h p hp)) m

theorem section_index_wrap (va : Word) (i : Nat) :
    ((va + BitVec.ofNat 32 i <<< 20) >>> 20).toNat = (va.toNat / 2 ^ 20 + i) % 4096 := by
  have hva := va.isLt
  rw [section_index, BitVec.toNat_add, BitVec.toNat_shiftLeft, BitVec.toNat_ofNat, Nat.shiftLeft_eq]
  omega

/-- Fewer rounds than entries: no two of them meet. -/
theorem rangeStores_nodup (va pa size attrs : Word) :
    ((rangeStores va pa size attrs).map Prod.fst).Nodup := by
  have hcount := section_index_lt size
  unfold PGD_ENTRIES at hcount
  unfold rangeStores
  rw [List.map_map]
  refine List.Nodup.map_on ?_ List.nodup_range
  intro i hi j hj h
  rw [List.mem_range] at hi hj
  simp only [Function.comp_apply, rangeStore, section_index_wrap] at h
  omega

theorem rangeStores_lt (va pa size attrs : Word) :
    ∀ p ∈ rangeStores va pa size attrs, p.1 < PGD_ENTRIES := by
  intro p hp
  obtain ⟨i, -, rfl⟩ := List.mem_map.mp hp
  exact section_index_lt _

theorem map_range_entry (m : Mem) (pgd size va pa attrs : Word) {k : Nat}
    (hk : k < size.toNat / 2 ^ 20) :
    (pgtable_map_range m pgd va pa size attrs).entry pgd ((va.toNat / 2 ^ 20 + k) % 4096) =
      ((pa + BitVec.ofNat 32 k <<< 20) &&& 0xFFF00000#32) ||| attrs := by
  rw [map_range_stores, ← section_index_wrap]
  refine storeAll_of_mem m pgd _ (rangeStores_nodup va pa size attrs) (List.mem_map.mpr ⟨k, ?_, rfl⟩)
  rw [List.mem_range, section_index]
  exact hk

theorem map_range_other (m : Mem) (pgd size va pa attrs : Word) {i : Nat}
    (h : ∀ k < size.toNat / 2 ^ 20, i ≠ (va.toNat / 2 ^ 20 + k) % 4096) :
    (pgtable_map_range m pgd va pa size attrs).entry pgd i = m.entry pgd i := by
  rw [map_range_stores]
  apply storeAll_of_notMem
  intro hmem
  obtain ⟨p, hp, rfl⟩ := List.mem_map.mp hmem
  obtain ⟨k, hk, rfl⟩ := List.mem_map.mp hp
  rw [List.mem_range, section_index] at hk
  exact h k hk (section_index_wrap va k)

theorem pgtable_map_range_holds {m : Mem} {pgd : Word} {f : Nat → Word} (h : Holds m pgd f)
    (va pa size attrs : Word) (hfit : (va >>> 20).toNat + (size >>> 20).toNat ≤ PGD_ENTRIES) :
    Holds (pgtable_map_range m pgd va pa size attrs) pgd
      (fun i => rangeEntry va pa size attrs (f i) i) := by
  unfold PGD_ENTRIES at hfit
  rw [section_index, section_index] at hfit
  intro i hi
  unfold PGD_ENTRIES at hi
  dsimp only
  unfold rangeEntry
  rw [section_index, section_index]
  by_cases hin : va.toNat / 0x100000 ≤ i ∧ i < va.toNat / 0x100000 + size.toNat / 0x100000
  · have hentry :=
      map_range_entry m pgd size va pa attrs (show i - va.toNat / 2 ^ 20 < size.toNat / 2 ^ 20 by omega)
    rw [show (va.toNat / 2 ^ 20 + (i - va.toNat / 2 ^ 20)) % 4096 = i by omega] at hentry
    rw [if_pos hin]
    exact hentry
  · rw [if_neg hin, map_range_other m pgd size va pa attrs fun k hk => by omega]
    exact h i hi

theorem zero_table_holds (m : Mem) (pgd : Word) : Holds (zero_table m pgd) pgd (fun _ => 0#32) := by
  unfold zero_table
  suffices hn :
    ∀ n i, i < n → ((List.range n).foldl (fun m i => m.setEntry pgd i 0#32) m).entry pgd i = 0#32 from
    fun i hi => hn _ i hi
  intro n
  induction n with
  | zero => intro i hi; omega
  | succ n ih =>
    intro i hi
    rw [List.range_succ, List.foldl_append, List.foldl_cons, List.foldl_nil, entry_setEntry]
    split
    · rfl
    · exact ih i (by omega)

def bootEntry (b : Board) (i : Nat) : Word :=
  b.periph.foldl (fun old p => rangeEntry p.1 p.1 p.2 PDE_DEVICE old i)
    (rangeEntry VA_KERNEL_BASE b.RAM_BASE b.RAM_SIZE PDE_KERNEL_MEM
      (rangeEntry b.RAM_BASE b.RAM_BASE b.RAM_SIZE PDE_KERNEL_MEM 0#32 i) i)

/-- No range that the board maps runs past the end of the table. -/
def Board.Fits (b : Board) : Prop :=
  (b.RAM_BASE >>> 20).toNat + (b.RAM_SIZE >>> 20).toNat ≤ PGD_ENTRIES ∧
  (VA_KERNEL_BASE >>> 20).toNat + (b.RAM_SIZE >>> 20).toNat ≤ PGD_ENTRIES ∧
  ∀ p ∈ b.periph, (p.1 >>> 20).toNat + (p.2 >>> 20).toNat ≤ PGD_ENTRIES

theorem platform_map_peripherals_holds (l : List (Word × Word)) {m : Mem} {pgd : Word} {f : Nat → Word}
    (h : Holds m pgd f) (hfit : ∀ p ∈ l, (p.1 >>> 20).toNat + (p.2 >>> 20).toNat ≤ PGD_ENTRIES) :
    Holds (l.foldl (fun m p => pgtable_map_range m pgd p.1 p.1 p.2 PDE_DEVICE) m) pgd
      (fun i => l.foldl (fun old p => rangeEntry p.1 p.1 p.2 PDE_DEVICE old i) (f i)) := by
  induction l generalizing m f with
  | nil => exact h
  | cons p l ih =>
    exact ih (pgtable_map_range_holds h p.1 p.1 p.2 PDE_DEVICE (hfit p (by simp))) fun p' hp' =>
      hfit p' (by simp [hp'])

theorem mmu_build_boot_pgd_holds {b : Board} (hb : b.Fits) {m : Mem} {pgd : Word}
    (h : Holds m pgd fun _ => 0#32) : Holds (mmu_build_boot_pgd b m pgd) pgd (bootEntry b) := by
  obtain ⟨h1, h2, h3⟩ := hb
  exact platform_map_peripherals_holds b.periph
    (pgtable_map_range_holds (pgtable_map_range_holds h _ _ _ _ h1) _ _ _ _ h2) h3

def procEntry (b : Board) (user_pa : Word) (i : Nat) : Word :=
  if i = (USER_VIRT_BASE >>> 20).toNat then (user_pa &&& 0xFFF00000#32) ||| PDE_USER_TEXT
  else if b.ident_lo ≤ i ∧ i < b.ident_hi then 0#32
  else bootEntry b i

def Apart (pgd pgd' : Word) : Prop := ∀ j, InTable pgd j → ¬ InTable pgd' j

theorem Apart.symm {pgd pgd' : Word} (h : Apart pgd pgd') : Apart pgd' pgd := fun j hj hj' => h j hj' hj

theorem Holds.apart {m m' : Mem} {pgd pgd' : Word} {f : Nat → Word} (h : Holds m pgd f)
    (hw : Within (InTable pgd') m m') (ha : Apart pgd pgd') : Holds m' pgd f :=
  h.within hw fun i hi => ha _ ⟨by omega, by omega⟩

theorem copy_entry_entry (b : Board) (boot_pgd pgd : Word) (m : Mem) (n i : Nat) :
    (copy_entry b boot_pgd pgd m n).entry pgd i =
      if i = n ∧ m.entry boot_pgd n ≠ 0#32 ∧ ¬ (b.ident_lo ≤ n ∧ n < b.ident_hi) then m.entry boot_pgd n
      else m.entry pgd i := by
  unfold copy_entry
  by_cases h0 : m.entry boot_pgd n = 0#32
  · rw [if_pos h0, if_neg (fun h => h.2.1 h0)]
  · by_cases hid : b.ident_lo ≤ n ∧ n < b.ident_hi
    · rw [if_neg h0, if_pos hid, if_neg (fun h => h.2.2 hid)]
    · rw [if_neg h0, if_neg hid, entry_setEntry]
      by_cases hi : i = n
      · rw [if_pos hi, if_pos ⟨hi, h0, hid⟩]
      · rw [if_neg hi, if_neg (fun h => hi h.1)]

/-- After `n` rounds of the copy loop. -/
def copied (b : Board) (f g : Nat → Word) (n i : Nat) : Word :=
  if i < n ∧ f i ≠ 0#32 ∧ ¬ (b.ident_lo ≤ i ∧ i < b.ident_hi) then f i else g i

theorem copied_succ (b : Board) (f g : Nat → Word) (n i : Nat) :
    copied b f g (n + 1) i =
      if i = n ∧ f n ≠ 0#32 ∧ ¬ (b.ident_lo ≤ n ∧ n < b.ident_hi) then f n else copied b f g n i := by
  unfold copied
  by_cases hi : i = n
  · subst hi
    by_cases h : f i ≠ 0#32 ∧ ¬ (b.ident_lo ≤ i ∧ i < b.ident_hi)
    · rw [if_pos ⟨by omega, h⟩, if_pos ⟨rfl, h⟩]
    · rw [if_neg (fun h' => h h'.2), if_neg (fun h' => h h'.2), if_neg (fun h' => h h'.2)]
  · have hlt : i < n + 1 ↔ i < n := by omega
    simp only [hlt, hi, false_and, if_false]

theorem copy_loop_holds {b : Board} {boot_pgd pgd : Word} (ha : Apart boot_pgd pgd) {m : Mem}
    {f g : Nat → Word}
    (hboot : Holds m boot_pgd f) (h : Holds m pgd g) (n : Nat) (hn : n ≤ PGD_ENTRIES) :
    Holds ((List.range n).foldl (copy_entry b boot_pgd pgd) m) boot_pgd f ∧
      Holds ((List.range n).foldl (copy_entry b boot_pgd pgd) m) pgd (copied b f g n) := by
  induction n with
  | zero =>
    refine ⟨hboot, fun i hi => ?_⟩
    rw [copied, if_neg (by omega)]
    exact h i hi
  | succ n ih =>
    obtain ⟨ihb, ihp⟩ := ih (by omega)
    rw [List.range_succ, List.foldl_append, List.foldl_cons, List.foldl_nil]
    refine ⟨ihb.apart (copy_entry_within b boot_pgd pgd _ (by omega)) ha, fun i hi => ?_⟩
    rw [copy_entry_entry, ihb n (by omega), ihp i hi, copied_succ]

/-- The mirror of a boot table that holds `f`, with `user_pa` as its user section. -/
def builtEntry (b : Board) (f : Nat → Word) (user_pa : Word) (i : Nat) : Word :=
  if i = (USER_VIRT_BASE >>> 20).toNat then (user_pa &&& 0xFFF00000#32) ||| PDE_USER_TEXT
  else copied b f (fun _ => 0#32) PGD_ENTRIES i

theorem build_for_proc_holds {b : Board} {boot_pgd pgd : Word} (ha : Apart boot_pgd pgd) {m : Mem}
    {f : Nat → Word} (hboot : Holds m boot_pgd f) (user_pa : Word) :
    Holds (pgtable_build_for_proc b boot_pgd m pgd user_pa) pgd (builtEntry b f user_pa) := by
  have hzero := hboot.apart (zero_table_within m pgd) ha
  have hcopy :=
    (copy_loop_holds (b := b) ha hzero (zero_table_holds m pgd) PGD_ENTRIES (Nat.le_refl _)).2
  exact hcopy.setEntry (USER_VIRT_BASE >>> 20).toNat ((user_pa &&& 0xFFF00000#32) ||| PDE_USER_TEXT)

theorem builtEntry_boot (b : Board) (user_pa : Word) {i : Nat} (hi : i < PGD_ENTRIES) :
    builtEntry b (bootEntry b) user_pa i = procEntry b user_pa i := by
  rw [builtEntry, procEntry]
  by_cases hu : i = (USER_VIRT_BASE >>> 20).toNat
  · rw [if_pos hu, if_pos hu]
  · rw [if_neg hu, if_neg hu, copied]
    by_cases hid : b.ident_lo ≤ i ∧ i < b.ident_hi
    · rw [if_pos hid, if_neg (fun h => h.2.2 hid)]
    · rw [if_neg hid]
      by_cases h0 : bootEntry b i = 0#32
      · rw [if_neg (fun h => h.2.1 h0), h0]
      · rw [if_pos ⟨hi, h0, hid⟩]

theorem pgtable_build_for_proc_holds {b : Board} {boot_pgd pgd : Word}
    (ha : Apart boot_pgd pgd) {m : Mem} (hboot : Holds m boot_pgd (bootEntry b)) (user_pa : Word) :
    Holds (pgtable_build_for_proc b boot_pgd m pgd user_pa) pgd (procEntry b user_pa) := by
  intro i hi
  rw [build_for_proc_holds ha hboot user_pa i hi, builtEntry_boot b user_pa hi]

/-- A loop over the processes that keeps `B` makes `T`, once it comes to `q`. -/
theorem foldl_builds {f : Mem → Pid cfg → Mem} {B T : Mem → Prop} {q : Pid cfg}
    (hB : ∀ m i, B m → B (f m i))
    (hT : ∀ m i, B m → q = i ∨ T m → T (f m i)) (l : List (Pid cfg)) {m : Mem} (hm : B m) :
    B (l.foldl f m) ∧ (q ∈ l ∨ T m → T (l.foldl f m)) := by
  induction l generalizing m with
  | nil => exact ⟨hm, fun hq => hq.resolve_left (by simp)⟩
  | cons i l ih =>
    refine ⟨(ih (hB m i hm)).1, fun hq => (ih (hB m i hm)).2 ?_⟩
    by_cases hl : q ∈ l
    · exact Or.inl hl
    · refine Or.inr (hT m i hm (hq.imp_left fun hmem => ?_))
      exact (List.mem_cons.mp hmem).resolve_right hl

/-! ## The layout that the linker gives -/

/-- Two arrays of tables in the kernel's addresses, and slots that are in physical memory. -/
structure Placed (cfg : Config) : Prop where
  board : cfg.board = qemu ∨ cfg.board = bbb
  boot_aligned : cfg.boot_pgd.toNat % 16384 = 0
  proc_aligned : cfg.proc_pgd.toNat % 16384 = 0
  boot_lo : 0xC0000000 ≤ cfg.boot_pgd.toNat
  proc_lo : 0xC0000000 ≤ cfg.proc_pgd.toNat
  proc_hi : cfg.proc_pgd.toNat + cfg.NUM_PROCESSES * 16384 ≤ 2 ^ 32
  apart : cfg.boot_pgd.toNat + 16384 ≤ cfg.proc_pgd.toNat ∨
    cfg.proc_pgd.toNat + cfg.NUM_PROCESSES * 16384 ≤ cfg.boot_pgd.toNat
  slots : cfg.board.USER_PHYS_BASE.toNat + cfg.NUM_PROCESSES * USER_PHYS_STRIDE.toNat ≤ 2 ^ 32

/-- The two tables of `.bss`, 16 KB aligned and in this order, in a kernel that ends below the
first user slot. The user images are part of it. -/
structure Linked (cfg : Config) : Prop where
  board : cfg.board = qemu ∨ cfg.board = bbb
  boot_aligned : cfg.boot_pgd.toNat % 16384 = 0
  proc_aligned : cfg.proc_pgd.toNat % 16384 = 0
  boot_lo : 0xC0000000 ≤ cfg.boot_pgd.toNat
  boot_hi : cfg.boot_pgd.toNat + 16384 ≤ cfg.proc_pgd.toNat
  proc_hi : cfg.proc_pgd.toNat + cfg.NUM_PROCESSES * 16384 ≤ 0xC0200000
  images : ∀ i, (cfg.user_images i).image.length ≤ 0x200000

theorem demo_linked : Linked demo := by
  refine ⟨Or.inl rfl, ?_, ?_, ?_, ?_, ?_, ?_⟩ <;> decide

theorem forall_periph {P : Board → Word × Word → Prop} (hq : P qemu (0x10000000#32, 0x00200000#32))
    (hq' : P qemu (0x1E000000#32, 0x00100000#32)) (hb : P bbb (0x44E00000#32, 0x00100000#32))
    (hb' : P bbb (0x48000000#32, 0x01000000#32)) {b : Board} (h : b = qemu ∨ b = bbb) :
    ∀ p ∈ b.periph, P b p := by
  rcases h with rfl | rfl
  · exact List.forall_mem_cons.mpr ⟨hq, List.forall_mem_singleton.mpr hq'⟩
  · exact List.forall_mem_cons.mpr ⟨hb, List.forall_mem_singleton.mpr hb'⟩

theorem PGD_SIZE_toNat : PGD_SIZE.toNat = 16384 := by decide

theorem USER_PHYS_STRIDE_toNat : USER_PHYS_STRIDE.toNat = 0x100000 := by decide

theorem USER_REGION_SIZE_toNat : USER_REGION_SIZE.toNat = 0x100000 := by decide

namespace Placed

variable (h : Placed cfg)

include h

theorem user_base_toNat : cfg.board.USER_PHYS_BASE.toNat = cfg.board.RAM_BASE.toNat + 0x200000 := by
  rcases h.board with hb | hb <;> rw [hb] <;> decide

theorem ram_lt : cfg.board.RAM_BASE.toNat ≤ 0x80000000 := by
  rcases h.board with hb | hb <;> rw [hb] <;> decide

theorem ram_aligned : cfg.board.RAM_BASE.toNat % 0x100000 = 0 := by
  rcases h.board with hb | hb <;> rw [hb] <;> decide

theorem offset_toNat : cfg.board.PHYS_OFFSET.toNat = 0xC0000000 - cfg.board.RAM_BASE.toNat := by
  rcases h.board with hb | hb <;> rw [hb] <;> decide

theorem boot_pgd_toNat :
    cfg.boot_pgd_pa.toNat = cfg.boot_pgd.toNat - 0xC0000000 + cfg.board.RAM_BASE.toNat := by
  have h1 := h.offset_toNat
  have h2 := h.ram_lt
  have h3 := h.boot_lo
  have h4 := cfg.boot_pgd.isLt
  rw [Config.boot_pgd_pa, BitVec.toNat_sub, h1]
  omega

theorem pgd_pa_toNat (q : Pid cfg) : (process_init cfg q).pgd_pa.toNat =
    cfg.proc_pgd.toNat + q.val * 16384 - 0xC0000000 + cfg.board.RAM_BASE.toNat := by
  have h1 := h.offset_toNat
  have h2 := h.ram_lt
  have h3 := h.proc_lo
  have h4 := h.proc_hi
  have hq := q.isLt
  have hpa : (process_init cfg q).pgd_pa =
      cfg.proc_pgd + BitVec.ofNat 32 q.val * PGD_SIZE - cfg.board.PHYS_OFFSET := rfl
  have hmul : (BitVec.ofNat 32 q.val * PGD_SIZE).toNat = q.val * 16384 := by
    rw [Lib.Bits.toNat_ofNat_mul (by rw [PGD_SIZE_toNat]; omega), PGD_SIZE_toNat]
  rw [hpa, BitVec.toNat_sub, BitVec.toNat_add, hmul, h1]
  omega

theorem slot_toNat (q : Pid cfg) : (process_init cfg q).user_phys_base.toNat =
    cfg.board.RAM_BASE.toNat + 0x200000 + q.val * 0x100000 := by
  have h1 := h.user_base_toNat
  have h2 := h.slots
  have hq := q.isLt
  have hpa : (process_init cfg q).user_phys_base =
      cfg.board.USER_PHYS_BASE + BitVec.ofNat 32 q.val * USER_PHYS_STRIDE := rfl
  rw [USER_PHYS_STRIDE_toNat] at h2
  have hmul : (BitVec.ofNat 32 q.val * USER_PHYS_STRIDE).toNat = q.val * 0x100000 := by
    rw [Lib.Bits.toNat_ofNat_mul (by rw [USER_PHYS_STRIDE_toNat]; omega), USER_PHYS_STRIDE_toNat]
  rw [hpa, BitVec.toNat_add, hmul, h1]
  omega

theorem boot_apart (q : Pid cfg) : Apart cfg.boot_pgd_pa (process_init cfg q).pgd_pa := by
  have h1 := h.boot_pgd_toNat
  have h2 := h.pgd_pa_toNat q
  have h3 := h.boot_lo
  have h4 := h.proc_lo
  have h5 := h.boot_aligned
  have h6 := h.apart
  have hq := q.isLt
  rintro j ⟨hj1, hj2⟩ ⟨hj3, hj4⟩
  unfold PGD_ENTRIES at hj2 hj4
  omega

theorem proc_apart {p q : Pid cfg} (hne : p ≠ q) :
    Apart (process_init cfg p).pgd_pa (process_init cfg q).pgd_pa := by
  have h1 := h.pgd_pa_toNat p
  have h2 := h.pgd_pa_toNat q
  have h3 := h.proc_lo
  have hv : p.val ≠ q.val := fun he => hne (Fin.ext he)
  rintro j ⟨hj1, hj2⟩ ⟨hj3, hj4⟩
  unfold PGD_ENTRIES at hj2 hj4
  omega

theorem fits : cfg.board.Fits := by
  refine ⟨?_, ?_, ?_⟩
  · rcases h.board with hb | hb <;> rw [hb] <;> decide
  · rcases h.board with hb | hb <;> rw [hb] <;> decide
  · exact forall_periph (P := fun _ p => (p.1 >>> 20).toNat + (p.2 >>> 20).toNat ≤ PGD_ENTRIES)
      (by decide) (by decide) (by decide) (by decide) h.board

end Placed

namespace Linked

variable (h : Linked cfg)

include h

theorem processes_le : cfg.NUM_PROCESSES ≤ 127 := by
  have h1 := h.boot_lo
  have h2 := h.boot_hi
  have h3 := h.proc_hi
  omega

theorem placed : Placed cfg := by
  have h1 := h.boot_lo
  have h2 := h.boot_hi
  have h3 := h.proc_hi
  have h4 := h.processes_le
  have hbase : cfg.board.USER_PHYS_BASE.toNat ≤ 0x80200000 := by
    rcases h.board with hb | hb <;> rw [hb] <;> decide
  refine ⟨h.board, h.boot_aligned, h.proc_aligned, h.boot_lo, by omega, by omega, Or.inl h2, ?_⟩
  rw [USER_PHYS_STRIDE_toNat]
  omega

theorem boot_low {i : Nat} (hi : i < PGD_ENTRIES) :
    cfg.boot_pgd_pa.toNat / 4 + i < cfg.board.USER_PHYS_BASE.toNat / 4 := by
  have h1 := h.placed.boot_pgd_toNat
  have h2 := h.placed.user_base_toNat
  have h3 := h.boot_lo
  have h4 := h.boot_hi
  have h5 := h.proc_hi
  have h6 := h.boot_aligned
  have h7 := h.placed.ram_aligned
  unfold PGD_ENTRIES at hi
  omega

theorem table_low (q : Pid cfg) {i : Nat} (hi : i < PGD_ENTRIES) :
    (process_init cfg q).pgd_pa.toNat / 4 + i < cfg.board.USER_PHYS_BASE.toNat / 4 := by
  have h1 := h.placed.pgd_pa_toNat q
  have h2 := h.placed.user_base_toNat
  have h3 := h.boot_lo
  have h4 := h.boot_hi
  have h5 := h.proc_hi
  have h6 := h.proc_aligned
  have h7 := h.placed.ram_aligned
  have hq := q.isLt
  have hle : (q.val + 1) * 16384 ≤ cfg.NUM_PROCESSES * 16384 := by omega
  unfold PGD_ENTRIES at hi
  omega

theorem fill_slot_above (m : Mem) (i : Pid cfg) : Within (cfg.board.USER_PHYS_BASE.toNat / 4 ≤ ·) m
    (kmemcpy (kmemset m (process_init cfg i).user_phys_base 0#8 USER_REGION_SIZE.toNat)
      (process_init cfg i).user_phys_base (cfg.user_images i).image) := by
  have h1 := h.placed.slot_toNat i
  have h2 := h.placed.user_base_toNat
  have h3 := h.placed.ram_lt
  have h4 := h.processes_le
  have h5 := h.images i
  have hi := i.isLt
  have hlo :
    cfg.board.USER_PHYS_BASE.toNat / 4 ≤ (process_init cfg i).user_phys_base.toNat / 4 := by omega
  have hsize : USER_REGION_SIZE.toNat = 0x100000 := by decide
  exact (kmemset_above m _ hlo (by omega)).trans (kmemcpy_above _ _ hlo (by omega))

theorem process_memory_boot {m : Mem} (hm : Holds m cfg.boot_pgd_pa (bootEntry cfg.board))
    (i : Pid cfg) : Holds (process_memory m i) cfg.boot_pgd_pa (bootEntry cfg.board) := by
  refine Holds.apart ?_ (pgtable_build_for_proc_within _ _ _ _ _) (h.placed.boot_apart i)
  exact hm.within (h.fill_slot_above m i) fun j hj => Nat.not_le.mpr (h.boot_low hj)

theorem process_memory_table {m : Mem} (hm : Holds m cfg.boot_pgd_pa (bootEntry cfg.board))
    (i q : Pid cfg)
    (hq : q = i ∨
      Holds m (process_init cfg q).pgd_pa (procEntry cfg.board (process_init cfg q).user_phys_base)) :
    Holds (process_memory m i) (process_init cfg q).pgd_pa
      (procEntry cfg.board (process_init cfg q).user_phys_base) := by
  have hfill := h.fill_slot_above m i
  by_cases hqi : q = i
  · subst hqi
    refine pgtable_build_for_proc_holds (h.placed.boot_apart q) ?_ _
    exact hm.within hfill fun j hj => Nat.not_le.mpr (h.boot_low hj)
  · refine Holds.apart ?_ (pgtable_build_for_proc_within _ _ _ _ _) (h.placed.proc_apart hqi)
    exact (hq.resolve_left hqi).within hfill fun j hj => Nat.not_le.mpr (h.table_low q hj)

theorem process_loop_table {m : Mem} (hm : Holds m cfg.boot_pgd_pa (bootEntry cfg.board)) (q : Pid cfg) :
    Holds ((List.finRange cfg.NUM_PROCESSES).foldl process_memory m) (process_init cfg q).pgd_pa
      (procEntry cfg.board (process_init cfg q).user_phys_base) := by
  refine (foldl_builds (B := fun m => Holds m cfg.boot_pgd_pa _)
    (T := fun m => Holds m (process_init cfg q).pgd_pa _)
    (fun _ i hm => h.process_memory_boot hm i) (fun _ i hm hq => ?_) _ hm).2
      (Or.inl (List.mem_finRange q))
  exact h.process_memory_table hm i q hq

/-- Every process has its table when the first thread runs, whatever memory held at reset. -/
theorem boot_memory_table (m : Mem) (q : Pid cfg) :
    Holds (boot_memory cfg m) (process_init cfg q).pgd_pa
      (procEntry cfg.board (process_init cfg q).user_phys_base) := by
  have hboot := mmu_build_boot_pgd_holds h.placed.fits (zero_table_holds m cfg.boot_pgd_pa)
  refine Holds.apart ?_ (mmu_drop_identity_within _ _ _) (h.placed.boot_apart q).symm
  exact h.process_loop_table hboot q

end Linked

end CortexAOS
