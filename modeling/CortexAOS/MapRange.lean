import CortexAOS.Mmu

/-!
# pgtable_map_range, for ranges that wrap

A range may run past the top of the address space on either side. `boot_memory` never asks for one.
-/

namespace CortexAOS

variable {cfg : Config}

/-! ## Addresses of a range -/

theorem section_base {pa : Word} (h : pa.toNat % 2 ^ 20 = 0) (i : Nat) :
    (pa + BitVec.ofNat 32 i <<< 20) &&& 0xFFF00000#32 = BitVec.ofNat 32 (pa.toNat + i * 2 ^ 20) := by
  have hpa := pa.isLt
  apply BitVec.eq_of_toNat_eq
  rw [show (0xFFF00000#32 : Word) = ~~~BitVec.ofNat 32 (2 ^ 20 - 1) from by decide,
    Lib.Bits.toNat_high (by decide),
    BitVec.toNat_add, BitVec.toNat_shiftLeft, BitVec.toNat_ofNat, BitVec.toNat_ofNat, Nat.shiftLeft_eq]
  omega

theorem attrs_below {attrs : Word} (h : attrs.toNat < 2 ^ 20) : attrs &&& 0xFFF00000#32 = 0#32 := by
  apply BitVec.eq_of_toNat_eq
  rw [show (0xFFF00000#32 : Word) = ~~~BitVec.ofNat 32 (2 ^ 20 - 1) from by decide,
    Lib.Bits.toNat_high (by decide), Nat.div_eq_of_lt h]
  rfl

theorem attrs_low (pa : Word) {attrs : Word} (h : attrs.toNat < 2 ^ 20) :
    ((pa &&& 0xFFF00000#32) ||| attrs) &&& 0xFFFFF#32 = attrs := by
  rw [show (0xFFF00000#32 : Word) = ~~~0xFFFFF#32 from by decide, Lib.Bits.join_low pa attrs (by decide)]
  apply BitVec.eq_of_toNat_eq
  rw [show (0xFFFFF#32 : Word) = BitVec.ofNat 32 (2 ^ 20 - 1) from by decide,
    Lib.Bits.toNat_low (by decide), Nat.mod_eq_of_lt h]

/-! ## What the table holds, and how addresses are translated -/

section

variable (m : Mem) (pgd : Word) {va pa attrs : Word} (size : Word)

theorem range_section (hva : va.toNat % 2 ^ 20 = 0) (d : Nat) :
    ((va + BitVec.ofNat 32 d) >>> 20).toNat = (va.toNat / 2 ^ 20 + d / 2 ^ 20) % 4096 ∧
      (va + BitVec.ofNat 32 d).toNat % 0x100000 = d % 0x100000 := by
  have hlt := va.isLt
  rw [section_index, BitVec.toNat_add, BitVec.toNat_ofNat]
  omega

theorem map_range_descriptor (hva : va.toNat % 2 ^ 20 = 0) (pa attrs : Word) {d : Nat}
    (hd : d < size.toNat / 2 ^ 20 * 2 ^ 20) :
    (pgtable_map_range m pgd va pa size attrs).entry pgd ((va + BitVec.ofNat 32 d) >>> 20).toNat =
      ((pa + BitVec.ofNat 32 (d / 2 ^ 20) <<< 20) &&& 0xFFF00000#32) ||| attrs := by
  rw [(range_section hva d).1, map_range_entry m pgd size va pa attrs (by omega)]

theorem range_address (hva : va.toNat % 2 ^ 20 = 0) (hpa : pa.toNat % 2 ^ 20 = 0)
    (hattrs : attrs.toNat < 2 ^ 20) (d : Nat) :
    sectionAddress (((pa + BitVec.ofNat 32 (d / 2 ^ 20) <<< 20) &&& 0xFFF00000#32) ||| attrs)
      (va + BitVec.ofNat 32 d) = pa + BitVec.ofNat 32 d := by
  have hlt := pa.isLt
  apply BitVec.eq_of_toNat_eq
  rw [sectionAddress_toNat _ _ _ (attrs_below hattrs), (range_section hva d).2, BitVec.toNat_add,
    BitVec.toNat_add,
    BitVec.toNat_shiftLeft, BitVec.toNat_ofNat, BitVec.toNat_ofNat, Nat.shiftLeft_eq]
  omega

/-- Every aligned range, also one that wraps: the entries of its sections and no others, and from
there on its addresses go where the range says. -/
theorem pgtable_map_range_exact (va pa attrs : Word) (hva : va.toNat % 2 ^ 20 = 0)
    (hpa : pa.toNat % 2 ^ 20 = 0) (hattrs : attrs.toNat < 2 ^ 20) :
    (∀ k < size.toNat / 2 ^ 20,
      (pgtable_map_range m pgd va pa size attrs).entry pgd ((va.toNat / 2 ^ 20 + k) % 4096) =
        BitVec.ofNat 32 (pa.toNat + k * 2 ^ 20) ||| attrs) ∧
    (∀ i, (∀ k < size.toNat / 2 ^ 20, i ≠ (va.toNat / 2 ^ 20 + k) % 4096) →
      (pgtable_map_range m pgd va pa size attrs).entry pgd i = m.entry pgd i) ∧
    (pgtable_map_range m pgd va pa size attrs = m.storeAll pgd (rangeStores va pa size attrs) ∧
      (∀ p ∈ rangeStores va pa size attrs, p.1 < PGD_ENTRIES) ∧
      Within (InTable pgd) m (pgtable_map_range m pgd va pa size attrs)) ∧
    ∀ d < size.toNat / 2 ^ 20 * 2 ^ 20,
      let x := va + BitVec.ofNat 32 d
      let e := (pgtable_map_range m pgd va pa size attrs).entry pgd (x >>> 20).toNat
      sectionAddress e x = pa + BitVec.ofNat 32 d ∧ e &&& 0xFFFFF#32 = attrs := by
  refine ⟨?_, ?_, ⟨?_, ?_, ?_⟩, ?_⟩
  · intro k hk
    rw [map_range_entry m pgd size va pa attrs hk, section_base hpa]
  · exact fun i h => map_range_other m pgd size va pa attrs h
  · exact map_range_stores m pgd va pa size attrs
  · exact rangeStores_lt va pa size attrs
  · rw [map_range_stores]
    exact storeAll_within m pgd _ (rangeStores_lt va pa size attrs)
  · intro d hd
    dsimp only
    rw [map_range_descriptor m pgd size hva pa attrs hd]
    exact ⟨range_address hva hpa hattrs d, attrs_low _ hattrs⟩

/-- Both sides wrap: three sections at the top of the address space, and one at its start. -/
theorem pgtable_map_range_exact_wrap :
    (pgtable_map_range (fun _ => 0#32) 0x4000#32 0xFFD00000#32 0xFFE00000#32 0x400000#32
      PDE_DEVICE).entry 0x4000#32 0 =
        0x00100000#32 ||| PDE_DEVICE ∧
      (pgtable_map_range (fun _ => 0#32) 0x4000#32 0xFFD00000#32 0xFFE00000#32 0x400000#32
        PDE_DEVICE).entry 0x4000#32 1 = 0#32 := by
  have h :=
    pgtable_map_range_exact (fun _ => 0#32) 0x4000#32 0x400000#32 0xFFD00000#32 0xFFE00000#32 PDE_DEVICE
    (by decide) (by decide) (by decide)
  exact ⟨h.1 3 (by decide), h.2.1 1 (by decide)⟩

end

/-- What a processor does with an address of the range, once it runs on the table. -/
theorem map_range_translate (c : Machine cfg) (m : Mem) {pgd va pa attrs : Word} (size : Word)
    (hpgd : pgd.toNat % 16384 = 0) (hva : va.toNat % 2 ^ 20 = 0) (hpa : pa.toNat % 2 ^ 20 = 0)
    (hattrs : attrs.toNat < 2 ^ 20) (hmem : c.mem = pgtable_map_range m pgd va pa size attrs)
    (httbr : c.ttbr0 = pgd ||| 0x4A#32) (htlb : c.tlb = fun _ => none) (user : Bool) {d : Nat}
    (hd : d < size.toNat / 2 ^ 20 * 2 ^ 20) :
    c.translate user (va + BitVec.ofNat 32 d) =
      if writable user attrs then some (pa + BitVec.ofNat 32 d) else none := by
  have hdesc : c.descriptor (va + BitVec.ofNat 32 d) =
      ((pa + BitVec.ofNat 32 (d / 2 ^ 20) <<< 20) &&& 0xFFF00000#32) ||| attrs := by
    unfold Machine.descriptor
    rw [htlb, Option.getD_none, walk, httbr, ttbr0_base hpgd, hmem,
      map_range_descriptor m pgd size hva pa attrs hd]
  unfold Machine.translate
  rw [hdesc, writable_section, range_address hva hpa hattrs]

end CortexAOS
