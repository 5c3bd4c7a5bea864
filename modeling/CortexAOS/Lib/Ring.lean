import Mathlib.Data.List.Nodup
import Mathlib.Data.Nat.ModEq
import Mathlib.Data.List.Range
import Mathlib.Logic.Function.Basic

/-!
# Circular arrays

`cap` slots, of which `count` are in use from `start` on. `start` may run freely past `cap`.
-/

namespace CortexAOS.Lib.Ring

variable {α : Type*}

def slot (start cap i : Nat) : Nat := (start + i) % cap

/-- The entries in use, oldest first. -/
def contents (slots : Nat → α) (start count cap : Nat) : List α :=
  (List.range count).map fun i => slots (slot start cap i)

@[simp] theorem contents_zero (slots : Nat → α) (start cap : Nat) :
    contents slots start 0 cap = [] := rfl

@[simp] theorem length_contents (slots : Nat → α) (start count cap : Nat) :
    (contents slots start count cap).length = count := by simp [contents]

theorem slot_lt {start cap i : Nat} (h : 0 < cap) : slot start cap i < cap := Nat.mod_lt _ h

@[simp] theorem slot_mod (start cap i : Nat) : slot (start % cap) cap i = slot start cap i := by
  simp [slot]

theorem slot_succ (start cap i : Nat) : slot start cap (i + 1) = slot (start + 1) cap i := by
  simp only [slot]; congr 1; omega

theorem slot_inj {start cap i j : Nat} (hi : i < cap) (hj : j < cap)
    (h : slot start cap i = slot start cap j) : i = j := by
  have h' : i % cap = j % cap := Nat.ModEq.add_left_cancel' start h
  rwa [Nat.mod_eq_of_lt hi, Nat.mod_eq_of_lt hj] at h'

theorem contents_start_mod (slots : Nat → α) (start count cap : Nat) :
    contents slots (start % cap) count cap = contents slots start count cap := by
  simp [contents]

theorem mem_contents {slots : Nat → α} {start count cap : Nat} {x : α} :
    x ∈ contents slots start count cap ↔ ∃ i < count, slots (slot start cap i) = x := by
  simp [contents]

theorem contents_succ (slots : Nat → α) (start count cap : Nat) :
    contents slots start (count + 1) cap =
      slots (start % cap) :: contents slots (start + 1) count cap := by
  simp only [contents, List.range_succ_eq_map, List.map_cons, List.map_map, slot, Nat.add_zero]
  congr 1
  apply List.map_congr_left
  intro i _
  simp only [Function.comp_apply]
  congr 2; omega

theorem contents_append (slots : Nat → α) (start : Nat) {count cap : Nat} (x : α) (h : count < cap) :
    contents (Function.update slots (slot start cap count) x) start (count + 1) cap =
      contents slots start count cap ++ [x] := by
  simp only [contents, List.range_succ, List.map_append, List.map_cons, List.map_nil,
    Function.update_self]
  congr 1
  apply List.map_congr_left
  intro i hi
  rw [List.mem_range] at hi
  rw [Function.update_of_ne]
  intro he
  have := slot_inj (by omega) h he
  omega

theorem contents_clear (slots : Nat → α) (start : Nat) {count cap : Nat} (x : α) (h : count < cap) :
    contents (Function.update slots (start % cap) x) (start + 1) count cap =
      contents slots (start + 1) count cap := by
  apply List.map_congr_left
  intro i hi
  rw [List.mem_range] at hi
  rw [Function.update_of_ne]
  intro he
  rw [← slot_succ] at he
  have := slot_inj (j := 0) (by omega) (by omega) (he.trans (by simp [slot]))
  omega

/-! ## Distances -/

def ahead (cap a b : Nat) : Nat := (b + (cap - a)) % cap

theorem ahead_lt {cap : Nat} (a b : Nat) (h : 0 < cap) : ahead cap a b < cap := Nat.mod_lt _ h

theorem slot_ahead {cap a b : Nat} (ha : a < cap) (hb : b < cap) : slot a cap (ahead cap a b) = b := by
  unfold slot ahead
  rw [Nat.add_mod_mod, show a + (b + (cap - a)) = b + cap by omega, Nat.add_mod_right,
    Nat.mod_eq_of_lt hb]

theorem ahead_eq {cap a b i : Nat} (ha : a < cap) (hb : b < cap) (hi : i < cap) (h : slot a cap i = b) :
    ahead cap a b = i :=
  slot_inj (ahead_lt a b (by omega)) hi ((slot_ahead ha hb).trans h.symm)

theorem ahead_pos {cap a b : Nat} (ha : a < cap) (hb : b < cap) (hne : b ≠ a) : 0 < ahead cap a b := by
  apply Nat.pos_of_ne_zero
  intro h0
  have h := slot_ahead ha hb
  rw [h0, slot, Nat.add_zero, Nat.mod_eq_of_lt ha] at h
  exact hne h.symm

theorem ahead_slot {cap a b i : Nat} (ha : a < cap) (hb : b < cap) (hi : i ≤ ahead cap a b) :
    ahead cap (slot a cap i) b = ahead cap a b - i := by
  have hlt := ahead_lt a b (Nat.zero_lt_of_lt ha)
  apply ahead_eq (slot_lt (by omega)) hb (by omega)
  rw [slot, slot, Nat.mod_add_mod, Nat.add_assoc, Nat.add_sub_cancel' hi]
  exact slot_ahead ha hb

end CortexAOS.Lib.Ring
