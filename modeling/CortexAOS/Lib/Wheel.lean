import Mathlib.Data.Nat.ModEq

/-!
# Counters that go round

A position below `c` goes on by one at some of the steps, and from the last one back to 0. Nothing
here names the kernel.
-/

namespace CortexAOS.Lib.Wheel

variable {σ ε : Type*} (step : σ → ε → σ) (wrap : σ → ε → Bool)

/-- How often the wheel comes back to 0. -/
def turns : σ → List ε → Nat
  | _, [] => 0
  | s, e :: es => (if wrap s e then 1 else 0) + turns (step s e) es

/-- `position` goes round under the steps that `tick` counts, from the states of `I`. -/
structure Rounds (c : Nat) (I : σ → Prop) (position : σ → Nat) (tick : ε → Bool) : Prop where
  keeps : ∀ s e, I s → I (step s e)
  below : ∀ s, I s → position s < c
  goes : ∀ s e, I s → position (step s e) = if tick e then if position s + 1 = c then 0
    else position s + 1 else position s
  wraps : ∀ s e, I s → (wrap s e = true ↔ tick e = true ∧ position s + 1 = c)

variable {step wrap} {c : Nat} {I : σ → Prop} {position : σ → Nat} {tick : ε → Bool}

theorem Rounds.run (h : Rounds step wrap c I position tick) {s : σ} (hs : I s) (es : List ε) :
    position (es.foldl step s) = (position s + es.countP tick) % c ∧
      turns step wrap s es = (position s + es.countP tick) / c := by
  induction es generalizing s with
  | nil =>
    have hlt := h.below s hs
    exact ⟨(Nat.mod_eq_of_lt hlt).symm, (Nat.div_eq_of_lt hlt).symm⟩
  | cons e es ih =>
    obtain ⟨hpos, hturns⟩ := ih (h.keeps s e hs)
    have hgoes := h.goes s e hs
    have hwraps := h.wraps s e hs
    have hlt := h.below s hs
    rw [List.foldl_cons, hpos, turns, hturns, List.countP_cons]
    cases ht : tick e with
    | false =>
      simp only [ht, Bool.false_eq_true, if_false, false_and, iff_false, Nat.add_zero] at hgoes hwraps ⊢
      rw [hgoes, if_neg hwraps, Nat.zero_add]
      exact ⟨rfl, rfl⟩
    | true =>
      simp only [ht, if_true, true_and] at hgoes hwraps ⊢
      by_cases he : position s + 1 = c
      · rw [hgoes, if_pos he, if_pos (hwraps.mpr he)]
        have hsum : position s + (es.countP tick + 1) = es.countP tick + c := by omega
        rw [hsum, Nat.zero_add, Nat.add_mod_right, Nat.add_div_right _ (by omega), Nat.add_comm 1]
        exact ⟨rfl, rfl⟩
      · rw [hgoes, if_neg he, if_neg fun hw => he (hwraps.mp hw), Nat.zero_add]
        have hsum : position s + 1 + es.countP tick = position s + (es.countP tick + 1) := by omega
        rw [hsum]
        exact ⟨rfl, rfl⟩

end CortexAOS.Lib.Wheel
