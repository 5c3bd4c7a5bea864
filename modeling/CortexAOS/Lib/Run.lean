import Mathlib.Data.List.Induction

/-!
# Runs of a labelled step relation

A run lists the labels of its steps, oldest first. Nothing here names the kernel.
-/

namespace CortexAOS.Lib

variable {σ ι : Type*} {step step' : σ → ι → σ → Prop}

inductive Run (step : σ → ι → σ → Prop) (s : σ) : List ι → σ → Prop
  | refl : Run step s [] s
  | snoc {tr : List ι} {t u : σ} {a : ι} : Run step s tr t → step t a u → Run step s (tr ++ [a]) u

theorem Run.single {s t : σ} {a : ι} (h : step s a t) : Run step s [a] t := Run.snoc .refl h

theorem Run.trans {s t u : σ} {tr tr' : List ι} (h : Run step s tr t) (h' : Run step t tr' u) :
    Run step s (tr ++ tr') u := by
  induction h' with
  | refl => simpa using h
  | snoc _ hs ih => rw [← List.append_assoc]; exact ih.snoc hs

theorem Run.cons {s t u : σ} {a : ι} {tr : List ι} (h : step s a t) (h' : Run step t tr u) :
    Run step s (a :: tr) u := (Run.single h).trans h'

theorem Run.mono (hmono : ∀ s a t, step s a t → step' s a t) {s t : σ} {tr : List ι}
    (h : Run step s tr t) : Run step' s tr t := by
  induction h with
  | refl => exact .refl
  | snoc _ hs ih => exact ih.snoc (hmono _ _ _ hs)

theorem Run.split {s u : σ} {tr tr' : List ι} (h : Run step s (tr ++ tr') u) :
    ∃ t, Run step s tr t ∧ Run step t tr' u := by
  induction tr' using List.reverseRecOn generalizing u with
  | nil => exact ⟨u, by simpa using h, .refl⟩
  | append_singleton l b ih =>
    rw [← List.append_assoc] at h
    generalize htr : (tr ++ l) ++ [b] = full at h
    cases h with
    | refl => simp at htr
    | snoc h' hs =>
      obtain ⟨hl, hb⟩ := List.append_inj' htr rfl
      simp only [List.cons.injEq, and_true] at hb
      subst hl hb
      obtain ⟨t, h1, h2⟩ := ih h'
      exact ⟨t, h1, h2.snoc hs⟩

theorem Run.of_single {s t : σ} {a : ι} (h : Run step s [a] t) : step s a t := by
  generalize htr : [a] = tr at h
  cases h with
  | refl => cases htr
  | snoc h' hs =>
    obtain ⟨hl, hb⟩ := List.append_inj' (show [] ++ [a] = _ from htr) rfl
    simp only [List.cons.injEq, and_true] at hb
    subst hl hb
    generalize htr' : ([] : List ι) = l at h'
    cases h' with
    | refl => exact hs
    | snoc _ _ => simp at htr'

theorem Run.of_nil {s t : σ} (h : Run step s [] t) : s = t := by
  generalize htr : ([] : List ι) = tr at h
  cases h with
  | refl => rfl
  | snoc _ _ => simp at htr

theorem Run.uncons {s u : σ} {a : ι} {tr : List ι} (h : Run step s (a :: tr) u) :
    ∃ t, step s a t ∧ Run step t tr u := by
  obtain ⟨t, h1, h2⟩ := Run.split (show Run step s ([a] ++ tr) u from h)
  exact ⟨t, h1.of_single, h2⟩

/-- What holds first and is kept by every step holds after every run. -/
theorem Run.invariant {I : σ → Prop} (hkeep : ∀ s a t, I s → step s a t → I t) {s t : σ} {tr : List ι}
    (h : Run step s tr t) (h0 : I s) : I t := by
  induction h with
  | refl => exact h0
  | snoc _ hs ih => exact hkeep _ _ _ ih hs

theorem Run.history {I : List ι → σ → Prop}
    (hkeep : ∀ tr s a t, I tr s → step s a t → I (tr ++ [a]) t) {s t : σ} {tr : List ι}
    (h : Run step s tr t) (h0 : I [] s) : I tr t := by
  induction h with
  | refl => exact h0
  | snoc _ hs ih => exact hkeep _ _ _ _ ih hs

/-- A step may use an invariant that is proved apart. -/
theorem Run.restrict {I : σ → Prop} (hkeep : ∀ s a t, I s → step s a t → I t) {s t : σ} {tr : List ι}
    (h : Run step s tr t) (h0 : I s) : Run (fun s a t => step s a t ∧ I s ∧ I t) s tr t := by
  induction h with
  | refl => exact .refl
  | snoc h hs ih =>
    have hi := h.invariant hkeep h0
    exact ih.snoc ⟨hs, hi, hkeep _ _ _ hi hs⟩

end CortexAOS.Lib
