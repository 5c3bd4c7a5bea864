import CortexAOS.Lib.Run
import Mathlib.Logic.Relation

/-!
# Programs that drive a device

A device does things by itself, between any two accesses of the program. An assertion about it is
worth something only if the device keeps it. Nothing here names the kernel.
-/

namespace CortexAOS.Lib

variable {σ ρ ν α β : Type}

/-- Registers `ρ` that hold values `ν`. A read may change the device, and `own` is what it does by
itself. -/
structure Device (σ ρ ν : Type) where
  read : σ → ρ → ν
  after : σ → ρ → σ
  write : σ → ρ → ν → σ
  own : σ → σ → Prop

inductive Mmio (ρ ν α : Type) where
  | ret (x : α)
  | write (r : ρ) (v : ν) (k : Mmio ρ ν α)
  | read (r : ρ) (k : ν → Mmio ρ ν α)
  /-- `while (!done(*r));` -/
  | poll (r : ρ) (done : ν → Bool) (k : Mmio ρ ν α)

namespace Mmio

def bind : Mmio ρ ν α → (α → Mmio ρ ν β) → Mmio ρ ν β
  | ret x, f => f x
  | write r v k, f => write r v (k.bind f)
  | read r k, f => read r fun v => (k v).bind f
  | poll r done k, f => poll r done (k.bind f)

instance : Monad (Mmio ρ ν) where
  pure := ret
  bind := bind

def store (r : ρ) (v : ν) : Mmio ρ ν Unit := write r v (ret ())

def load (r : ρ) : Mmio ρ ν ν := read r ret

def await (r : ρ) (done : ν → Bool) : Mmio ρ ν Unit := poll r done (ret ())

/-! ## Runs -/

inductive Event (ρ ν : Type) where
  | own
  | wrote (r : ρ) (v : ν)
  | got (r : ρ) (v : ν)

variable (D : Device σ ρ ν)

inductive Step : Mmio ρ ν α × σ → Event ρ ν → Mmio ρ ν α × σ → Prop
  | own {p : Mmio ρ ν α} {s s' : σ} : D.own s s' → Step (p, s) .own (p, s')
  | write {r : ρ} {v : ν} {k : Mmio ρ ν α} {s : σ} :
      Step (.write r v k, s) (.wrote r v) (k, D.write s r v)
  | read {r : ρ} {k : ν → Mmio ρ ν α} {s : σ} :
      Step (.read r k, s) (.got r (D.read s r)) (k (D.read s r), D.after s r)
  | again {r : ρ} {done : ν → Bool} {k : Mmio ρ ν α} {s : σ} :
    done (D.read s r) = false →
    Step (.poll r done k, s) (.got r (D.read s r)) (.poll r done k, D.after s r)
  | done {r : ρ} {done : ν → Bool} {k : Mmio ρ ν α} {s : σ} :
    done (D.read s r) = true → Step (.poll r done k, s) (.got r (D.read s r)) (k, D.after s r)

/-- The device keeps `P`. -/
def Stable (P : σ → Prop) : Prop := ∀ s s', D.own s s' → P s → P s'

/-- The device can come to where `done` holds. -/
def CanReach (s : σ) (done : σ → Prop) : Prop := ∃ s', Relation.ReflTransGen D.own s s' ∧ done s'

theorem own_run {s s' : σ} (h : Relation.ReflTransGen D.own s s') (p : Mmio ρ ν α) :
    ∃ tr, Run (Step D) (p, s) tr (p, s') := by
  induction h with
  | refl => exact ⟨[], .refl⟩
  | tail _ hs ih =>
    obtain ⟨tr, hr⟩ := ih
    exact ⟨_, hr.snoc (.own hs)⟩

theorem Stable.star {P : σ → Prop} (h : Stable D P) {s s' : σ}
    (hr : Relation.ReflTransGen D.own s s') (hs : P s) : P s' := by
  induction hr with
  | refl => exact hs
  | tail _ ho ih => exact h _ _ ho ih

theorem Stable.and {P Q : σ → Prop} (hP : Stable D P) (hQ : Stable D Q) : Stable D fun s => P s ∧ Q s :=
  fun s s' ho h => ⟨hP s s' ho h.1, hQ s s' ho h.2⟩

/-! ## What holds at every point of a run -/

/-- The next write is allowed, a result is a right one, and the end can be reached. -/
structure Fine (G : σ → ρ → ν → Prop) (Q : α → σ → Prop) (c : Mmio ρ ν α × σ) : Prop where
  allowed : ∀ r v k, c.1 = .write r v k → G c.2 r v
  post : ∀ x, c.1 = .ret x → Q x c.2
  finishes : ∃ tr x s, Run (Step D) c tr (.ret x, s)

/-- From `P`, whatever the device does in between. -/
def Triple (P : σ → Prop) (G : σ → ρ → ν → Prop) (p : Mmio ρ ν α) (Q : α → σ → Prop) : Prop :=
  ∀ s, P s → ∀ tr c, Run (Step D) (p, s) tr c → Fine D G Q c

namespace Triple

variable {D} {P P' : σ → Prop} {G : σ → ρ → ν → Prop} {Q : α → σ → Prop}

/-- By a property of configurations that every step keeps. -/
theorem of_invariant {p : Mmio ρ ν α} (J : Mmio ρ ν α × σ → Prop) (hinit : ∀ s, P s → J (p, s))
    (hkeep : ∀ c e c', J c → Step D c e c' → J c') (hfine : ∀ c, J c → Fine D G Q c) :
    Triple D P G p Q := by
  intro s hs tr c hr
  exact hfine c (hr.invariant hkeep (hinit s hs))

theorem pre {p : Mmio ρ ν α} (h : Triple D P' G p Q) (hP : ∀ s, P s → P' s) : Triple D P G p Q :=
  fun s hs => h s (hP s hs)

theorem post {p : Mmio ρ ν α} {Q' : α → σ → Prop} (h : Triple D P G p Q')
    (hQ : ∀ x s, Q' x s → Q x s) : Triple D P G p Q := by
  intro s hs tr c hr
  obtain ⟨hallowed, hpost, hfinishes⟩ := h s hs tr c hr
  exact ⟨hallowed, fun x hx => hQ x c.2 (hpost x hx), hfinishes⟩

theorem ret {x : α} (hstable : Stable D P) (hpost : ∀ s, P s → Q x s) : Triple D P G (.ret x) Q := by
  refine of_invariant (fun c => c.1 = .ret x ∧ P c.2) (fun s hs => ⟨rfl, hs⟩) ?_ ?_
  · rintro c e c' ⟨hp, hs⟩ hstep
    cases hstep with
    | own ho => exact ⟨hp, hstable _ _ ho hs⟩
    | _ => cases hp
  · rintro ⟨p, s⟩ ⟨rfl, hs⟩
    refine ⟨fun r v k h => (by cases h), fun y hy => ?_, [], x, s, .refl⟩
    cases hy
    exact hpost s hs

theorem write {r : ρ} {v : ν} {k : Mmio ρ ν α} (hstable : Stable D P) (hallow : ∀ s, P s → G s r v)
    (hstep : ∀ s, P s → P' (D.write s r v)) (h : Triple D P' G k Q) : Triple D P G (.write r v k) Q := by
  refine of_invariant (fun c => (c.1 = .write r v k ∧ P c.2) ∨ ∃ s tr, P' s ∧ Run (Step D) (k, s) tr c)
    (fun s hs => Or.inl ⟨rfl, hs⟩) ?_ ?_
  · rintro c e c' (⟨hp, hs⟩ | ⟨s, tr, hs, hr⟩) hstep'
    · cases hstep' with
      | own ho => exact Or.inl ⟨hp, hstable _ _ ho hs⟩
      | write =>
        cases hp
        exact Or.inr ⟨_, [], hstep _ hs, .refl⟩
      | _ => cases hp
    · exact Or.inr ⟨s, _, hs, hr.snoc hstep'⟩
  · rintro ⟨p, s⟩ (⟨rfl, hs⟩ | ⟨s', tr, hs, hr⟩)
    · obtain ⟨tr, x, s', hr⟩ := (h _ (hstep s hs) [] _ .refl).finishes
      refine ⟨fun r' v' k' he => ?_, fun y hy => (by cases hy), _, x, s', .cons .write hr⟩
      cases he
      exact hallow s hs
    · exact h s' hs tr _ hr

theorem read {r : ρ} {k : ν → Mmio ρ ν α} {P' : ν → σ → Prop} (hstable : Stable D P)
    (hstep : ∀ s, P s → P' (D.read s r) (D.after s r)) (h : ∀ v, Triple D (P' v) G (k v) Q) :
    Triple D P G (.read r k) Q := by
  refine of_invariant
    (fun c => (c.1 = .read r k ∧ P c.2) ∨ ∃ v s tr, P' v s ∧ Run (Step D) (k v, s) tr c)
    (fun s hs => Or.inl ⟨rfl, hs⟩) ?_ ?_
  · rintro c e c' (⟨hp, hs⟩ | ⟨v, s, tr, hs, hr⟩) hstep'
    · cases hstep' with
      | own ho => exact Or.inl ⟨hp, hstable _ _ ho hs⟩
      | read =>
        cases hp
        exact Or.inr ⟨_, _, [], hstep _ hs, .refl⟩
      | _ => cases hp
    · exact Or.inr ⟨v, s, _, hs, hr.snoc hstep'⟩
  · rintro ⟨p, s⟩ (⟨rfl, hs⟩ | ⟨v, s', tr, hs, hr⟩)
    · obtain ⟨tr, x, s', hr⟩ := (h _ _ (hstep s hs) [] _ .refl).finishes
      exact ⟨fun r' v' k' he => (by cases he), fun y hy => (by cases hy), _, x, s', .cons .read hr⟩
    · exact h v s' hs tr _ hr

/-- A polling loop: the assertion survives every look, and the device can get ready. -/
theorem poll {r : ρ} {done : ν → Bool} {k : Mmio ρ ν α} (hstable : Stable D P)
    (hagain : ∀ s, P s → done (D.read s r) = false → P (D.after s r))
    (hdone : ∀ s, P s → done (D.read s r) = true → P' (D.after s r))
    (hready : ∀ s, P s → CanReach D s fun s' => done (D.read s' r) = true) (h : Triple D P' G k Q) :
    Triple D P G (.poll r done k) Q := by
  refine of_invariant (fun c => (c.1 = .poll r done k ∧ P c.2) ∨ ∃ s tr, P' s ∧ Run (Step D) (k, s) tr c)
    (fun s hs => Or.inl ⟨rfl, hs⟩) ?_ ?_
  · rintro c e c' (⟨hp, hs⟩ | ⟨s, tr, hs, hr⟩) hstep'
    · cases hstep' with
      | own ho => exact Or.inl ⟨hp, hstable _ _ ho hs⟩
      | again hd =>
        cases hp
        exact Or.inl ⟨rfl, hagain _ hs hd⟩
      | done hd =>
        cases hp
        exact Or.inr ⟨_, [], hdone _ hs hd, .refl⟩
      | _ => cases hp
    · exact Or.inr ⟨s, _, hs, hr.snoc hstep'⟩
  · rintro ⟨p, s⟩ (⟨rfl, hs⟩ | ⟨s', tr, hs, hr⟩)
    · obtain ⟨s₁, hown, hd⟩ := hready s hs
      have hs₁ := hstable.star D hown hs
      obtain ⟨tr, hr⟩ := own_run D hown (.poll r done k)
      obtain ⟨tr', x, s', hr'⟩ := (h _ (hdone s₁ hs₁ hd) [] _ .refl).finishes
      exact ⟨fun r' v' k' he => (by cases he), fun y hy => (by cases hy), _, x, s',
        hr.trans (.cons (.done hd) hr')⟩
    · exact h s' hs tr _ hr

/-! ## Sequences -/

/-- A step of the first part is one of the whole. -/
theorem step_bind {p p' : Mmio ρ ν α} {s s' : σ} {e : Event ρ ν} (f : α → Mmio ρ ν β)
    (h : Step D (p, s) e (p', s')) : Step D (p.bind f, s) e (p'.bind f, s') := by
  cases h with
  | own ho => exact .own ho
  | write => exact .write
  | read => exact .read
  | again hd => exact .again hd
  | done hd => exact .done hd

theorem run_bind {p p' : Mmio ρ ν α} {s s' : σ} {tr : List (Event ρ ν)} (f : α → Mmio ρ ν β)
    (h : Run (Step D) (p, s) tr (p', s')) : Run (Step D) (p.bind f, s) tr (p'.bind f, s') := by
  generalize hc : (p', s') = c at h
  induction h generalizing p' s' with
  | refl =>
    cases hc
    exact .refl
  | @snoc tr c' c'' e _ hs ih =>
    obtain ⟨p₁, s₁⟩ := c'
    subst hc
    exact (ih rfl).snoc (step_bind f hs)

/-- A step of the whole, while the first part is not at its end, is a step of the first part. -/
theorem step_of_bind {p : Mmio ρ ν α} {f : α → Mmio ρ ν β} {s : σ} {e : Event ρ ν} {c : Mmio ρ ν β × σ}
    (hp : ∀ x, p ≠ .ret x) (h : Step D (p.bind f, s) e c) :
    ∃ p', Step D (p, s) e (p', c.2) ∧ c.1 = p'.bind f := by
  cases p with
  | ret x => exact absurd rfl (hp x)
  | write r v k =>
    cases h with
    | own ho => exact ⟨_, .own ho, rfl⟩
    | write => exact ⟨_, .write, rfl⟩
  | read r k =>
    cases h with
    | own ho => exact ⟨_, .own ho, rfl⟩
    | read => exact ⟨_, .read, rfl⟩
  | poll r done k =>
    cases h with
    | own ho => exact ⟨_, .own ho, rfl⟩
    | again hd => exact ⟨_, .again hd, rfl⟩
    | done hd => exact ⟨_, .done hd, rfl⟩

theorem bind {p : Mmio ρ ν α} {f : α → Mmio ρ ν β} {R : β → σ → Prop} (h : Triple D P G p Q)
    (hf : ∀ x, Triple D (Q x) G (f x) R) : Triple D P G (p.bind f) R := by
  intro s hs tr c hr
  -- Either the first part is still running, or the second one has begun in a state of `Q`.
  have hkeep : (∃ p' tr', Run (Step D) (p, s) tr' (p', c.2) ∧ c.1 = p'.bind f) ∨
      ∃ x s' tr', Q x s' ∧ Run (Step D) (f x, s') tr' c := by
    refine hr.invariant (I := fun c => (∃ p' tr', Run (Step D) (p, s) tr' (p', c.2) ∧ c.1 = p'.bind f) ∨
      ∃ x s' tr', Q x s' ∧ Run (Step D) (f x, s') tr' c) ?_ (Or.inl ⟨p, [], .refl, rfl⟩)
    rintro ⟨q, s₁⟩ e c' (⟨p', tr', hr', rfl⟩ | ⟨x, s', tr', hx, hr'⟩) hstep
    · by_cases hret : ∃ x, p' = .ret x
      · obtain ⟨x, rfl⟩ := hret
        exact Or.inr ⟨x, s₁, _, (h s hs tr' _ hr').post x rfl, .single hstep⟩
      · obtain ⟨p'', hs'', he⟩ := step_of_bind (fun x hx => hret ⟨x, hx⟩) hstep
        exact Or.inl ⟨p'', _, hr'.snoc hs'', he⟩
    · exact Or.inr ⟨x, s', _, hx, hr'.snoc hstep⟩
  obtain ⟨q, s₁⟩ := c
  rcases hkeep with ⟨p', tr', hr', rfl⟩ | ⟨x, s', tr', hx, hr'⟩
  · have hfine := h s hs tr' _ hr'
    by_cases hret : ∃ x, p' = .ret x
    · obtain ⟨x, rfl⟩ := hret
      exact hf x s₁ (hfine.post x rfl) [] _ .refl
    · obtain ⟨tr₁, x, s₂, hr₁⟩ := hfine.finishes
      have hq : Q x s₂ := (h s hs _ _ (hr'.trans hr₁)).post x rfl
      obtain ⟨tr₂, y, s₃, hr₂⟩ := (hf x s₂ hq [] _ .refl).finishes
      refine ⟨fun r v k he => ?_, fun y hy => ?_, _, y, s₃, (run_bind f hr₁).trans hr₂⟩
      · cases p' with
        | write r' v' k' =>
          cases he
          exact hfine.allowed r v k' rfl
        | ret x => exact absurd ⟨x, rfl⟩ hret
        | _ => cases he
      · cases p' with
        | ret x => exact absurd ⟨x, rfl⟩ hret
        | _ => cases hy
  · exact hf x s' hx tr' _ hr'

theorem seq {p : Mmio ρ ν Unit} {q : Mmio ρ ν α} (h : Triple D P G p fun _ => P')
    (h' : Triple D P' G q Q) : Triple D P G (do p; q) Q := h.bind fun _ => h'

theorem store {r : ρ} {v : ν} (hstable : Stable D P) (hallow : ∀ s, P s → G s r v)
    (hstep : ∀ s, P s → P' (D.write s r v)) (hstable' : Stable D P') :
    Triple D P G (Mmio.store r v) fun _ => P' :=
  write hstable hallow hstep (ret hstable' fun _ h => h)

theorem await {r : ρ} {done : ν → Bool} (hstable : Stable D P)
    (hagain : ∀ s, P s → done (D.read s r) = false → P (D.after s r))
    (hdone : ∀ s, P s → done (D.read s r) = true → P' (D.after s r))
    (hready : ∀ s, P s → CanReach D s fun s' => done (D.read s' r) = true) (hstable' : Stable D P') :
    Triple D P G (Mmio.await r done) fun _ => P' :=
  poll hstable hagain hdone hready (ret hstable' fun _ h => h)

theorem load {r : ρ} {Q : ν → σ → Prop} (hstable : Stable D P)
    (hstep : ∀ s, P s → Q (D.read s r) (D.after s r))
    (hstable' : ∀ v, Stable D (Q v)) : Triple D P G (Mmio.load r) Q :=
  read hstable hstep fun v => ret (hstable' v) fun _ h => h

/-- What a precondition says about no state may be used right away. -/
theorem given {p : Mmio ρ ν α} {φ : Prop} (h : φ → Triple D P G p Q) :
    Triple D (fun s => φ ∧ P s) G p Q :=
  fun s hs => h hs.1 s hs.2

/-- A loop over a list: `I` says where things stand after the elements that are done. -/
theorem forM {γ : Type} {body : γ → Mmio ρ ν Unit} (I : List γ → σ → Prop)
    (hstable : ∀ l, Stable D (I l)) (xs l : List γ)
    (hbody : ∀ l' x, x ∈ xs → Triple D (I l') G (body x) fun _ => I (l' ++ [x])) :
    Triple D (I l) G (xs.forM body) fun _ => I (l ++ xs) := by
  induction xs generalizing l with
  | nil =>
    rw [List.append_nil]
    exact ret (hstable l) fun _ h => h
  | cons x xs ih =>
    have hrest := ih (l ++ [x]) fun l' y hy => hbody l' y (List.mem_cons_of_mem x hy)
    rw [List.append_assoc] at hrest
    exact (hbody l x List.mem_cons_self).seq hrest

end Triple

end Mmio

end CortexAOS.Lib
