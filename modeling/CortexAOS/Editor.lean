import CortexAOS.Commands
import Mathlib.Data.List.DropRight

/-!
# shell.c: the line editor

`main` from its prompt on: one round of the `for` for each call of `sys_read`.
-/

namespace CortexAOS

def LINE_MAX : Nat := 64

inductive ShellObs where
  | puts (s : CStr)
  /-- `sys_write(1, &c, 1)`. -/
  | echo (c : Byte)
  /-- `line[i] = c`. -/
  | store (i : Nat) (c : Byte)
  /-- `dispatch(line)`, with what the array holds then. -/
  | dispatched (line : List Byte)
  deriving DecidableEq

def prompt : ShellObs := .puts (ascii "shell> ")

def erase : ShellObs := .puts (ascii "\x08 \x08")

/-- The variables of `main`, and what it has done so far. -/
structure Shell where
  line : Nat → Byte
  n : Nat
  out : List ShellObs

namespace Shell

def store (s : Shell) (c : Byte) : Shell :=
  { s with line := Function.update s.line s.n c, out := s.out ++ [.store s.n c] }

def emit (s : Shell) (o : ShellObs) : Shell := { s with out := s.out ++ [o] }

def array (s : Shell) : List Byte := (List.range LINE_MAX).map s.line

def isEnter (c : Byte) : Bool := c = 0x0D#8 || c = 0x0A#8

def isErase (c : Byte) : Bool := c = 0x08#8 || c = 0x7F#8

/-- One round, with the byte that `sys_read` has stored; `none` if it has returned no byte. -/
def round (s : Shell) : Option Byte → Shell
  | none => s
  | some c =>
    if isEnter c then
      let s := (s.emit (.puts (ascii "\r\n"))).store 0#8
      let s := s.emit (.dispatched s.array)
      { s with n := 0 }.emit prompt
    else if isErase c then
      if s.n > 0 then { s with n := s.n - 1 }.emit erase else s
    else if s.n + 1 < LINE_MAX then { s.store c with n := s.n + 1 }.emit (.echo c)
    else s

/-- `line` is not initialised. -/
def main (line : Nat → Byte) : Shell where
  line := line
  n := 0
  out := [.puts (utf8 "\nCortex-A-OS shell — type 'help' for commands\n"), prompt]

def run (line : Nat → Byte) (rs : List (Option Byte)) : Shell := rs.foldl round (main line)

def held (s : Shell) : List Byte := (List.range s.n).map s.line

end Shell

/-! ## The reference -/

structure Edit where
  held : List Byte
  entered : List CStr

/-- A line goes up to its first NUL. -/
def Edit.key (e : Edit) (c : Byte) : Edit :=
  if c = 0x0D#8 ∨ c = 0x0A#8 then ⟨[], e.entered ++ [Ptr.string e.held]⟩
  else if c = 0x08#8 ∨ c = 0x7F#8 then { e with held := e.held.dropLast }
  else if e.held.length < 63 then { e with held := e.held ++ [c] }
  else e

def edit (bs : List Byte) : Edit := bs.foldl Edit.key ⟨[], []⟩

/-! ## On the screen -/

def ShellObs.isEcho : ShellObs → Bool
  | .echo _ => true
  | _ => false

def sincePrompt (out : List ShellObs) : List ShellObs := out.rtakeWhile (· ≠ prompt)

def shown (out : List ShellObs) : Int :=
  (sincePrompt out).countP ShellObs.isEcho - (sincePrompt out).count erase

@[simp] theorem shown_prompt (out : List ShellObs) : shown (out ++ [prompt]) = 0 := by
  unfold shown sincePrompt
  rw [List.rtakeWhile_concat_neg _ _ _ (by simp)]
  rfl

theorem shown_append (out : List ShellObs) {o : ShellObs} (h : o ≠ prompt) :
    shown (out ++ [o]) = shown out + ((if o.isEcho then 1 else 0) - if o = erase then 1 else 0) := by
  unfold shown sincePrompt
  rw [List.rtakeWhile_concat_pos _ _ _ (by simpa using h), List.countP_append, List.count_append,
    List.countP_singleton, List.count_singleton]
  simp only [beq_iff_eq]
  split_ifs <;> push_cast <;> omega

@[simp] theorem shown_echo (out : List ShellObs) (c : Byte) :
    shown (out ++ [.echo c]) = shown out + 1 := by
  rw [shown_append out (by simp [prompt])]
  simp [ShellObs.isEcho, erase]

@[simp] theorem shown_erase (out : List ShellObs) : shown (out ++ [erase]) = shown out - 1 := by
  rw [shown_append out (by decide)]
  simp [ShellObs.isEcho, erase]
  omega

@[simp] theorem shown_store (out : List ShellObs) (i : Nat) (c : Byte) :
    shown (out ++ [.store i c]) = shown out := by
  rw [shown_append out (by simp [prompt])]
  simp [ShellObs.isEcho, erase]

/-! ## The array -/

theorem string_cut (l r : List Byte) : Ptr.string (l ++ 0#8 :: r) = Ptr.string l := by
  unfold Ptr.string
  induction l with
  | nil => rfl
  | cons c l ih =>
    rw [List.cons_append, List.takeWhile_cons, List.takeWhile_cons, ih]

theorem array_terminated {s : Shell} (h : s.n < LINE_MAX) :
    ∃ r, (s.store 0#8).array = s.held ++ 0#8 :: r := by
  obtain ⟨m, hm⟩ : ∃ m, LINE_MAX = s.n + (m + 1) := ⟨LINE_MAX - s.n - 1, by omega⟩
  have hheld : (List.range s.n).map (Function.update s.line s.n 0#8) = s.held := by
    apply List.map_congr_left
    intro i hi
    exact Function.update_of_ne (Nat.ne_of_lt (List.mem_range.mp hi)) _ _
  unfold Shell.array Shell.store
  dsimp only
  rw [hm, List.range_add, List.map_append, hheld, List.range_succ_eq_map]
  simp

theorem held_length (s : Shell) : s.held.length = s.n := by simp [Shell.held]

theorem held_pop (s : Shell) : { s with n := s.n - 1 }.held = s.held.dropLast := by
  unfold Shell.held
  rcases hn : s.n with _ | n
  · rfl
  · rw [List.range_succ, List.map_append, List.map_singleton, List.dropLast_concat]
    rfl

theorem held_push (s : Shell) (c : Byte) : { s.store c with n := s.n + 1 }.held = s.held ++ [c] := by
  unfold Shell.held Shell.store
  dsimp only
  rw [List.range_succ, List.map_append, List.map_singleton, Function.update_self]
  congr 1
  apply List.map_congr_left
  intro i hi
  exact Function.update_of_ne (Nat.ne_of_lt (List.mem_range.mp hi)) _ _

/-! ## One key, and every sequence of keys -/

def ShellObs.entered? : ShellObs → Option CStr
  | .dispatched line => some (Ptr.string line)
  | _ => none

/-- The shell is where the reference is. -/
structure Tracks (s : Shell) (e : Edit) : Prop where
  n_lt : s.n < LINE_MAX
  held : s.held = e.held
  entered : s.out.filterMap ShellObs.entered? = e.entered
  stores : ∀ i c, .store i c ∈ s.out → i < LINE_MAX
  terminated : ∀ line, .dispatched line ∈ s.out → 0#8 ∈ line
  shown : shown s.out = s.n

theorem tracks_main (line : Nat → Byte) : Tracks (Shell.main line) (edit []) where
  n_lt := show 0 < LINE_MAX by decide
  held := rfl
  entered := rfl
  stores := by simp [Shell.main, prompt]
  terminated := by simp [Shell.main, prompt]
  shown := shown_prompt [_]

theorem tracks_enter {s : Shell} {e : Edit} (h : Tracks s e) {c : Byte} (hc : Shell.isEnter c = true) :
    Tracks (s.round (some c)) ⟨[], e.entered ++ [Ptr.string e.held]⟩ := by
  obtain ⟨r, harray⟩ := @array_terminated (s.emit (.puts (ascii "\r\n"))) h.n_lt
  have hstring : Ptr.string ((s.emit (.puts (ascii "\r\n"))).store 0#8).array = Ptr.string e.held := by
    rw [harray, string_cut]
    exact congrArg Ptr.string h.held
  have hround : (s.round (some c)).out = s.out ++ [.puts (ascii "\r\n")] ++ [.store s.n 0#8] ++
      [.dispatched ((s.emit (.puts (ascii "\r\n"))).store 0#8).array] ++ [prompt] := by
    unfold Shell.round
    dsimp only
    rw [if_pos hc]
    rfl
  have hn : (s.round (some c)).n = 0 := by
    unfold Shell.round
    dsimp only
    rw [if_pos hc]
    rfl
  refine ⟨?_, ?_, ?_, ?_, ?_, ?_⟩
  · rw [hn]
    decide
  · simp [Shell.held, hn]
  · simp only [hround, List.filterMap_append, h.entered, List.filterMap_cons, List.filterMap_nil,
      ShellObs.entered?, hstring, prompt, List.append_nil]
  · intro i b hmem
    simp only [hround, List.mem_append, List.mem_singleton, prompt, reduceCtorEq, or_false,
      ShellObs.store.injEq] at hmem
    rcases hmem with hmem | ⟨rfl, -⟩
    · exact h.stores i b hmem
    · exact h.n_lt
  · intro line hmem
    simp only [hround, List.mem_append, List.mem_singleton, prompt, reduceCtorEq, or_false,
      ShellObs.dispatched.injEq] at hmem
    rcases hmem with hmem | rfl
    · exact h.terminated line hmem
    · rw [harray]
      simp
  · rw [hround, shown_prompt, hn]
    rfl

theorem tracks_erase {s : Shell} {e : Edit} (h : Tracks s e) {c : Byte} (hc : ¬ Shell.isEnter c = true)
    (he : Shell.isErase c = true) : Tracks (s.round (some c)) { e with held := e.held.dropLast } := by
  unfold Shell.round
  dsimp only
  rw [if_neg hc, if_pos he]
  by_cases hn : s.n > 0
  · rw [if_pos hn]
    refine ⟨Nat.lt_of_le_of_lt (Nat.sub_le _ _) h.n_lt, ?_, ?_, ?_, ?_, ?_⟩
    · exact (held_pop s).trans (congrArg List.dropLast h.held)
    · simp [Shell.emit, h.entered, ShellObs.entered?, erase]
    · intro i b hmem
      simp only [Shell.emit, erase, List.mem_append, List.mem_singleton, reduceCtorEq, or_false] at hmem
      exact h.stores i b hmem
    · intro line hmem
      simp only [Shell.emit, erase, List.mem_append, List.mem_singleton, reduceCtorEq, or_false] at hmem
      exact h.terminated line hmem
    · simp only [Shell.emit, shown_erase, h.shown]
      omega
  · -- Nothing is held, and nothing is left to take.
    rw [if_neg hn]
    have hnil : s.held = [] := List.length_eq_zero_iff.mp (by rw [held_length]; omega)
    refine ⟨h.n_lt, ?_, h.entered, h.stores, h.terminated, h.shown⟩
    rw [← h.held, hnil]
    rfl

theorem tracks_other {s : Shell} {e : Edit} (h : Tracks s e) {c : Byte} (hc : ¬ Shell.isEnter c = true)
    (he : ¬ Shell.isErase c = true) :
    Tracks (s.round (some c)) (if e.held.length < 63 then { e with held := e.held ++ [c] } else e) := by
  have hlen : e.held.length = s.n := by rw [← h.held, held_length]
  have hmax : s.n + 1 < LINE_MAX ↔ s.n < 63 := by
    unfold LINE_MAX
    omega
  unfold Shell.round
  dsimp only
  rw [if_neg hc, if_neg he, hlen]
  by_cases hn : s.n < 63
  · rw [if_pos (hmax.mpr hn), if_pos hn]
    refine ⟨hmax.mpr hn, ?_, ?_, ?_, ?_, ?_⟩
    · exact (held_push s c).trans (congrArg (· ++ [c]) h.held)
    · simp [Shell.emit, Shell.store, h.entered, ShellObs.entered?]
    · intro i b hmem
      simp only [Shell.emit, Shell.store, List.mem_append, List.mem_singleton, reduceCtorEq, or_false,
        ShellObs.store.injEq] at hmem
      rcases hmem with hmem | ⟨rfl, -⟩
      · exact h.stores i b hmem
      · exact h.n_lt
    · intro line hmem
      simp only [Shell.emit, Shell.store, List.mem_append, List.mem_singleton, reduceCtorEq,
        or_false] at hmem
      exact h.terminated line hmem
    · simp only [Shell.emit, Shell.store, shown_echo, shown_store, h.shown]
      rfl
  · rw [if_neg (fun hlt => hn (hmax.mp hlt)), if_neg hn]
    exact h

theorem isEnter_iff (c : Byte) : Shell.isEnter c = true ↔ c = 0x0D#8 ∨ c = 0x0A#8 := by
  simp [Shell.isEnter]

theorem isErase_iff (c : Byte) : Shell.isErase c = true ↔ c = 0x08#8 ∨ c = 0x7F#8 := by
  simp [Shell.isErase]

theorem tracks_key {s : Shell} {e : Edit} (h : Tracks s e) (c : Byte) :
    Tracks (s.round (some c)) (e.key c) := by
  unfold Edit.key
  simp only [← isEnter_iff, ← isErase_iff]
  split_ifs with hc he hlen
  · exact tracks_enter h hc
  · exact tracks_erase h hc he
  · have := tracks_other h hc he
    rwa [if_pos hlen] at this
  · have := tracks_other h hc he
    rwa [if_neg hlen] at this

theorem tracks_run (line : Nat → Byte) (rs : List (Option Byte)) :
    Tracks (Shell.run line rs) (edit rs.reduceOption) := by
  induction rs using List.reverseRecOn with
  | nil => exact tracks_main line
  | append_singleton rs r ih =>
    rw [Shell.run, List.foldl_append, List.reduceOption_append]
    cases r with
    | none =>
      rw [show [(none : Option Byte)].reduceOption = [] from rfl, List.append_nil]
      exact ih
    | some c =>
      rw [edit, List.foldl_append]
      exact tracks_key ih c

end CortexAOS
