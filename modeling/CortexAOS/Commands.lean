import CortexAOS.Shell

/-!
# shell.c: how a command line is recognised

The functions of `Shell.lean` once more, on pointers: a pointer is what the array holds from there on,
the terminator included, and a read past the terminator is `none`.
-/

namespace CortexAOS

/-! ## Commands -/

inductive Command where
  | help | ps | kill | echo | clear | crash
  deriving DecidableEq

namespace Command

def text : Command → CStr
  | help => ascii "help"
  | ps => ascii "ps"
  | kill => ascii "kill"
  | echo => ascii "echo"
  | clear => ascii "clear"
  | crash => ascii "crash"

/-- In the order in which `dispatch` tries them. -/
def all : List Command := [help, ps, kill, echo, clear, crash]

/-- Only two of them are passed the rest of the line. -/
def exec (rest : CStr) : Command → UProg
  | help => cmd_help
  | ps => cmd_ps
  | kill => cmd_kill rest
  | echo => cmd_echo rest
  | clear => cmd_clear
  | crash => cmd_crash

theorem mem_all (c : Command) : c ∈ all := by cases c <;> decide

theorem text_injective {c d : Command} : c.text = d.text → c = d := by
  cases c <;> cases d <;> decide

theorem text_plain (c : Command) : 0#8 ∉ c.text ∧ ∀ x ∈ c.text, isBlank x = false := by
  cases c <;> simp [text, ascii, isBlank]

end Command

/-! ## The code on pointers -/

namespace Ptr

def skip_spaces : List Byte → Option (List Byte)
  | [] => none
  | c :: s => if isBlank c then skip_spaces s else some (c :: s)

def ulib_strlen : List Byte → Option Nat
  | [] => none
  | c :: s => if c ≠ 0#8 then (ulib_strlen s).map (· + 1) else some 0

def ulib_strncmp (a b : List Byte) : Nat → Option Int
  | 0 => some 0
  | n + 1 => do
    let x ← a.head?
    let y ← b.head?
    if x ≠ 0#8 ∧ x = y then ulib_strncmp a.tail b.tail n else some (x.toNat - y.toNat)

/-- The outer `none` is a read past the end, the inner one the null pointer. -/
def match_word (s word : List Byte) : Option (Option (List Byte)) := do
  let n ← ulib_strlen word
  let r ← ulib_strncmp s word n
  if r ≠ 0 then some none
  else do
    let c ← s[n]?
    if c ≠ 0#8 ∧ ¬ isBlank c then some none else (skip_spaces (s.drop n)).map some

def string (p : List Byte) : CStr := p.takeWhile (· ≠ 0#8)

/-- What `dispatch` does with the line, and the pointer `rest` that it has then. -/
inductive Call where
  | nothing
  | run (c : Command) (rest : List Byte)
  | unknown
  deriving DecidableEq

def Call.exec : Call → UProg
  | nothing => .done
  | run c rest => c.exec (string rest)
  | unknown => ulib_puts (utf8 "unknown command — try 'help'\n") .done

/-- `if ((rest = match_word(p, ...))) { ...; return; }`, for one command after the other. -/
def tryAll (p : List Byte) : List Command → Option Call
  | [] => some .unknown
  | c :: cs => do
    match ← match_word p (c.text ++ [0#8]) with
    | some rest => some (.run c rest)
    | none => tryAll p cs

def dispatch (line : List Byte) : Option Call := do
  let p ← skip_spaces line
  let c ← p.head?
  if c = 0#8 then some .nothing else tryAll p Command.all

end Ptr

/-! ## No read past the terminator -/

section

variable {s w l : CStr}

theorem ptr_skip_spaces (s : CStr) : Ptr.skip_spaces (s ++ [0#8]) = some (skip_spaces s ++ [0#8]) := by
  induction s with
  | nil => rfl
  | cons c s ih =>
    rw [List.cons_append, Ptr.skip_spaces, skip_spaces, List.dropWhile_cons]
    split
    · exact ih
    · rfl

theorem ptr_strlen (hw : 0#8 ∉ w) : Ptr.ulib_strlen (w ++ [0#8]) = some (ulib_strlen w) := by
  induction w with
  | nil => rfl
  | cons c w ih =>
    have hc : c ≠ 0#8 := fun h => hw (by simp [h])
    rw [List.cons_append, Ptr.ulib_strlen, if_pos hc, ih fun h => hw (by simp [h])]
    rfl

theorem ptr_strncmp (hs : 0#8 ∉ s) (hw : 0#8 ∉ w) (n : Nat) :
    Ptr.ulib_strncmp (s ++ [0#8]) (w ++ [0#8]) n = some (ulib_strncmp s w n) := by
  induction n generalizing s w with
  | zero => rfl
  | succ n ih =>
    have hhead : ∀ t : CStr, (t ++ [0#8]).head? = some t.char := fun t => by cases t <;> rfl
    rw [Ptr.ulib_strncmp, hhead, hhead, ulib_strncmp]
    simp only [Option.bind_eq_bind, Option.bind_some]
    split
    · rename_i h
      -- A first character that is not the terminator: there is a tail on both sides.
      obtain ⟨c, s, rfl⟩ : ∃ c s', s = c :: s' := by
        rcases s with _ | ⟨c, s⟩
        · exact absurd rfl h.1
        · exact ⟨c, s, rfl⟩
      obtain ⟨d, w, rfl⟩ : ∃ d w', w = d :: w' := by
        rcases w with _ | ⟨d, w⟩
        · exact absurd h.2 h.1
        · exact ⟨d, w, rfl⟩
      exact ih (fun h => hs (by simp [h])) (fun h => hw (by simp [h]))
    · rfl

theorem ptr_match_word (hs : 0#8 ∉ s) (hw : 0#8 ∉ w) :
    Ptr.match_word (s ++ [0#8]) (w ++ [0#8]) = some ((match_word s w).map (· ++ [0#8])) := by
  unfold Ptr.match_word match_word
  simp only [ptr_strlen hw, ptr_strncmp hs hw, Option.bind_eq_bind, Option.bind_some]
  by_cases hp : ulib_strncmp s w (ulib_strlen w) = 0
  · obtain ⟨t, rfl⟩ := (strncmp_take hs hw).mp hp
    have hat : (w ++ t ++ [0#8])[ulib_strlen w]? = some (CStr.char t) := by
      rw [List.append_assoc, ulib_strlen, List.getElem?_append_right (Nat.le_refl _), Nat.sub_self]
      cases t <;> rfl
    have hdrop : (w ++ t ++ [0#8]).drop (ulib_strlen w) = t ++ [0#8] := by
      rw [List.append_assoc]
      exact List.drop_left
    have hdrop' : (w ++ t).drop (ulib_strlen w) = t := List.drop_left
    rw [if_neg (not_not.mpr hp), if_neg (not_not.mpr hp), hat, hdrop, hdrop', Option.bind_some,
      ptr_skip_spaces]
    split <;> rfl
  · rw [if_pos hp, if_pos hp]
    rfl

theorem string_append (hs : 0#8 ∉ s) : Ptr.string (s ++ [0#8]) = s := by
  have hpos : ∀ x ∈ s, (decide (x ≠ 0#8)) = true := fun x hx => by
    rw [decide_eq_true_iff]
    rintro rfl
    exact hs hx
  rw [Ptr.string, List.takeWhile_append_of_pos hpos]
  exact List.append_nil s

end

/-! ## The grammar -/

def word (line : CStr) : CStr := (skip_spaces line).takeWhile (!isBlank ·)

def afterWord (line : CStr) : CStr := skip_spaces ((skip_spaces line).dropWhile (!isBlank ·))

theorem match_word_word {s w r : CStr} (hs : 0#8 ∉ s) (hw : 0#8 ∉ w) (hb : ∀ x ∈ w, isBlank x = false) :
    match_word s w = some r ↔ s.takeWhile (!isBlank ·) = w ∧
    r = skip_spaces (s.dropWhile (!isBlank ·)) := by
  rw [match_word_iff hs hw]
  constructor
  · rintro ⟨t, rfl, hend, rfl⟩
    have hpos : ∀ x ∈ w, (!isBlank x) = true := fun x hx => by simp [hb x hx]
    have hstop : t.takeWhile (!isBlank ·) = [] ∧ t.dropWhile (!isBlank ·) = t := by
      rcases t with _ | ⟨c, t⟩
      · exact ⟨rfl, rfl⟩
      · have hc : isBlank c = true := hend.resolve_left (by simp)
        exact ⟨List.takeWhile_cons_of_neg (by simp [hc]), List.dropWhile_cons_of_neg (by simp [hc])⟩
    rw [List.takeWhile_append_of_pos hpos, List.dropWhile_append_of_pos hpos, hstop.1, hstop.2,
      List.append_nil]
    exact ⟨rfl, rfl⟩
  · rintro ⟨rfl, rfl⟩
    refine ⟨s.dropWhile (!isBlank ·), List.takeWhile_append_dropWhile.symm, ?_, rfl⟩
    rcases hd : s.dropWhile (!isBlank ·) with _ | ⟨c, t⟩
    · exact Or.inl rfl
    · have hnot := List.head?_dropWhile_not (!isBlank ·) s
      rw [hd] at hnot
      exact Or.inr (by simpa using hnot)

theorem match_word_eq {s w : CStr} (hs : 0#8 ∉ s) (hw : 0#8 ∉ w) (hb : ∀ x ∈ w, isBlank x = false) :
    match_word s w =
    if s.takeWhile (!isBlank ·) = w then some (skip_spaces (s.dropWhile (!isBlank ·))) else none := by
  split
  · rename_i h
    exact (match_word_word hs hw hb).mpr ⟨h, rfl⟩
  · rename_i h
    rw [Option.eq_none_iff_forall_ne_some]
    exact fun r hr => h ((match_word_word hs hw hb).mp hr).1

def recognise (w rest : CStr) : Ptr.Call :=
  if w = [] then .nothing
  else
    match Command.all.find? (fun c => w = c.text) with
    | some c => .run c (rest ++ [0#8])
    | none => .unknown

theorem find_text {w : CStr} {c : Command} : Command.all.find? (fun c => w = c.text) = some c ↔
    w = c.text := by
  constructor
  · intro h
    simpa using List.find?_some h
  · rintro rfl
    obtain ⟨d, hd⟩ := Option.isSome_iff_exists.mp
      (List.find?_isSome.mpr ⟨c, c.mem_all, by simp⟩ :
        (Command.all.find? fun d => c.text = d.text).isSome)
    have htext : c.text = d.text := by simpa using List.find?_some hd
    rw [hd, Command.text_injective htext]

theorem recognise_nothing (w rest : CStr) : recognise w rest = .nothing ↔ w = [] := by
  unfold recognise
  split_ifs with h
  · simp [h]
  · split <;> simp [h]

theorem recognise_run (w rest r : CStr) (c : Command) :
    recognise w rest = .run c r ↔ w = c.text ∧ r = rest ++ [0#8] := by
  have hne : c.text ≠ [] := by cases c <;> decide
  unfold recognise
  split_ifs with h
  · simp [h, hne.symm]
  · split
    · rename_i d hd
      have htext := find_text.mp hd
      rw [htext]
      constructor
      · intro heq
        cases heq
        exact ⟨rfl, rfl⟩
      · rintro ⟨ht, rfl⟩
        rw [Command.text_injective ht]
    · rename_i hnone
      have hnot : w ≠ c.text := fun ht => by rw [find_text.mpr ht] at hnone; cases hnone
      simp [hnot]

theorem recognise_unknown (w rest : CStr) :
    recognise w rest = .unknown ↔ w ≠ [] ∧ ∀ c : Command, w ≠ c.text := by
  constructor
  · intro h
    constructor
    · intro hnil
      rw [(recognise_nothing w rest).mpr hnil] at h
      cases h
    · intro c hc
      rw [(recognise_run w rest _ c).mpr ⟨hc, rfl⟩] at h
      cases h
  · rintro ⟨hne, hnot⟩
    unfold recognise
    rw [if_neg hne]
    split
    · rename_i d hd
      exact absurd (find_text.mp hd) (hnot d)
    · rfl

/-- A command of the grammar does something. -/
theorem exec_ne_done (c : Command) (rest : CStr) : c.exec rest ≠ .done := by
  cases c with
  | help | ps | echo | clear | crash => exact fun h => nomatch h
  | kill =>
    show cmd_kill rest ≠ .done
    unfold cmd_kill
    split <;> exact fun h => nomatch h

section

variable {line : CStr} (hl : 0#8 ∉ line)

include hl

theorem match_command (c : Command) :
    match_word (skip_spaces line) c.text = if word line = c.text then some (afterWord line) else none :=
  match_word_eq (nul_skip hl) c.text_plain.1 c.text_plain.2

theorem word_eq_nil : word line = [] ↔ CStr.char (skip_spaces line) = 0#8 := by
  rw [char_eq_zero (nul_skip hl), word]
  constructor
  · intro h
    rcases hs : skip_spaces line with _ | ⟨c, s⟩
    · rfl
    · have hnot := List.head?_dropWhile_not isBlank line
      rw [show line.dropWhile isBlank = c :: s from hs] at hnot
      rw [hs, List.takeWhile_cons_of_pos (by simpa using hnot)] at h
      cases h
  · intro h
    rw [h]
    rfl

theorem tryAll_eq (cs : List Command) : Ptr.tryAll (skip_spaces line ++ [0#8]) cs =
    match cs.find? (fun c => word line = c.text) with
    | some c => some (.run c (afterWord line ++ [0#8]))
    | none => some .unknown := by
  induction cs with
  | nil => rfl
  | cons c cs ih =>
    rw [Ptr.tryAll, ptr_match_word (nul_skip hl) c.text_plain.1, match_command hl, List.find?_cons]
    by_cases hw : word line = c.text
    · simp [hw]
    · simp [hw, ih]

theorem ptr_dispatch : Ptr.dispatch (line ++ [0#8]) = some (recognise (word line) (afterWord line)) := by
  have hhead : (skip_spaces line ++ [0#8]).head? = some (CStr.char (skip_spaces line)) := by
    cases skip_spaces line <;> rfl
  unfold Ptr.dispatch recognise
  simp only [ptr_skip_spaces, hhead, Option.bind_eq_bind, Option.bind_some, ← word_eq_nil hl,
    tryAll_eq hl]
  split_ifs
  · rfl
  · split <;> rfl

theorem string_afterWord : Ptr.string (afterWord line ++ [0#8]) = afterWord line :=
  string_append (nul_skip fun h => nul_skip hl ((List.dropWhile_sublist _).subset h))

theorem dispatch_eq_exec : dispatch line = (recognise (word line) (afterWord line)).exec := by
  have hrun : ∀ c : Command, word line = c.text →
      (recognise (word line) (afterWord line)).exec = c.exec (afterWord line) := fun c hc => by
    rw [(recognise_run _ _ _ c).mpr ⟨hc, rfl⟩, Ptr.Call.exec, string_afterWord hl]
  have hmatch : ∀ w, (∃ c : Command, w = c.text) →
      match_word (skip_spaces line) w = if word line = w then some (afterWord line) else none := by
    rintro _ ⟨c, rfl⟩
    exact match_command hl c
  unfold dispatch
  simp only [← word_eq_nil hl, hmatch (ascii "help") ⟨.help, rfl⟩, hmatch (ascii "ps") ⟨.ps, rfl⟩,
    hmatch (ascii "kill") ⟨.kill, rfl⟩, hmatch (ascii "echo") ⟨.echo, rfl⟩,
    hmatch (ascii "clear") ⟨.clear, rfl⟩, hmatch (ascii "crash") ⟨.crash, rfl⟩]
  by_cases h0 : word line = []
  · rw [if_pos h0, (recognise_nothing _ _).mpr h0]
    rfl
  rw [if_neg h0]
  by_cases h1 : word line = ascii "help"
  · simp only [if_pos h1, Option.isSome_some, if_true]
    exact (hrun .help h1).symm
  simp only [if_neg h1, Option.isSome_none, Bool.false_eq_true, if_false]
  by_cases h2 : word line = ascii "ps"
  · simp only [if_pos h2, Option.isSome_some, if_true]
    exact (hrun .ps h2).symm
  simp only [if_neg h2, Option.isSome_none, Bool.false_eq_true, if_false]
  by_cases h3 : word line = ascii "kill"
  · rw [if_pos h3]
    exact (hrun .kill h3).symm
  rw [if_neg h3]
  dsimp only
  by_cases h4 : word line = ascii "echo"
  · rw [if_pos h4]
    exact (hrun .echo h4).symm
  rw [if_neg h4]
  dsimp only
  by_cases h5 : word line = ascii "clear"
  · simp only [if_pos h5, Option.isSome_some, if_true]
    exact (hrun .clear h5).symm
  simp only [if_neg h5, Option.isSome_none, Bool.false_eq_true, if_false]
  by_cases h6 : word line = ascii "crash"
  · simp only [if_pos h6, Option.isSome_some, if_true]
    exact (hrun .crash h6).symm
  simp only [if_neg h6, Option.isSome_none, Bool.false_eq_true, if_false]
  have hnot : ∀ c : Command, word line ≠ c.text
    | .help => h1
    | .ps => h2
    | .kill => h3
    | .echo => h4
    | .clear => h5
    | .crash => h6
  rw [(recognise_unknown _ _).mpr ⟨h0, hnot⟩]
  rfl

/-- What `dispatch` does with the line, by its first word. -/
theorem dispatch_does :
    (dispatch line = .done ↔ word line = []) ∧
    (∀ c : Command, word line = c.text → dispatch line = c.exec (afterWord line)) ∧
    (word line ≠ [] → (∀ c : Command, word line ≠ c.text) →
      dispatch line = .write (utf8 "unknown command — try 'help'\n") .done) := by
  have hnone : word line = [] → dispatch line = .done := fun h => by
    rw [dispatch_eq_exec hl, (recognise_nothing _ _).mpr h]
    rfl
  have hrun :
      ∀ c : Command, word line = c.text → dispatch line = c.exec (afterWord line) := fun c hc => by
    rw [dispatch_eq_exec hl, (recognise_run _ _ _ c).mpr ⟨hc, rfl⟩, Ptr.Call.exec, string_afterWord hl]
  have hunknown : word line ≠ [] → (∀ c : Command, word line ≠ c.text) →
      dispatch line = .write (utf8 "unknown command — try 'help'\n") .done := fun hne hnot => by
    rw [dispatch_eq_exec hl, (recognise_unknown _ _).mpr ⟨hne, hnot⟩]
    rfl
  refine ⟨⟨fun hdone => ?_, hnone⟩, hrun, hunknown⟩
  by_contra hne
  by_cases hc : ∃ c : Command, word line = c.text
  · obtain ⟨c, hc⟩ := hc
    exact exec_ne_done c (afterWord line) ((hrun c hc).symm.trans hdone)
  · have hwrite := hunknown hne fun c h => hc ⟨c, h⟩
    rw [hdone] at hwrite
    cases hwrite

/-- For every line up to its terminator: its first word decides, kill and echo get what follows it,
an unknown word gets the message, and nothing past the terminator is read. -/
theorem dispatch_grammar :
    (dispatch line = .done ↔ word line = []) ∧
    (∀ c : Command, word line = c.text → dispatch line = c.exec (afterWord line)) ∧
    (word line ≠ [] → (∀ c : Command, word line ≠ c.text) →
      dispatch line = .write (utf8 "unknown command — try 'help'\n") .done) ∧
    ∃ call, Ptr.dispatch (line ++ [0#8]) = some call ∧ dispatch line = call.exec ∧
      (call = .nothing ↔ word line = []) ∧
      (∀ c r, call = .run c r ↔ word line = c.text ∧ r = afterWord line ++ [0#8]) ∧
      (call = .unknown ↔ word line ≠ [] ∧ ∀ c : Command, word line ≠ c.text) :=
  ⟨(dispatch_does hl).1, (dispatch_does hl).2.1, (dispatch_does hl).2.2, _, ptr_dispatch hl,
    dispatch_eq_exec hl,
    recognise_nothing _ _, fun c r => recognise_run _ _ r c, recognise_unknown _ _⟩

end

theorem dispatch_grammar_kill :
    dispatch (ascii "\t kill  2 x") = cmd_kill (ascii "2 x") ∧
    ∃ call, Ptr.dispatch (ascii "\t kill  2 x" ++ [0#8]) = some call ∧
      call = .run .kill (ascii "2 x" ++ [0#8]) := by
  obtain ⟨-, hdoes, -, call, hcall, -, -, hrun, -⟩ :=
    @dispatch_grammar (ascii "\t kill  2 x") (by decide)
  exact ⟨hdoes .kill (by decide), call, hcall, (hrun .kill _).mpr (by decide)⟩

end CortexAOS
