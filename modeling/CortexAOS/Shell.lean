import CortexAOS.Syscall
import CortexAOS.Ulib
import Mathlib.Data.List.TakeWhile

/-!
# shell.c: what a command line kills

`ulib_atoi` has no failure value: it stops at the first character that is no digit, and it wraps.
-/

namespace CortexAOS

variable {cfg : Config}

/-! ## shell.c -/

def isBlank (c : Byte) : Bool := c = 0x20#8 || c = 0x09#8

def skip_spaces (s : CStr) : CStr := s.dropWhile isBlank

/-- None is the null pointer. -/
def match_word (s word : CStr) : Option CStr :=
  let n := ulib_strlen word
  if ulib_strncmp s word n ≠ 0 then none
  else if CStr.char (s.drop n) ≠ 0#8 ∧ ¬ isBlank (CStr.char (s.drop n)) then none
  else some (skip_spaces (s.drop n))

def cmd_help : UProg :=
  ulib_puts (utf8 ("commands:\n" ++
    "  help         — this list\n" ++
    "  ps           — list processes\n" ++
    "  kill <pid>   — kill a process\n" ++
    "  echo <text>  — print text\n" ++
    "  clear        — clear the screen\n" ++
    "  crash        — dereference NULL (demo)\n")) .done

def cmd_ps : UProg := .ps 256#32 fun out => if out = [] then .done else .write out .done

def cmd_kill (arg : CStr) : UProg :=
  if arg.char = 0#8 then ulib_puts (ascii "usage: kill <pid>\n") .done
  else .kill (ulib_atoi arg) fun rc =>
    if rc ≠ 0#32 then ulib_puts (ascii "kill: bad pid\n") .done else .done

def cmd_echo (arg : CStr) : UProg := ulib_puts arg (ulib_putc 0x0A#8 .done)

def cmd_clear : UProg := ulib_puts (ascii "\x1b[2J\x1b[H") .done

def cmd_crash : UProg :=
  ulib_puts (utf8 "crash: about to NULL-deref — kernel should survive\n")
    (.store 0#32 0xDEADBEEF#32 .done)

def dispatch (line : CStr) : UProg :=
  let p := skip_spaces line
  if p.char = 0#8 then .done
  else if (match_word p (ascii "help")).isSome then cmd_help
  else if (match_word p (ascii "ps")).isSome then cmd_ps
  else match match_word p (ascii "kill") with
    | some rest => cmd_kill rest
    | none =>
      match match_word p (ascii "echo") with
      | some rest => cmd_echo rest
      | none =>
        if (match_word p (ascii "clear")).isSome then cmd_clear
        else if (match_word p (ascii "crash")).isSome then cmd_crash
        else ulib_puts (utf8 "unknown command — try 'help'\n") .done

/-! ## What is killed, and what was told -/

inductive UProg.Kills (pid : Word) : UProg → Prop
  | here {next : Word → UProg} : Kills pid (.kill pid next)
  | kill {pid' rc : Word} {next : Word → UProg} : Kills pid (next rc) → Kills pid (.kill pid' next)
  | write {bytes : List Byte} {next : UProg} : Kills pid next → Kills pid (.write bytes next)
  | ps {size : Word} {out : List Byte} {next : List Byte → UProg} :
      Kills pid (next out) → Kills pid (.ps size next)
  | store {va v : Word} {next : UProg} : Kills pid next → Kills pid (.store va v next)

/-- The line is `kill` and a decimal numeral with value `n`, with blanks around them. -/
def Told (line : CStr) (n : Nat) : Prop :=
  ∃ a b ds c : CStr, line = a ++ ascii "kill" ++ b ++ ds ++ c ∧ (∀ x ∈ a, isBlank x) ∧
    (∀ x ∈ b, isBlank x) ∧ b ≠ [] ∧
    (∀ x ∈ ds, isDigit x) ∧ ds ≠ [] ∧ (∀ x ∈ c, isBlank x) ∧ decimalValue ds = n

/-- Every `sys_kill` is one that the line tells, or the kernel turns it down and does nothing. -/
def KillsAsTold (cfg : Config) (line : CStr) : Prop :=
  ∀ pid, (dispatch line).Kills pid → ∀ k : Kernel cfg,
    (∃ p : Pid cfg, pid.toNat = p.val ∧ Told line p.val) ∨ sys_kill k pid = (k, [], .returns E_BADCALL)

section

variable {pid : Word}

@[simp] theorem kills_done : ¬ UProg.done.Kills pid := by
  intro h
  cases h

@[simp] theorem kills_write {bytes : List Byte} {next : UProg} :
    (UProg.write bytes next).Kills pid ↔ next.Kills pid := by
  constructor
  · intro h
    cases h with
    | write h => exact h
  · exact .write

@[simp] theorem kills_store {va v : Word} {next : UProg} :
    (UProg.store va v next).Kills pid ↔ next.Kills pid := by
  constructor
  · intro h
    cases h with
    | store h => exact h
  · exact .store

@[simp] theorem kills_ps {size : Word} {next : List Byte → UProg} :
    (UProg.ps size next).Kills pid ↔ ∃ out, (next out).Kills pid := by
  constructor
  · intro h
    cases h with
    | ps h => exact ⟨_, h⟩
  · rintro ⟨out, h⟩
    exact .ps h

@[simp] theorem kills_kill {pid' : Word} {next : Word → UProg} :
    (UProg.kill pid' next).Kills pid ↔ pid = pid' ∨ ∃ rc, (next rc).Kills pid := by
  constructor
  · intro h
    cases h with
    | here => exact Or.inl rfl
    | kill h => exact Or.inr ⟨_, h⟩
  · rintro (rfl | ⟨rc, h⟩)
    · exact .here
    · exact .kill h

end

/-! ## match_word -/

section

variable {s w r arg line : CStr} {pid : Word}

theorem char_eq_zero (hs : 0#8 ∉ s) : s.char = 0#8 ↔ s = [] := by
  rcases s with _ | ⟨c, s⟩
  · simp
  · have hc : c ≠ 0#8 := fun h => hs (by simp [h])
    simp [hc]

theorem nul_skip (hs : 0#8 ∉ s) : 0#8 ∉ skip_spaces s :=
  fun h => hs ((List.dropWhile_sublist _).subset h)

theorem match_word_iff (hs : 0#8 ∉ s) (hw : 0#8 ∉ w) : match_word s w = some r ↔
    ∃ t, s = w ++ t ∧ (t = [] ∨ isBlank t.char) ∧ r = skip_spaces t := by
  unfold match_word ulib_strlen
  dsimp only
  by_cases hp : w <+: s
  · rw [if_neg (not_not.mpr ((strncmp_take hs hw).mpr hp))]
    obtain ⟨t, rfl⟩ := hp
    have ht : 0#8 ∉ t := fun h => hs (by simp [h])
    have hchar := char_eq_zero ht
    rw [List.drop_left]
    constructor
    · intro h
      split at h
      · cases h
      · rename_i hend
        refine ⟨t, rfl, ?_, (Option.some.inj h).symm⟩
        tauto
    · rintro ⟨t', heq, hend, rfl⟩
      rw [← List.append_cancel_left heq] at hend ⊢
      exact if_neg (by tauto)
  · rw [if_pos (fun h => hp ((strncmp_take hs hw).mp h))]
    constructor
    · intro h
      cases h
    · rintro ⟨t, rfl, -⟩
      exact absurd (List.prefix_append w t) hp

theorem match_word_other (hs : 0#8 ∉ s) {v : CStr} (hv : 0#8 ∉ v) (hw : 0#8 ∉ w) (hv' : v ≠ [])
    (hw' : w ≠ [])
    (hne : v.head? ≠ w.head?) (h : (match_word s v).isSome) : match_word s w = none := by
  obtain ⟨r, hr⟩ := Option.isSome_iff_exists.mp h
  obtain ⟨t, rfl, -⟩ := (match_word_iff hs hv).mp hr
  rw [Option.eq_none_iff_forall_ne_some]
  intro r' hr'
  obtain ⟨t', heq, -⟩ := (match_word_iff hs hw).mp hr'
  have hhead := congrArg List.head? heq
  rw [List.head?_append_of_ne_nil _ hv', List.head?_append_of_ne_nil _ hw'] at hhead
  exact hne hhead

theorem cmd_kill_kills (ha : 0#8 ∉ arg) : (cmd_kill arg).Kills pid ↔ arg ≠ [] ∧ pid = ulib_atoi arg := by
  unfold cmd_kill ulib_puts
  split
  · rename_i h
    simp [(char_eq_zero ha).mp h]
  · rename_i h
    rw [char_eq_zero ha] at h
    rw [kills_kill]
    constructor
    · rintro (rfl | ⟨rc, hrc⟩)
      · exact ⟨h, rfl⟩
      · split at hrc <;> simp at hrc
    · rintro ⟨-, rfl⟩
      exact Or.inl rfl

theorem dispatch_kills (hl : 0#8 ∉ line) : (dispatch line).Kills pid ↔
    ∃ arg, match_word (skip_spaces line) (ascii "kill") = some arg ∧ arg ≠ [] ∧ pid = ulib_atoi arg := by
  have hp := nul_skip hl
  have hkill : 0#8 ∉ ascii "kill" := by decide
  unfold dispatch
  dsimp only
  split
  · rename_i hnil
    rw [char_eq_zero hp] at hnil
    simp [hnil, match_word, ulib_strncmp, ulib_strlen, ascii]
  split
  · rename_i hhelp
    rw [match_word_other hp (by decide) hkill (by decide) (by decide) (by decide) hhelp]
    simp [cmd_help, ulib_puts]
  split
  · rename_i hps
    rw [match_word_other hp (by decide) hkill (by decide) (by decide) (by decide) hps]
    simp only [cmd_ps, kills_ps, reduceCtorEq, false_and, exists_false, iff_false, not_exists]
    intro out
    split <;> simp
  split
  · rename_i arg hm
    obtain ⟨t, heq, -, rfl⟩ := (match_word_iff hp hkill).mp hm
    have ht : 0#8 ∉ t := fun h => hp (by rw [heq]; simp [h])
    rw [hm, cmd_kill_kills (nul_skip ht)]
    simp
  · rename_i hm
    rw [hm]
    simp only [reduceCtorEq, false_and, exists_false, iff_false]
    split
    · simp [cmd_echo, ulib_puts, ulib_putc]
    · split_ifs <;> simp [cmd_clear, cmd_crash, ulib_puts]

/-! ## Numerals -/

def Numeral (arg : CStr) : Prop := arg.takeWhile isDigit ≠ [] ∧ ∀ x ∈ arg.dropWhile isDigit, isBlank x

theorem digit_not_blank {c : Byte} (h : isDigit c = true) : isBlank c = false := by
  obtain ⟨h1, h2⟩ := isDigit_toNat h
  unfold isBlank
  simp only [Bool.or_eq_false_iff, decide_eq_false_iff_not]
  constructor
  · rintro rfl
    simp at h1
  · rintro rfl
    simp at h1

theorem skip_spaces_append {a : CStr} (ha : ∀ x ∈ a, isBlank x) (s : CStr) :
    skip_spaces (a ++ s) = skip_spaces s :=
  List.dropWhile_append_of_pos ha

theorem skip_spaces_of_not {c : Byte} (hc : isBlank c = false) (s : CStr) :
    skip_spaces (c :: s) = c :: s :=
  List.dropWhile_cons_of_neg (by simp [hc])

theorem skip_spaces_split (s : CStr) : ∃ a : CStr, s = a ++ skip_spaces s ∧ ∀ x ∈ a, isBlank x :=
  ⟨s.takeWhile isBlank, (List.takeWhile_append_dropWhile).symm, fun _ hx => List.mem_takeWhile_imp hx⟩

theorem told_iff (hl : 0#8 ∉ line) (n : Nat) : Told line n ↔ ∃ arg,
    match_word (skip_spaces line) (ascii "kill") = some arg ∧ Numeral arg ∧
    decimalValue (arg.takeWhile isDigit) = n := by
  have hkill : 0#8 ∉ ascii "kill" := by decide
  constructor
  · rintro ⟨a, b, ds, c, rfl, ha, hb, hb', hds, hds', hc, hn⟩
    have hskip : skip_spaces (a ++ ascii "kill" ++ b ++ ds ++ c) = ascii "kill" ++ (b ++ ds ++ c) := by
      simp only [List.append_assoc]
      rw [skip_spaces_append ha]
      exact skip_spaces_of_not rfl _
    have harg : skip_spaces (b ++ ds ++ c) = ds ++ c := by
      rw [List.append_assoc, skip_spaces_append hb]
      obtain ⟨d, ds', rfl⟩ := List.exists_cons_of_ne_nil hds'
      exact skip_spaces_of_not (digit_not_blank (hds d (by simp))) _
    have hcd : ∀ x ∈ c, ¬ isDigit x = true := fun x hx hd => by
      have := digit_not_blank hd
      rw [hc x hx] at this
      cases this
    have hc0 : c.takeWhile isDigit = [] ∧ c.dropWhile isDigit = c := by
      rcases c with _ | ⟨x, c⟩
      · simp
      · exact ⟨List.takeWhile_cons_of_neg (hcd x (by simp)),
          List.dropWhile_cons_of_neg (hcd x (by simp))⟩
    have htake :
      (ds ++ c).takeWhile isDigit = ds := by
        rw [List.takeWhile_append_of_pos hds, hc0.1, List.append_nil]
    have hdrop : (ds ++ c).dropWhile isDigit = c := by rw [List.dropWhile_append_of_pos hds, hc0.2]
    refine ⟨ds ++ c, ?_, ⟨by rwa [htake], by rwa [hdrop]⟩, by rwa [htake]⟩
    rw [match_word_iff (nul_skip hl) hkill]
    refine ⟨b ++ ds ++ c, hskip, Or.inr ?_, harg.symm⟩
    obtain ⟨x, b', rfl⟩ := List.exists_cons_of_ne_nil hb'
    exact hb x (by simp)
  · rintro ⟨arg, hm, ⟨hds, hc⟩, hn⟩
    obtain ⟨t, heq, hend, rfl⟩ := (match_word_iff (nul_skip hl) hkill).mp hm
    obtain ⟨a, hline, ha⟩ := skip_spaces_split line
    obtain ⟨b, ht, hb⟩ := skip_spaces_split t
    refine ⟨a, b, (skip_spaces t).takeWhile isDigit, (skip_spaces t).dropWhile isDigit, ?_, ha, hb, ?_,
      fun x hx => List.mem_takeWhile_imp hx, hds, hc, hn⟩
    · rw [List.append_assoc (a ++ ascii "kill" ++ b), List.takeWhile_append_dropWhile,
        List.append_assoc (a ++ ascii "kill"), ← ht, List.append_assoc, ← heq, ← hline]
    · rintro rfl
      rw [List.nil_append] at ht
      rcases hend with rfl | hblank
      · exact hds rfl
      · rcases t with _ | ⟨x, t⟩
        · exact hds rfl
        · have hx : isBlank x = true := hblank
          rw [skip_spaces, List.dropWhile_cons_of_pos hx] at ht
          have hlen := congrArg List.length ht
          have hle := (List.dropWhile_sublist (l := t) isBlank).length_le
          rw [List.length_cons] at hlen
          omega

end

theorem sys_kill_refused (k : Kernel cfg) (pid : Word) :
    sys_kill k pid = (k, [], .returns E_BADCALL) ↔ cfg.NUM_PROCESSES ≤ pid.toNat := by
  unfold sys_kill
  dsimp only
  split
  · rename_i h
    have hne : ¬ 0#32 = E_BADCALL := by decide
    split
    · simp [hne, Nat.not_le.mpr h]
    · simp [Nat.not_le.mpr h]
  · rename_i h
    simp [Nat.not_lt.mp h]

/-- The argument of `kill` is a numeral that fits in 32 bits, or the number that `ulib_atoi` makes
of it is no pid. -/
def SafeToAtoi (cfg : Config) (arg : CStr) : Prop :=
  (Numeral arg ∧ decimalValue (arg.takeWhile isDigit) < 2 ^ 32) ∨
    cfg.NUM_PROCESSES ≤ decimalValue (arg.takeWhile isDigit) % 2 ^ 32

theorem shell_kills_as_told_iff {line : CStr} (hl : 0#8 ∉ line) : KillsAsTold cfg line ↔
    ∀ arg, match_word (skip_spaces line) (ascii "kill") = some arg → arg ≠ [] → SafeToAtoi cfg arg := by
  unfold KillsAsTold SafeToAtoi
  simp only [dispatch_kills hl, told_iff hl, sys_kill_refused]
  constructor
  · intro h arg hm hne
    rcases h (ulib_atoi arg) ⟨arg, hm, hne, rfl⟩ (boot cfg) with ⟨p, hp, arg', hm', hnum, hval⟩ | hlarge
    · obtain rfl : arg = arg' := Option.some.inj (hm.symm.trans hm')
      exact Or.inl ⟨hnum, by rw [hval, ← hp]; exact (ulib_atoi arg).isLt⟩
    · exact Or.inr (by rwa [ulib_atoi_toNat] at hlarge)
  · rintro h pid ⟨arg, hm, hne, rfl⟩ k
    rw [ulib_atoi_toNat]
    rcases h arg hm hne with ⟨hnum, hfits⟩ | hlarge
    · rw [Nat.mod_eq_of_lt hfits]
      rcases Nat.lt_or_ge (decimalValue (arg.takeWhile isDigit)) cfg.NUM_PROCESSES with hlt | hge
      · exact Or.inl ⟨⟨_, hlt⟩, rfl, arg, hm, hnum, rfl⟩
      · exact Or.inr hge
    · exact Or.inr hlarge

theorem shell_kills_as_told_iff_blanks : KillsAsTold demo (ascii "  kill \t 2 ") := by
  rw [shell_kills_as_told_iff (by decide)]
  rintro arg hm -
  have harg :
    match_word (skip_spaces (ascii "  kill \t 2 ")) (ascii "kill") = some (ascii "2 ") := by decide
  rw [harg] at hm
  obtain rfl := Option.some.inj hm
  refine Or.inl ⟨⟨by decide, ?_⟩, by decide⟩
  decide

theorem not_kills_as_told {line arg : CStr} (hl : 0#8 ∉ line)
    (hm : match_word (skip_spaces line) (ascii "kill") = some arg) (hne : arg ≠ []) {p : Pid cfg}
    (hp : (ulib_atoi arg).toNat = p.val) (hnot : ¬ Told line p.val) : ¬ KillsAsTold cfg line := by
  intro h
  rcases h _ ((dispatch_kills hl).mpr ⟨arg, hm, hne, rfl⟩) (boot cfg) with ⟨q, hq, htold⟩ | hrefused
  · rw [hp] at hq
    exact hnot (hq ▸ htold)
  · have hle := (sys_kill_refused _ _).mp hrefused
    have hlt := p.isLt
    omega

/-- Letters kill process 0, and so does 2^32. -/
theorem letters_kill_process_zero :
    ¬ KillsAsTold demo (ascii "kill abc") ∧ ¬ KillsAsTold demo (ascii "kill 4294967296") := by
  have hone : ∀ line arg : CStr, 0#8 ∉ line → match_word (skip_spaces line) (ascii "kill") = some arg →
      arg ≠ [] → (ulib_atoi arg).toNat = 0 → (Numeral arg → decimalValue (arg.takeWhile isDigit) ≠ 0) →
      ¬ KillsAsTold demo line := by
    intro line arg hl hm hne hval hnum
    refine not_kills_as_told (p := ⟨0, by decide⟩) hl hm hne hval fun htold => ?_
    obtain ⟨arg', hm', hnum', hval'⟩ := (told_iff hl _).mp htold
    obtain rfl : arg = arg' := Option.some.inj (hm.symm.trans hm')
    exact hnum hnum' hval'
  constructor
  · apply hone _ (ascii "abc") (by decide) (by decide) (by decide) (by decide)
    exact fun hnum => absurd rfl hnum.1
  · apply hone _ (ascii "4294967296") (by decide) (by decide) (by decide) (by decide)
    exact fun _ => by decide

end CortexAOS
