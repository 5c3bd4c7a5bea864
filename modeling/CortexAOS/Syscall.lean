import CortexAOS.Uart
import CortexAOS.Sched

/-!
# syscall.c

A handler returns the new variables, what it is seen to do, and whether it came back or sleeps in
`scheduler_block_on_input`. `umem` is user memory as the caller's address space shows it.
-/

namespace CortexAOS

open task_state_t

variable {cfg : Config}

/-- For the numbers of `r0..r12`. -/
instance registers_neZero : NeZero 13 := ⟨by decide⟩

structure exception_context_t where
  spsr : Word
  r : Fin 13 → Word
  lr : Word

def SYS_WRITE : Word := 0#32
def SYS_GETPID : Word := 1#32
def SYS_YIELD : Word := 2#32
def SYS_EXIT : Word := 3#32
def SYS_READ : Word := 4#32
def SYS_PS : Word := 5#32
def SYS_KILL : Word := 6#32
def SYS_TICKS : Word := 7#32
def NR_SYSCALLS : Word := 8#32

def E_BADCALL : Word := -1#32
def E_FAULT : Word := -2#32

inductive Outcome where
  | returns (ret : Word)
  | sleeps (buf len : Word)

abbrev Result (cfg : Config) := Kernel cfg × List (Obs cfg) × Outcome

def valid_user_ptr (addr len : Word) : Bool :=
  let end_ := addr + len
  if end_ < addr then false
  else if addr < USER_VIRT_BASE then false
  else if USER_VIRT_BASE + USER_REGION_SIZE < end_ then false
  else true

def sys_write (k : Kernel cfg) (umem : Word → Byte) (buf_addr len : Word) : Result cfg :=
  if !valid_user_ptr buf_addr len then (k, [], .returns E_FAULT)
  else
    (k, (List.range len.toNat).flatMap (fun i =>
      let va := buf_addr + BitVec.ofNat 32 i
      .load va :: uart_putc (umem va)), .returns len)

def sys_getpid (k : Kernel cfg) : Result cfg :=
  (k, [], .returns (BitVec.ofNat 32 (k.processes (k.threads k.current).proc).pid))

def sys_yield (k : Kernel cfg) : Result cfg := (scheduler_request_resched k, [], .returns 0)

def Kernel.nameOf (k : Kernel cfg) (t : Tid cfg) : Option CStr := (k.processes (k.threads t).proc).name

def Kernel.indexArg (k : Kernel cfg) (t : Tid cfg) : PrintArg :=
  .u32 (BitVec.ofNat 32 (k.threads t).index)

def sys_exit (k : Kernel cfg) : Result cfg :=
  (scheduler_request_resched (k.setState k.current TASK_DEAD),
    [.printf "[EXIT] %s t%u\n" [.str (k.nameOf k.current), k.indexArg k.current]], .returns 0)

/-! ## sys_read -/

/-- The copy loop, for at most `n` more bytes. -/
def read_copy : Nat → Kernel cfg → List Byte × Kernel cfg
  | 0, k => ([], k)
  | n + 1, k =>
    match uart_rx_pop k with
    | (none, k') => ([], k')
    | (some c, k') => (c :: (read_copy n k').1, (read_copy n k').2)

/-- `buf[0] = bs[0]; buf[1] = bs[1]; ...` -/
def stores (buf : Word) (bs : List Byte) : List (Obs cfg) :=
  bs.zipIdx.map fun p => .store (buf + BitVec.ofNat 32 p.2) p.1

/-- The `while` of `sys_read` from `n == 0` on, which is also where a sleeper takes it up again. -/
def sys_read_loop (k : Kernel cfg) (buf_addr len : Word) : Result cfg :=
  match read_copy len.toNat k with
  | ([], k') => ((scheduler_block_on_input k').1, (scheduler_block_on_input k').2, .sleeps buf_addr len)
  | (c :: cs, k') =>
    (k', stores buf_addr (c :: cs) ++ [.readDone k.current len (c :: cs)],
      .returns (BitVec.ofNat 32 (c :: cs).length))

def sys_read (k : Kernel cfg) (buf_addr len : Word) : Result cfg :=
  if len = 0 then (k, [], .returns 0)
  else if !valid_user_ptr buf_addr len then (k, [], .returns E_FAULT)
  else sys_read_loop k buf_addr len

/-! ## sys_ps -/

def PS_NAME_W : Nat := 7

def state_name : task_state_t → CStr
  | TASK_READY => ascii "READY  "
  | TASK_RUNNING => ascii "RUNNING"
  | TASK_BLOCKED => ascii "BLOCKED"
  | TASK_DEAD => ascii "DEAD   "

/-- `for (...; *c && n + 1 < size; c++) out[n++] = *c`, where `out` holds `n` bytes. -/
def ps_copy (size : Nat) : CStr → List Byte → List Byte
  | [], out => out
  | c :: cs, out => if out.length + 1 < size then ps_copy size cs (out ++ [c]) else out

/-- `while (namelen < PS_NAME_W && n + 1 < size)`, for the columns that are left. -/
def ps_pad (size : Nat) : Nat → List Byte → List Byte
  | 0, out => out
  | m + 1, out => if out.length + 1 < size then ps_pad size m (out ++ [0x20#8]) else out

/-- `if (n + 1 >= size) break; out[n++] = c`, for one byte after the other. `false` is the `break`. -/
def ps_put (size : Nat) : CStr → List Byte → List Byte × Bool
  | [], out => (out, true)
  | c :: cs, out => if out.length + 1 ≥ size then (out, false) else ps_put size cs (out ++ [c])

def ps_line (k : Kernel cfg) (size : Nat) (t : Tid cfg) (out : List Byte) : List Byte × Bool :=
  let nm := (k.nameOf t).getD (ascii "?")
  let named := ps_copy size nm out
  let padded := ps_pad size (PS_NAME_W - (named.length - out.length)) named
  let idx : Byte := 0x30#8 + BitVec.ofNat 8 (k.threads t).index
  match ps_put size (ascii " t" ++ [idx] ++ ascii "  ") padded with
  | (out, false) => (out, false)
  | (out, true) => ps_put size (ascii "\n") (ps_copy size (state_name (k.state t)) out)

def ps_lines (k : Kernel cfg) (size : Nat) : List (Tid cfg) → List Byte → List Byte
  | [], out => out
  | t :: ts, out =>
    match ps_line k size t out with
    | (out, true) => ps_lines k size ts out
    | (out, false) => out

def sys_ps (k : Kernel cfg) (buf_addr size : Word) : Result cfg :=
  if !valid_user_ptr buf_addr size then (k, [], .returns E_FAULT)
  else
    let out := ps_lines k size.toNat (List.finRange cfg.NUM_THREADS) []
    (k, stores buf_addr out, .returns (BitVec.ofNat 32 out.length))

/-! ## sys_kill -/

/-- The threads of `p->threads[]` that are not null. -/
def Kernel.threadsOf (k : Kernel cfg) (p : Pid cfg) : List (Tid cfg) :=
  (List.finRange cfg.THREADS_PER_PROC).filterMap (k.processes p).threads

/-- `p->threads[i]->state = TASK_DEAD`, for every thread of `p`. -/
def Kernel.retire (k : Kernel cfg) (p : Pid cfg) : Kernel cfg :=
  (k.threadsOf p).foldl (fun k t => k.setState t TASK_DEAD) k

def sys_kill (k : Kernel cfg) (pid : Word) : Result cfg :=
  if h : pid.toNat < cfg.NUM_PROCESSES then
    let p : Pid cfg := ⟨pid.toNat, h⟩
    let alive := (k.threadsOf p).countP fun t => k.state t ≠ TASK_DEAD
    if alive = 0 then (k, [], .returns 0)
    else
      (scheduler_request_resched (k.retire p),
        [.printf "[KILL] %s (%u threads) killed by %s t%u via sys_kill\n"
          [.str (k.processes p).name, .u32 (BitVec.ofNat 32 alive), .str (k.nameOf k.current),
            k.indexArg k.current]], .returns 0)
  else (k, [], .returns E_BADCALL)

def sys_ticks (k : Kernel cfg) : Result cfg := (k, [], .returns k.tick_count)

/-! ## syscall_dispatch -/

/-- `syscall_table[num](r0, r1, r2, r3)`. -/
def syscall_table (k : Kernel cfg) (umem : Word → Byte) (num r0 r1 r2 : Word) : Result cfg :=
  if num = SYS_WRITE then sys_write k umem r1 r2
  else if num = SYS_GETPID then sys_getpid k
  else if num = SYS_YIELD then sys_yield k
  else if num = SYS_EXIT then sys_exit k
  else if num = SYS_READ then sys_read k r1 r2
  else if num = SYS_PS then sys_ps k r0 r1
  else if num = SYS_KILL then sys_kill k r0
  else sys_ticks k

/-- `ctx->r[0] = (uint32_t)ret`, once the handler has come back. -/
def finish (t : Tid cfg) : Result cfg → Result cfg
  | (k, o, .returns ret) => (k, o ++ [.sysret t ret], .returns ret)
  | (k, o, .sleeps buf len) => (k, o, .sleeps buf len)

def syscall_dispatch (k : Kernel cfg) (umem : Word → Byte) (ctx : exception_context_t) : Result cfg :=
  let num := ctx.r 7
  if NR_SYSCALLS ≤ num then finish k.current (k, [], .returns E_BADCALL)
  else finish k.current (syscall_table k umem num (ctx.r 0) (ctx.r 1) (ctx.r 2))

/-! ## What a call can do -/

open Kernel

def Obs.plain : Obs cfg → Bool
  | .printf .. | .putc .. | .load .. | .store .. => true
  | _ => false

theorem uart_putc_plain (c : Byte) : ∀ o ∈ (uart_putc c : List (Obs cfg)), o.plain := by
  unfold uart_putc
  split <;> simp [Obs.plain]

theorem stores_plain (buf : Word) (bs : List Byte) :
    ∀ o ∈ (stores buf bs : List (Obs cfg)), o.plain := by
  intro o ho
  obtain ⟨p, -, rfl⟩ := List.mem_map.mp ho
  rfl

theorem read_copy_spec (n : Nat) (k : Kernel cfg) (h : k.RxOk) :
    (read_copy n k).1 = k.ring.take n ∧ SameButRx k (read_copy n k).2 ∧ (read_copy n k).2.RxOk ∧
      (read_copy n k).2.ring = k.ring.drop n := by
  induction n generalizing k with
  | zero => exact ⟨by simp [read_copy], .refl k, h, by simp [read_copy]⟩
  | succ n ih =>
    unfold read_copy
    cases hr : k.ring with
    | nil =>
      rw [uart_rx_pop_nil k hr]
      exact ⟨by simp, .refl k, h, by simpa using hr⟩
    | cons c cs =>
      obtain ⟨k', hpop, hsame, hok, hring⟩ := uart_rx_pop_cons k h c cs hr
      obtain ⟨h1, h2, h3, h4⟩ := ih k' hok
      simp only [hpop, h1, hring, List.take_succ_cons, List.drop_succ_cons]
      exact ⟨trivial, hsame.trans h2, h3, by rw [h4, hring]⟩

def ReadOk (buf len : Word) : Prop := len ≠ 0 ∧ valid_user_ptr buf len = true

inductive ReadEffect (k : Kernel cfg) (buf len : Word) : Result cfg → Prop
  | got {k' : Kernel cfg} (hne : k.ring ≠ []) (same : SameButRx k k') (ok : k'.RxOk)
      (ring : k'.ring = k.ring.drop len.toNat) :
      ReadEffect k buf len
        (k', stores buf (k.ring.take len.toNat) ++ [.readDone k.current len (k.ring.take len.toNat)],
          .returns (BitVec.ofNat 32 (k.ring.take len.toNat).length))
  | slept {k' : Kernel cfg} {o : List (Obs cfg)} (hnil : k.ring = []) (hs : Slept k k' o) :
      ReadEffect k buf len (k', o, .sleeps buf len)

theorem sys_read_loop_effect (k : Kernel cfg) (hrx : k.RxOk) (hq : k.QueueOk) (buf len : Word)
    (hlen : len ≠ 0) : ReadEffect k buf len (sys_read_loop k buf len) := by
  obtain ⟨n, hn⟩ : ∃ n, len.toNat = n + 1 :=
    Nat.exists_eq_succ_of_ne_zero fun h => hlen (BitVec.eq_of_toNat_eq (by simpa using h))
  obtain ⟨h1, h2, h3, h4⟩ := read_copy_spec len.toNat k hrx
  unfold sys_read_loop
  cases hr : k.ring with
  | nil =>
    have hpop : read_copy len.toNat k = ([], k) := by
      rw [hn, read_copy, uart_rx_pop_nil k hr]
    rw [hpop]
    exact .slept hr (scheduler_block_on_input_spec k hq)
  | cons c cs =>
    have hbs : k.ring.take len.toNat = c :: cs.take n := by rw [hr, hn, List.take_succ_cons]
    generalize hres : read_copy len.toNat k = res at h1 h2 h3 h4
    obtain ⟨bs, k'⟩ := res
    simp only at h1 h2 h3 h4
    rw [h1, hbs]
    simp only
    rw [← hbs]
    exact .got (by simp [hr]) h2 h3 h4

inductive SysEffect (k : Kernel cfg) (ctx : exception_context_t) : Result cfg → Prop
  | quiet {o : List (Obs cfg)} {ret : Word} (ho : ∀ x ∈ o, x.plain)
      (hread : ctx.r 7 = SYS_READ → ¬ ReadOk (ctx.r 1) (ctx.r 2)) : SysEffect k ctx (k, o, .returns ret)
  | yield (hnum : ctx.r 7 = SYS_YIELD) : SysEffect k ctx (scheduler_request_resched k, [], .returns 0)
  | exit {o : List (Obs cfg)} (hnum : ctx.r 7 = SYS_EXIT) (ho : ∀ x ∈ o, x.plain) :
      SysEffect k ctx (scheduler_request_resched (k.setState k.current TASK_DEAD), o, .returns 0)
  | kill {o : List (Obs cfg)} (p : Pid cfg) (hnum : ctx.r 7 = SYS_KILL) (hp : (ctx.r 0).toNat = p.val)
      (halive : ∃ t ∈ k.threadsOf p, k.state t ≠ TASK_DEAD) (ho : ∀ x ∈ o, x.plain) :
      SysEffect k ctx (scheduler_request_resched (k.retire p), o, .returns 0)
  | read {r : Result cfg} (hnum : ctx.r 7 = SYS_READ) (hok : ReadOk (ctx.r 1) (ctx.r 2))
      (hr : ReadEffect k (ctx.r 1) (ctx.r 2) r) : SysEffect k ctx r

theorem sys_kill_effect (k : Kernel cfg) (ctx : exception_context_t) (hnum : ctx.r 7 = SYS_KILL) :
    SysEffect k ctx (sys_kill k (ctx.r 0)) := by
  have hread : ctx.r 7 = SYS_READ → ¬ ReadOk (ctx.r 1) (ctx.r 2) := fun h => by rw [hnum] at h; cases h
  unfold sys_kill
  split
  · rename_i h
    simp only
    split
    · exact .quiet (by simp) hread
    · rename_i halive
      refine .kill ⟨(ctx.r 0).toNat, h⟩ hnum rfl ?_ (by simp [Obs.plain])
      obtain ⟨t, ht, hs⟩ := List.countP_pos_iff.mp (Nat.pos_of_ne_zero halive)
      exact ⟨t, ht, by simpa using hs⟩
  · exact .quiet (by simp) hread

theorem syscall_table_effect (k : Kernel cfg) (hrx : k.RxOk) (hq : k.QueueOk) (umem : Word → Byte)
    (ctx : exception_context_t) :
    SysEffect k ctx (syscall_table k umem (ctx.r 7) (ctx.r 0) (ctx.r 1) (ctx.r 2)) := by
  unfold syscall_table
  split_ifs with h0 h1 h2 h3 h4 h5 h6
  · have hread : ctx.r 7 = SYS_READ → ¬ ReadOk (ctx.r 1) (ctx.r 2) := fun h => by rw [h0] at h; cases h
    unfold sys_write
    split
    · exact .quiet (by simp) hread
    · refine .quiet ?_ hread
      intro x hx
      obtain ⟨i, -, hi⟩ := List.mem_flatMap.mp hx
      rcases List.mem_cons.mp hi with rfl | hi
      · rfl
      · exact uart_putc_plain _ x hi
  · exact .quiet (by simp) fun h => by rw [h1] at h; cases h
  · exact .yield h2
  · exact .exit h3 (by simp [Obs.plain])
  · unfold sys_read
    split_ifs with hlen hvalid
    · exact .quiet (by simp) fun _ hok => hok.1 hlen
    · exact .quiet (by simp) fun _ hok => by simp [hok.2] at hvalid
    · exact .read h4 ⟨hlen, by simpa using hvalid⟩ (sys_read_loop_effect k hrx hq _ _ hlen)
  · have hread : ctx.r 7 = SYS_READ → ¬ ReadOk (ctx.r 1) (ctx.r 2) := fun h => absurd h h4
    unfold sys_ps
    split
    · exact .quiet (by simp) hread
    · exact .quiet (stores_plain _ _) hread
  · exact sys_kill_effect k ctx h6
  · exact .quiet (by simp) fun h => absurd h h4

theorem syscall_dispatch_effect (k : Kernel cfg) (hrx : k.RxOk) (hq : k.QueueOk) (umem : Word → Byte)
    (ctx : exception_context_t) :
    ∃ r, SysEffect k ctx r ∧ syscall_dispatch k umem ctx = finish k.current r := by
  unfold syscall_dispatch
  simp only
  split
  · rename_i hnr
    refine ⟨_, .quiet (by simp) fun h => ?_, rfl⟩
    rw [h] at hnr
    exact absurd hnr (by decide)
  · exact ⟨_, syscall_table_effect k hrx hq umem ctx, rfl⟩

/-! ## Retiring a process -/

theorem kill_loop (l : List (Tid cfg)) (k : Kernel cfg) :
    l.foldl (fun k t => k.setState t TASK_DEAD) k =
      k.withStates fun u => if u ∈ l then TASK_DEAD else k.state u := by
  induction l generalizing k with
  | nil => simp [withStates, state]
  | cons t l ih =>
    rw [List.foldl_cons, ih, setState_eq, withStates_withStates]
    congr 1
    funext u
    by_cases hl : u ∈ l
    · simp [hl]
    · by_cases ht : u = t
      · simp [ht]
      · simp [hl, ht]

theorem mem_threadsOf {k : Kernel cfg} (h : k.TablesOk) (p : Pid cfg) (t : Tid cfg) :
    t ∈ k.threadsOf p ↔ pidOf t = p := by
  simp only [threadsOf, List.mem_filterMap, List.mem_finRange, true_and, h.slots, Option.some.injEq,
    tidOf_eq_iff]
  constructor
  · rintro ⟨i, hp, -⟩; exact hp.symm
  · rintro rfl; exact ⟨_, rfl, rfl⟩

theorem retire_eq {k : Kernel cfg} (h : k.TablesOk) (p : Pid cfg) :
    k.retire p = k.withStates fun u => if pidOf u = p then TASK_DEAD else k.state u := by
  unfold retire
  rw [kill_loop]
  simp only [mem_threadsOf h]

end CortexAOS
