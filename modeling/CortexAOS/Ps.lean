import CortexAOS.UserPtr

/-!
# sys_ps

Every byte goes through its own `n + 1 < size`. All of them together cut the listing at `size - 1`.
-/

namespace CortexAOS

open Kernel

variable {cfg : Config}

/-! ## The listing -/

/-- `<name right-padded to 7> t<index>  <state>\n`. -/
def psLine (k : Kernel cfg) (t : Tid cfg) : List Byte :=
  ((k.nameOf t).getD (ascii "?")).rightpad 7 0x20#8 ++ ascii " t" ++ [digit (k.threads t).index] ++
    ascii "  " ++ state_name (k.state t) ++ ascii "\n"

def psListing (k : Kernel cfg) : List Byte := (List.finRange cfg.NUM_THREADS).flatMap (psLine k)

theorem psText_eq {k : Kernel cfg} {t : Tid cfg} (h : (k.threads t).index < 10) :
    psText k t = psLine k t := by
  unfold psText psHead psLine
  rw [digit_eq h]
  simp only [List.append_assoc]

theorem sys_ps_eq {k : Kernel cfg} (hidx : ∀ t, (k.threads t).index < 10) {buf size : Word}
    (hv : valid_user_ptr buf size = true) :
    sys_ps k buf size = (k, stores buf ((psListing k).take (size.toNat - 1)),
      .returns (BitVec.ofNat 32 ((psListing k).take (size.toNat - 1)).length)) := by
  have hlines :
      ps_lines k size.toNat (List.finRange cfg.NUM_THREADS) [] =
        (psListing k).take (size.toNat - 1) := by
    rw [ps_lines_eq k _ (Nat.zero_le _)]
    unfold Lib.clip psListing
    rw [List.nil_append, List.flatMap_congr fun t _ => psText_eq (hidx t)]
  unfold sys_ps
  simp [hv, hlines]

/-! ## User memory -/

/-- User memory after a handler's stores. -/
def storedTo (umem : Word → Byte) (o : List (Obs cfg)) : Word → Byte :=
  o.foldl (fun m x => match x with
    | .store va c => Function.update m va c
    | _ => m) umem

theorem stores_snoc (buf : Word) (bs : List Byte) (c : Byte) :
    (stores buf (bs ++ [c]) : List (Obs cfg)) =
      stores buf bs ++ [.store (buf + BitVec.ofNat 32 bs.length) c] := by
  simp [stores, List.zipIdx_append]

theorem storedTo_snoc (umem : Word → Byte) (o : List (Obs cfg)) (va : Word) (c : Byte) :
    storedTo umem (o ++ [.store va c]) = Function.update (storedTo umem o) va c := by
  simp [storedTo]

theorem storedTo_stores (umem : Word → Byte) {buf : Word} {bs : List Byte}
    (hfit : buf.toNat + bs.length ≤ 2 ^ 32) (va : Word) :
    storedTo umem (stores buf bs : List (Obs cfg)) va =
      if buf.toNat ≤ va.toNat ∧ va.toNat < buf.toNat + bs.length then bs.getD (va.toNat - buf.toNat) 0#8
      else umem va := by
  induction bs using List.reverseRecOn with
  | nil =>
    rw [if_neg (by simp)]
    rfl
  | append_singleton bs c ih =>
    rw [List.length_append, List.length_singleton] at hfit
    have hadd : (buf + BitVec.ofNat 32 bs.length).toNat = buf.toNat + bs.length := by
      rw [BitVec.toNat_add, BitVec.toNat_ofNat]
      omega
    rw [stores_snoc, storedTo_snoc, List.length_append, List.length_singleton]
    rcases eq_or_ne va (buf + BitVec.ofNat 32 bs.length) with rfl | hne
    · rw [Function.update_self, hadd, if_pos (by omega), Nat.add_sub_cancel_left]
      simp
    · have hne' : va.toNat ≠ buf.toNat + bs.length := by
        rw [← hadd]
        exact fun he => hne (BitVec.eq_of_toNat_eq he)
      rw [Function.update_of_ne hne, ih (by omega)]
      by_cases hin : buf.toNat ≤ va.toNat ∧ va.toNat < buf.toNat + bs.length
      · rw [if_pos hin, if_pos (by omega), List.getD_eq_getElem?_getD, List.getD_eq_getElem?_getD,
          List.getElem?_append_left (by omega)]
      · rw [if_neg hin, if_neg (by omega)]

def psCount (k : Kernel cfg) (size : Word) : Nat := min (size.toNat - 1) (psListing k).length

theorem ps_cuts_listing {k : Kernel cfg} (hidx : ∀ t, (k.threads t).index < 10) {buf size : Word}
    (hv : valid_user_ptr buf size = true) (umem : Word → Byte) :
    sys_ps k buf size = (k, stores buf ((psListing k).take (psCount k size)),
      .returns (BitVec.ofNat 32 (psCount k size))) ∧
    (BitVec.ofNat 32 (psCount k size)).toNat = psCount k size ∧
    ∀ va, storedTo umem (sys_ps k buf size).2.1 va =
      if buf.toNat ≤ va.toNat ∧ va.toNat < buf.toNat + psCount k size then
        (psListing k).getD (va.toNat - buf.toNat) 0#8
      else umem va := by
  have hsize := size.isLt
  obtain ⟨-, hend⟩ := valid_user_ptr_spec hv
  have hle : psCount k size ≤ size.toNat := (Nat.min_le_left ..).trans (Nat.sub_le ..)
  have htake : (psListing k).take (size.toNat - 1) = (psListing k).take (psCount k size) := by
    rw [psCount, ← List.take_take, List.take_length]
  have hlen : ((psListing k).take (psCount k size)).length = psCount k size := by
    rw [List.length_take, psCount]
    omega
  have hps := sys_ps_eq hidx hv
  rw [htake, hlen] at hps
  refine ⟨hps, by rw [BitVec.toNat_ofNat]; omega, ?_⟩
  intro va
  rw [hps]
  simp only
  rw [storedTo_stores umem (by rw [hlen]; omega), hlen]
  by_cases hin : buf.toNat ≤ va.toNat ∧ va.toNat < buf.toNat + psCount k size
  · rw [if_pos hin, if_pos hin, List.getD_eq_getElem?_getD, List.getElem?_take_of_lt (by omega),
      ← List.getD_eq_getElem?_getD]
  · rw [if_neg hin, if_neg hin]

theorem ps_cuts_listing_third :
    sys_ps (boot demo) 0x40000000#32 50#32 =
      (boot demo,
        stores 0x40000000#32 (ascii "counter t0  READY  \ncounter t1  READY  \nrunaway t"),
        .returns 49#32) := by
  have hcount : psCount (boot demo) 50#32 = 49 := by decide +kernel
  have htext : (psListing (boot demo)).take 49 =
      ascii "counter t0  READY  \ncounter t1  READY  \nrunaway t" := by decide +kernel
  have hidx : ∀ t, ((boot demo).threads t).index < 10 := by decide +kernel
  have hv : valid_user_ptr 0x40000000#32 50#32 = true := by decide
  have h := (ps_cuts_listing hidx hv fun _ => 0#8).1
  rw [hcount, htext] at h
  exact h

end CortexAOS
