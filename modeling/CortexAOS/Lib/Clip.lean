import Mathlib.Data.List.Basic

/-!
# Buffers that drop what does not fit

A list that grows up to `cap` entries. Nothing here names the kernel.
-/

namespace CortexAOS.Lib

variable {α : Type*}

/-- `cs` appended to `out`, as far as there is room. -/
def clip (cap : Nat) (out cs : List α) : List α := (out ++ cs).take cap

variable {cap : Nat} {out : List α}

@[simp] theorem length_clip (cap : Nat) (out cs : List α) :
    (clip cap out cs).length = min cap (out.length + cs.length) := by
  simp [clip]

theorem length_clip_le (cap : Nat) (out cs : List α) : (clip cap out cs).length ≤ cap := by
  rw [length_clip]
  exact Nat.min_le_left ..

theorem clip_room {cs : List α} (h : out.length + cs.length ≤ cap) : clip cap out cs = out ++ cs :=
  List.take_of_length_le (by simpa using h)

theorem clip_nil (h : out.length ≤ cap) : clip cap out [] = out := by
  rw [clip_room (by simpa using h), List.append_nil]

theorem clip_full (h : out.length = cap) (cs : List α) : clip cap out cs = out := by
  unfold clip
  rw [← h, List.take_left]

theorem clip_clip (cap : Nat) (out cs ds : List α) :
    clip cap (clip cap out cs) ds = clip cap out (cs ++ ds) := by
  have hlen : cap - (clip cap out cs).length = cap - (out ++ cs).length := by
    rw [length_clip, List.length_append]
    omega
  calc clip cap (clip cap out cs) ds
      = (clip cap out cs).take cap ++ ds.take (cap - (clip cap out cs).length) := List.take_append
    _ = (out ++ cs).take cap ++ ds.take (cap - (out ++ cs).length) := by
      rw [hlen, List.take_of_length_le (length_clip_le cap out cs)]
      rfl
    _ = clip cap out (cs ++ ds) := by
      rw [← List.take_append, List.append_assoc]
      rfl

theorem clip_cons (cap : Nat) (out : List α) (c : α) (cs : List α) :
    clip cap out (c :: cs) = clip cap (out ++ [c]) cs := by
  unfold clip
  rw [List.append_assoc, List.singleton_append]

end CortexAOS.Lib
