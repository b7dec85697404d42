import Mathlib.Data.List.Rotate
import Mathlib.Data.List.DropRight

/-!
# RingBuffer — the last elements pushed

A fixed array written round robin. Its contents are read through `window`,
the slots OLDEST FIRST: pushing drops the head of the window and appends to
its end, so that after any number of pushes the window is the last `n`
elements of everything that was ever in the buffer (`Holds`).
-/

/-- `slots` is the array and `next` the slot the next push overwrites. -/
structure RingBuffer (α : Type) (n : Nat) where
  slots : Vector α n
  next : Fin n
  deriving DecidableEq, Repr

namespace RingBuffer

variable {α : Type} {n : Nat} {r : RingBuffer α n}

def push (r : RingBuffer α n) (x : α) : RingBuffer α n where
  slots := r.slots.set r.next x
  next := ⟨(r.next + 1) % n, Nat.mod_lt _ r.next.pos⟩

/-- The slots, oldest first. -/
def window (r : RingBuffer α n) : List α := r.slots.toList.rotate r.next

theorem mem_window {x : α} : x ∈ r.window ↔ x ∈ r.slots := by
  rw [window, List.mem_rotate, Vector.mem_toList_iff]

/-- Overwriting the oldest element and moving on, seen from the front. -/
theorem rotate_set_succ {l : List α} {k : Nat} (h : k < l.length) (x : α) :
    (l.set k x).rotate (k + 1) = (l.rotate k).tail ++ [x] := by
  have htake : (l.set k x).take (k + 1) = l.take k ++ [x] := by
    rw [List.take_succ_eq_append_getElem (by rwa [List.length_set]), List.getElem_set_self,
      List.take_set, List.set_eq_of_length_le (by rw [List.length_take]; omega)]
  rw [List.rotate_eq_drop_append_take (by rw [List.length_set]; omega), htake,
    List.drop_set_of_lt (by omega), List.rotate_eq_drop_append_take (by omega),
    List.drop_eq_getElem_cons h, List.cons_append, List.tail_cons, List.append_assoc]

theorem window_push (x : α) : (r.push x).window = r.window.tail ++ [x] := by
  have hlen : (r.slots.toList.set r.next x).length = n := by
    rw [List.length_set, Vector.length_toList]
  have hwrap := List.rotate_mod (r.slots.toList.set r.next x) (r.next + 1)
  rw [hlen] at hwrap
  show (r.slots.set r.next x).toList.rotate ((r.next + 1) % n) = _
  rw [Vector.toList_set, hwrap]
  exact rotate_set_succ (by rw [Vector.length_toList]; exact r.next.isLt) x

/-- `r` holds the last `n` elements of `xs`. -/
def Holds (r : RingBuffer α n) (xs : List α) : Prop := n ≤ xs.length ∧ r.window = xs.rtake n

theorem holds_replicate (x : α) (k : Fin n) :
    (⟨Vector.replicate n x, k⟩ : RingBuffer α n).Holds (List.replicate n x) := by
  refine ⟨by rw [List.length_replicate], ?_⟩
  rw [window, Vector.toList_replicate, List.rotate_replicate, List.rtake, List.length_replicate,
    Nat.sub_self, List.drop_zero]

theorem Holds.push {xs : List α} (h : r.Holds xs) (x : α) : (r.push x).Holds (xs ++ [x]) := by
  have hpos : 0 < n := r.next.pos
  have hlen := h.1
  refine ⟨by rw [List.length_append]; omega, ?_⟩
  rw [window_push, h.2, List.rtake, List.rtake, List.tail_drop, List.length_append,
    List.length_singleton, List.drop_append_of_le_length (by omega)]
  congr 2
  omega

theorem Holds.mem_iff {xs : List α} (h : r.Holds xs) {x : α} : x ∈ r.slots ↔ x ∈ xs.rtake n := by
  rw [← mem_window, h.2]

/-- What was pushed last is not pushed out by what was there before. -/
theorem mem_rtake_append {pad l : List α} {x : α} (h : x ∈ l.rtake n) :
    x ∈ (pad ++ l).rtake n := by
  rw [List.rtake] at h ⊢
  rw [List.length_append, List.drop_append]
  refine List.mem_append_right _ ?_
  have hle : pad.length + l.length - n - pad.length ≤ l.length - n := by omega
  obtain ⟨k, hk⟩ := Nat.exists_eq_add_of_le hle
  rw [hk, ← List.drop_drop] at h
  exact List.mem_of_mem_drop h

end RingBuffer
