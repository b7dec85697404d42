import Mathlib

/-!
# Cyclic — a range of integers in cyclic order

The `n` integers from `lo` on, listed from `start` and around the end. Each
of them comes exactly once, wherever the list starts.
-/

namespace Cyclic

variable {lo start : Int} {n : Nat}

/-- The element `j` places after `start`. -/
def elem (lo : Int) (n : Nat) (start : Int) (j : Nat) : Int := lo + (start - lo + j) % n

def order (lo : Int) (n : Nat) (start : Int) : List Int := (List.range n).map (elem lo n start)

@[simp] theorem order_length : (order lo n start).length = n := by
  simp [order]

theorem elem_mem {j : Nat} (h : j < n) : elem lo n start j ∈ order lo n start :=
  List.mem_map_of_mem (List.mem_range.mpr h)

theorem elem_bounds (hn : 0 < n) (j : Nat) :
    lo ≤ elem lo n start j ∧ elem lo n start j < lo + n := by
  have hpos : (0 : Int) < n := by omega
  have hlow := Int.emod_nonneg (start - lo + j) (Int.ne_of_gt hpos)
  have hhigh := Int.emod_lt_of_pos (start - lo + j) hpos
  unfold elem
  omega

theorem elem_inj {i j : Nat} (hi : i < n) (hj : j < n)
    (h : elem lo n start i = elem lo n start j) : i = j := by
  have hmod : (start - lo + i) % n = (start - lo + j) % n := Int.add_left_cancel h
  have hdvd : (n : Int) ∣ (start - lo + i) - (start - lo + j) := Int.ModEq.dvd hmod.symm
  have hzero : (start - lo + i) - (start - lo + j) = 0 := by
    refine Int.eq_zero_of_abs_lt_dvd hdvd ?_
    rw [abs_lt]
    omega
  omega

theorem order_nodup : (order lo n start).Nodup := by
  refine List.Nodup.map_on ?_ List.nodup_range
  intro i hi j hj h
  exact elem_inj (List.mem_range.mp hi) (List.mem_range.mp hj) h

theorem mem_order {p : Int} (hn : 0 < n) : p ∈ order lo n start ↔ lo ≤ p ∧ p < lo + n := by
  constructor
  · intro h
    obtain ⟨j, -, rfl⟩ := List.mem_map.mp h
    exact elem_bounds hn j
  · rintro ⟨hlow, hhigh⟩
    have hpos : (0 : Int) < n := by omega
    have hnonneg := Int.emod_nonneg (p - start) (Int.ne_of_gt hpos)
    have hlt := Int.emod_lt_of_pos (p - start) hpos
    -- `p` comes `(p - start) % n` places after `start`
    have hat : elem lo n start ((p - start) % n).toNat = p := by
      have hsum : start - lo + (p - start) = p - lo := by ring
      rw [elem, Int.toNat_of_nonneg hnonneg, Int.add_emod_emod, hsum,
        Int.emod_eq_of_lt (by omega) (by omega)]
      ring
    rw [← hat]
    exact elem_mem (by omega)

end Cyclic
