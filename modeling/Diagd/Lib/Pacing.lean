import Mathlib

/-!
# Pacing — a periodic schedule with bounded catching up

A pacer has a due time `next` and an interval `iv`. When it is woken it fires
once for every tick that is due, but at most `cap` times; if it is still
behind after that, the schedule starts afresh one interval later, and the
ticks in between are dropped.

Everything is derived from one fact, `lt_due_iff`: tick `k`, counted from 0,
is due exactly if `next + k * iv` has been reached.
-/

namespace Pacing

variable {iv next now : Int} {cap : Nat}

/-! ## One wake -/

/-- Fire while a tick is due, at most `cap` times: how often, and the new due
time. -/
def catchUp (iv now : Int) : Nat → Int → Nat × Int
  | 0, next => (0, next)
  | cap + 1, next =>
      if now < next then (0, next)
      else
        let rest := catchUp iv now cap (next + iv)
        (rest.1 + 1, rest.2)

/-- A wake: catch up, and start afresh if that was not enough. -/
def wake (cap : Nat) (iv next now : Int) : Nat × Int :=
  let caught := catchUp iv now cap next
  (caught.1, if caught.2 < now then now + iv else caught.2)

/-- The ticks due at `now`. -/
def due (iv next now : Int) : Nat := ((now - next) / iv + 1).toNat

theorem lt_due_iff (hiv : 0 < iv) {k : Nat} : k < due iv next now ↔ next + k * iv ≤ now := by
  have hdiv : (k : Int) ≤ (now - next) / iv ↔ k * iv ≤ now - next := Int.le_ediv_iff_mul_le hiv
  unfold due
  generalize (now - next) / iv = q at hdiv
  constructor
  · intro h
    have hk := hdiv.mp (by omega)
    omega
  · intro h
    have hk := hdiv.mpr (by omega)
    omega

theorem due_eq_of_le (hiv : 0 < iv) (h : next ≤ now) :
    (due iv next now : Int) = (now - next) / iv + 1 := by
  have hq : 0 ≤ (now - next) / iv := Int.ediv_nonneg (by omega) (Int.le_of_lt hiv)
  exact Int.toNat_of_nonneg (by omega)

/-- After `n` ticks, the others are still due. -/
theorem due_shift (hiv : 0 < iv) (n : Nat) :
    due iv (next + n * iv) now = due iv next now - n := by
  refine eq_of_forall_lt_iff fun k => ?_
  have hsum : next + n * iv + k * iv = next + (n + k : Nat) * iv := by
    push_cast
    ring
  rw [lt_due_iff hiv, hsum, ← lt_due_iff hiv]
  omega

theorem due_mono (hiv : 0 < iv) {now' : Int} (h : now ≤ now') :
    due iv next now ≤ due iv next now' := by
  refine le_of_forall_lt fun k hk => ?_
  rw [lt_due_iff hiv] at hk ⊢
  exact hk.trans h

theorem catchUp_eq (hiv : 0 < iv) (cap : Nat) (next : Int) :
    catchUp iv now cap next =
      (min cap (due iv next now), next + (min cap (due iv next now) : Nat) * iv) := by
  induction cap generalizing next with
  | zero => simp [catchUp]
  | succ cap ih =>
      have hdue : 0 < due iv next now ↔ next ≤ now := by
        rw [lt_due_iff hiv, Nat.cast_zero, zero_mul, add_zero]
      rw [catchUp]
      split
      · rename_i hlt
        have hzero : due iv next now = 0 := by
          by_contra hne
          exact absurd (hdue.mp (Nat.pos_of_ne_zero hne)) (Int.not_le.mpr hlt)
        simp [hzero]
      · rename_i hge
        have hpos : 0 < due iv next now := hdue.mpr (Int.not_lt.mp hge)
        have hshift : due iv (next + iv) now = due iv next now - 1 := by
          rw [← due_shift hiv, Nat.cast_one, one_mul]
        have hmin : min (cap + 1) (due iv next now) = min cap (due iv next now - 1) + 1 := by
          omega
        rw [ih, hshift, hmin]
        refine Prod.ext rfl ?_
        show next + iv + _ = next + _
        push_cast
        ring

theorem wake_count (hiv : 0 < iv) : (wake cap iv next now).1 = min cap (due iv next now) := by
  rw [wake, catchUp_eq hiv]

/-- The pacer is not behind after a wake. -/
theorem le_wake_next (hiv : 0 < iv) : now ≤ (wake cap iv next now).2 := by
  unfold wake
  dsimp only
  split <;> omega

/-- It has not fired ahead of the schedule either. -/
theorem wake_next_ge (hiv : 0 < iv) :
    next + (wake cap iv next now).1 * iv ≤ (wake cap iv next now).2 := by
  rw [wake_count hiv]
  unfold wake
  rw [catchUp_eq hiv]
  dsimp only
  split <;> omega

/-- A wake that fires `k` times pays for them all but one with time that has
passed, and for all of them with the new due time. -/
theorem wake_paid {period : Int} (hp : 0 < period) (hiv : period ≤ iv) :
    next + (wake cap iv next now).1 * period ≤ (wake cap iv next now).2 ∧
      ((wake cap iv next now).1 = 0 ∨
        next + (wake cap iv next now).1 * period ≤ now + period) := by
  have hpos : 0 < iv := hp.trans_le hiv
  have hscale : ∀ k : Nat, (k : Int) * period ≤ k * iv :=
    fun k => mul_le_mul_of_nonneg_left hiv (Int.natCast_nonneg k)
  have hnext : next + (wake cap iv next now).1 * iv ≤ (wake cap iv next now).2 :=
    wake_next_ge hpos
  have hcount : (wake cap iv next now).1 = min cap (due iv next now) := wake_count hpos
  generalize (wake cap iv next now).1 = k at *
  refine ⟨by linarith [hscale k], ?_⟩
  cases k with
  | zero => exact .inl rfl
  | succ k =>
      have hdue : k < due iv next now := by omega
      rw [lt_due_iff hpos] at hdue
      refine .inr ?_
      push_cast
      linarith [hscale k]

/-- No tick is dropped as long as no more than `cap` are due. -/
theorem wake_of_due_le (hiv : 0 < iv) (h : due iv next now ≤ cap) :
    wake cap iv next now = (due iv next now, next + due iv next now * iv) := by
  have hahead : ¬ next + due iv next now * iv ≤ now := by
    rw [← lt_due_iff hiv]
    exact Nat.lt_irrefl _
  rw [wake, catchUp_eq hiv, Nat.min_eq_right h]
  dsimp only
  rw [if_neg (by omega)]

/-! ## A sequence of wakes -/

/-- The due time after the wakes `ws`, and the time of each firing. -/
def wakes (cap : Nat) (iv next : Int) : List Int → Int × List Int
  | [] => (next, [])
  | w :: ws =>
      let woken := wake cap iv next w
      let rest := wakes cap iv woken.2 ws
      (rest.1, List.replicate woken.1 w ++ rest.2)

/-- At every wake at most `cap` ticks are due. -/
def InTime (cap : Nat) (iv next : Int) : List Int → Prop
  | [] => True
  | w :: ws => due iv next w ≤ cap ∧ InTime cap iv (wake cap iv next w).2 ws

theorem inTime_of_forall {ws : List Int} (h : ∀ before w after, ws = before ++ w :: after →
    due iv (wakes cap iv next before).1 w ≤ cap) : InTime cap iv next ws := by
  induction ws generalizing next with
  | nil => trivial
  | cons w ws ih =>
      refine ⟨h [] w ws rfl, ih fun before w' after hws => ?_⟩
      exact h (w :: before) w' after (by rw [hws, List.cons_append])

/-- A pacer that is never left alone for `cap` intervals is in time. -/
theorem inTime_of_gaps (hiv : 0 < iv) {last : Int} {ws : List Int} (hlast : last ≤ next)
    (h : (last :: ws).IsChain fun a b => b < a + cap * iv) : InTime cap iv next ws := by
  induction ws generalizing last next with
  | nil => trivial
  | cons w ws ih =>
      obtain ⟨hgap, hrest⟩ := List.isChain_cons_cons.mp h
      refine ⟨?_, ih (le_wake_next hiv) hrest⟩
      rw [← not_lt, lt_due_iff hiv]
      omega

/-- **No overshoot.** Firing `k`, counted from 0, is not before `next + k * iv`. -/
theorem wakes_ge (hiv : 0 < iv) {ws : List Int} {k : Nat} {w : Int}
    (h : (wakes cap iv next ws).2[k]? = some w) : next + k * iv ≤ w := by
  induction ws generalizing next k with
  | nil => simp [wakes] at h
  | cons w' ws ih =>
      rw [wakes, List.getElem?_append, List.length_replicate] at h
      split at h
      · rename_i hk
        rw [List.getElem?_replicate, if_pos hk] at h
        cases h
        rw [wake_count hiv] at hk
        exact (lt_due_iff hiv).mp (Nat.lt_of_lt_of_le hk (Nat.min_le_right _ _))
      · rename_i hk
        have hrest := ih h
        have hge : next + (wake cap iv next w').1 * iv ≤ (wake cap iv next w').2 :=
          wake_next_ge hiv
        have hsplit : next + k * iv = next + (wake cap iv next w').1 * iv +
            (k - (wake cap iv next w').1 : Nat) * iv := by
          rw [add_assoc, ← add_mul, ← Nat.cast_add, Nat.add_sub_cancel' (Nat.not_lt.mp hk)]
        omega

/-- **No undershoot.** In time, every tick up to the last wake has been fired. -/
theorem wakes_length (hiv : 0 < iv) {ws : List Int} {w : Int}
    (hmono : (ws ++ [w]).Pairwise (· ≤ ·)) (htime : InTime cap iv next (ws ++ [w])) :
    (wakes cap iv next (ws ++ [w])).2.length = due iv next w := by
  induction ws generalizing next with
  | nil =>
      have hwake := wake_of_due_le hiv htime.1
      simp [wakes, hwake]
  | cons w' ws ih =>
      obtain ⟨hdue, htime⟩ := htime
      obtain ⟨hle, hmono⟩ := List.pairwise_cons.mp hmono
      have hmore : due iv next w' ≤ due iv next w := due_mono hiv (hle w (by simp))
      have hwake := wake_of_due_le hiv hdue
      have hrest := ih hmono htime
      rw [hwake] at hrest
      rw [List.cons_append, wakes, hwake]
      dsimp only at hrest ⊢
      rw [List.length_append, List.length_replicate, hrest, due_shift hiv]
      omega

end Pacing
