import Mathlib

/-!
# Account — balances as sums over their holders

A balance in a commutative monoid is kept as the sum of what a list of
holders hold. Replacing one holder or adding holders changes the sum by the
difference of what they hold.
-/

namespace Account

variable {α G : Type} [AddCommMonoid G] {f : α → G}

/-- The sum of what the holders hold. -/
def total (f : α → G) (xs : List α) : G := (xs.map f).sum

@[simp] theorem total_nil : total f [] = 0 := rfl

@[simp] theorem total_singleton (x : α) : total f [x] = f x := by
  simp [total]

@[simp] theorem total_cons (x : α) (xs : List α) : total f (x :: xs) = f x + total f xs := by
  simp [total]

theorem total_map {β : Type} (g : β → α) (xs : List β) :
    total f (xs.map g) = total (fun x => f (g x)) xs := by
  simp [total, Function.comp_def]

theorem total_append (xs ys : List α) : total f (xs ++ ys) = total f xs + total f ys := by
  simp [total]

/-- Of vectors, entry by entry. -/
theorem total_apply {ι : Type} (f : α → ι → G) (xs : List α) (i : ι) :
    total f xs i = total (fun x => f x i) xs := by
  induction xs with
  | nil => rfl
  | cons x xs ih => rw [total_cons, total_cons, Pi.add_apply, ih]

/-- One holder and the others. -/
theorem total_frame {xs : List α} {i : Nat} {x : α} (h : xs[i]? = some x) :
    ∃ k, total f xs = k + f x ∧ ∀ y, total f (xs.set i y) = k + f y := by
  induction xs generalizing i with
  | nil => cases h
  | cons z xs ih =>
      cases i with
      | zero =>
          obtain rfl : z = x := Option.some.inj h
          exact ⟨total f xs, by rw [total_cons, add_comm], fun y => by
            rw [List.set_cons_zero, total_cons, add_comm]⟩
      | succ i =>
          obtain ⟨k, hx, hset⟩ := ih h
          exact ⟨f z + k, by rw [total_cons, hx, add_assoc], fun y => by
            rw [List.set_cons_succ, total_cons, hset, add_assoc]⟩

/-- One holder is replaced. -/
theorem total_set {xs : List α} {i : Nat} {x : α} (y : α) (h : xs[i]? = some x) :
    total f (xs.set i y) + f x = total f xs + f y := by
  obtain ⟨k, hx, hset⟩ := total_frame (f := f) h
  rw [hset, hx]
  abel

/-- A balance moves with the holder that is replaced. -/
theorem total_set_of_balance [IsRightCancelAdd G] {xs : List α} {i : Nat} {x y : α} {v v' : G}
    (h : xs[i]? = some x) (hv : v = total f xs) (hmove : v' + f x = v + f y) :
    v' = total f (xs.set i y) := by
  apply add_right_cancel (b := f x)
  rw [hmove, hv, total_set y h]

/-- Each holder with `p` holds the same. -/
theorem total_indicator (p : α → Bool) (g : G) (xs : List α) :
    total (fun x => if p x then g else 0) xs = xs.countP p • g := by
  induction xs with
  | nil => simp
  | cons x xs ih =>
      rw [total_cons, ih]
      cases hp : p x <;> simp [hp, add_nsmul, add_comm]

theorem total_congr {g : α → G} {xs : List α} (h : ∀ x ∈ xs, f x = g x) :
    total f xs = total g xs := by
  rw [total, total, List.map_congr_left h]

/-- Only the holders with `p` hold anything. -/
theorem total_filter (p : α → Bool) (xs : List α) :
    total (fun x => if p x then f x else 0) xs = ((xs.filter p).map f).sum := by
  induction xs with
  | nil => rfl
  | cons x xs ih =>
      simp only [total, List.map_cons, List.sum_cons] at ih ⊢
      cases hp : p x <;> simp [hp, ih]

/-- Where a growing sum reaches `n`. -/
theorem exists_crossing {f : α → Nat} {xs : List α} {n : Nat} (hpos : 0 < n)
    (h : n ≤ total f xs) :
    ∃ pre x post, xs = pre ++ x :: post ∧ total f pre < n ∧ n ≤ total f pre + f x := by
  induction xs using List.reverseRecOn with
  | nil => exact absurd h (not_le.mpr hpos)
  | append_singleton xs x ih =>
      by_cases hbefore : n ≤ total f xs
      · obtain ⟨pre, y, post, rfl, hlt, hle⟩ := ih hbefore
        exact ⟨pre, y, post ++ [x], by simp, hlt, hle⟩
      · rw [total_append, total_singleton] at h
        exact ⟨xs, x, [], rfl, not_le.mp hbefore, h⟩

theorem total_le {f g : α → Int} {xs : List α} (h : ∀ x ∈ xs, f x ≤ g x) :
    total f xs ≤ total g xs := List.sum_le_sum h

theorem total_nonneg {f : α → Int} {xs : List α} (h : ∀ x ∈ xs, 0 ≤ f x) : 0 ≤ total f xs := by
  refine List.sum_nonneg fun y hy => ?_
  obtain ⟨x, hx, rfl⟩ := List.mem_map.mp hy
  exact h x hx

end Account
