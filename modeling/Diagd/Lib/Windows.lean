import Diagd.Lib.Transition

/-!
# Windows — figures kept over the windows of a stream

A stream is cut into windows by some of its own elements, and at marks in it a
record is made of the window that is open there (`Recorded`). The extremes of
a window are a pair of values with two given bounds for the empty window
(`Spans`).
-/

namespace Windows

/-! ## Extremes -/

section extremes

variable {α : Type} [LinearOrder α] {top bot lo hi x : α} {xs : List α}

/-- `lo` and `hi` are the extremes of `xs`. -/
structure Spans (top bot lo hi : α) (xs : List α) : Prop where
  lo_le : ∀ x ∈ xs, lo ≤ x
  le_hi : ∀ x ∈ xs, x ≤ hi
  empty : xs = [] → lo = top ∧ hi = bot
  attained : xs ≠ [] → lo ∈ xs ∧ hi ∈ xs

theorem spans_nil : Spans top bot top bot [] where
  lo_le := by simp
  le_hi := by simp
  empty _ := ⟨rfl, rfl⟩
  attained h := absurd rfl h

theorem Spans.snoc (h : Spans top bot lo hi xs) (htop : x ≤ top) (hbot : bot ≤ x) :
    Spans top bot (min lo x) (max hi x) (xs ++ [x]) where
  lo_le := by
    intro y hy
    rcases List.mem_append.mp hy with hold | hnew
    · exact (min_le_left lo x).trans (h.lo_le y hold)
    · rw [List.mem_singleton.mp hnew]
      exact min_le_right lo x
  le_hi := by
    intro y hy
    rcases List.mem_append.mp hy with hold | hnew
    · exact (h.le_hi y hold).trans (le_max_left hi x)
    · rw [List.mem_singleton.mp hnew]
      exact le_max_right hi x
  empty := by simp
  attained := by
    intro _
    by_cases hxs : xs = []
    · obtain ⟨rfl, rfl⟩ := h.empty hxs
      rw [min_eq_right htop, max_eq_right hbot, hxs]
      simp
    · obtain ⟨hlo, hhi⟩ := h.attained hxs
      constructor
      · rcases min_choice lo x with heq | heq <;> rw [heq] <;> simp [hlo]
      · rcases max_choice hi x with heq | heq <;> rw [heq] <;> simp [hhi]

end extremes

/-! ## Records -/

section records

variable {α ρ : Type} {mark cut : α → Bool} {P : ρ → List α → Prop} {rs : List ρ} {r : ρ}
  {xs : List α} {x : α}

/-- What has come since the last cut. -/
def since (cut : α → Bool) (xs : List α) : List α := xs.rtakeWhile fun x => !cut x

theorem since_snoc (cut : α → Bool) (xs : List α) (x : α) :
    since cut (xs ++ [x]) = if cut x then [] else since cut xs ++ [x] := by
  rw [since, List.rtakeWhile_concat]
  cases cut x <;> rfl

/-- At each mark one record was made, of what had come since the last cut
before it. -/
structure Recorded (mark cut : α → Bool) (P : ρ → List α → Prop) (rs : List ρ) (xs : List α) :
    Prop where
  length : rs.length = xs.countP mark
  each : ∀ pre x post, xs = pre ++ x :: post → mark x = true →
    ∃ r, rs[pre.countP mark]? = some r ∧ P r (since cut pre)

theorem recorded_nil : Recorded mark cut P [] [] where
  length := rfl
  each := by simp

theorem Recorded.skip (h : Recorded mark cut P rs xs) (hx : mark x = false) :
    Recorded mark cut P rs (xs ++ [x]) where
  length := by simp [h.length, hx]
  each := by
    intro pre y post hsplit hy
    rcases Transition.snoc_split hsplit with ⟨-, -, rfl⟩ | ⟨post', -, hold⟩
    · rw [hx] at hy
      cases hy
    · exact h.each pre y post' hold hy

theorem Recorded.record (h : Recorded mark cut P rs xs) (hx : mark x = true)
    (hr : P r (since cut xs)) : Recorded mark cut P (rs ++ [r]) (xs ++ [x]) where
  length := by simp [h.length, hx]
  each := by
    intro pre y post hsplit hy
    rcases Transition.snoc_split hsplit with ⟨-, rfl, -⟩ | ⟨post', -, hold⟩
    · exact ⟨r, by rw [← h.length, List.getElem?_concat_length], hr⟩
    · obtain ⟨r', hr', hP⟩ := h.each pre y post' hold hy
      refine ⟨r', ?_, hP⟩
      rw [List.getElem?_append_left (List.getElem?_eq_some_iff.mp hr').1, hr']

end records

end Windows
