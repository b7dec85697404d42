import Mathlib.Data.List.DropRight
import Diagd.Lib.Account

/-!
# Arrivals — what became of a numbered stream

A sender numbers its messages 1, 2, 3, …; they arrive in some order, some
never and some twice. This file says what a receiver ought to report about
such a stream, and what a receiver reports that keeps a running tally,
closed and restarted now and then:

* `count` — how many arrivals have a property that depends on the EARLIER
  arrivals, such as `Repeat`, `Late` or `Advance`;
* `missing` — how many numbers up to the highest never arrived;
* `Tally.record`, `closings` — the tally, and its values at each closing.

The closed tallies together count repeats and late arrivals exactly. Their
losses are exact too as long as nothing was closed; a late arrival whose loss
was reported in a closed tally cannot be taken back any more, and the losses
then exceed `missing` by at most the number of late arrivals.
-/

namespace Arrivals

open Account (total)

/-! ## The stream -/

/-- The highest number so far, 0 before the first arrival. -/
def highest (xs : List Nat) : Nat := xs.foldl max 0

@[simp] theorem highest_nil : highest [] = 0 := rfl

@[simp] theorem highest_snoc (xs : List Nat) (x : Nat) :
    highest (xs ++ [x]) = max (highest xs) x := by
  rw [highest, List.foldl_append]
  rfl

theorem le_highest {xs : List Nat} {x : Nat} (h : x ∈ xs) : x ≤ highest xs := by
  induction xs using List.reverseRecOn with
  | nil => cases h
  | append_singleton xs y ih =>
      rw [highest_snoc]
      rcases List.mem_append.mp h with hx | hx
      · exact (ih hx).trans (le_max_left _ _)
      · rw [List.mem_singleton.mp hx]
        exact le_max_right _ _

theorem highest_le {xs : List Nat} {m : Nat} (h : ∀ x ∈ xs, x ≤ m) : highest xs ≤ m := by
  induction xs using List.reverseRecOn with
  | nil => exact Nat.zero_le m
  | append_singleton xs y ih =>
      rw [highest_snoc]
      exact max_le (ih fun x hx => h x (List.mem_append_left _ hx)) (h y (by simp))

/-- How many numbers in 1..`highest xs` are not in `xs`. -/
def missing (xs : List Nat) : Nat := ((Finset.Icc 1 (highest xs)).filter (· ∉ xs)).card

theorem missing_add_card {xs : List Nat} (h : ∀ x ∈ xs, 1 ≤ x) :
    missing xs + xs.toFinset.card = highest xs := by
  have hmem : (Finset.Icc 1 (highest xs)).filter (· ∈ xs) = xs.toFinset := by
    ext x
    rw [Finset.mem_filter, Finset.mem_Icc, List.mem_toFinset]
    exact ⟨And.right, fun hx => ⟨⟨h x hx, le_highest hx⟩, hx⟩⟩
  have hsplit := Finset.card_filter_add_card_filter_not (s := Finset.Icc 1 (highest xs)) (· ∈ xs)
  rw [hmem, Nat.card_Icc, Nat.add_sub_cancel] at hsplit
  rw [missing, Nat.add_comm]
  exact hsplit

/-- The distinct numbers in the order of their first arrival. -/
theorem eraseDups_snoc (xs : List Nat) (x : Nat) :
    (xs ++ [x]).eraseDups = if x ∈ xs then xs.eraseDups else xs.eraseDups ++ [x] := by
  rw [List.eraseDups_append]
  split <;> simp_all [List.removeAll, List.eraseDups_cons]

/-! ## Properties of an arrival -/

/-- The number has arrived before. -/
abbrev Repeat (earlier : List Nat) (x : Nat) : Prop := x ∈ earlier

/-- A first arrival smaller than a number already seen. -/
abbrev Late (earlier : List Nat) (x : Nat) : Prop := x ∉ earlier ∧ ∃ y ∈ earlier, x < y

/-- The arrival advances the stream. -/
abbrev Advance (earlier : List Nat) (x : Nat) : Prop := ∀ y ∈ earlier, y < x

/-- How many of the arrivals `xs` have `P`, after the arrivals `earlier`. -/
def count (P : List Nat → Nat → Prop) [∀ earlier x, Decidable (P earlier x)]
    (earlier : List Nat) : List Nat → Nat
  | [] => 0
  | x :: xs => (if P earlier x then 1 else 0) + count P (earlier ++ [x]) xs

/-- Each of the arrivals `xs` has `P`, after the arrivals `earlier`. -/
def Each (P : List Nat → Nat → Prop) (earlier : List Nat) : List Nat → Prop
  | [] => True
  | x :: xs => P earlier x ∧ Each P (earlier ++ [x]) xs

instance instDecidableEach (P : List Nat → Nat → Prop) [∀ earlier x, Decidable (P earlier x)] :
    ∀ earlier xs, Decidable (Each P earlier xs)
  | _, [] => .isTrue trivial
  | earlier, x :: xs =>
      have := instDecidableEach P (earlier ++ [x]) xs
      inferInstanceAs (Decidable (P earlier x ∧ Each P (earlier ++ [x]) xs))

theorem Each.of_append {P : List Nat → Nat → Prop} {xs ys : List Nat} {earlier : List Nat}
    (h : Each P earlier (xs ++ ys)) : Each P earlier xs := by
  induction xs generalizing earlier with
  | nil => trivial
  | cons x xs ih => exact ⟨h.1, ih h.2⟩

/-- An arrival is exactly one of the three. -/
theorem trichotomy (earlier : List Nat) (x : Nat) :
    (Advance earlier x ∧ ¬ Repeat earlier x ∧ ¬ Late earlier x) ∨
      (Repeat earlier x ∧ ¬ Advance earlier x ∧ ¬ Late earlier x) ∨
      (Late earlier x ∧ ¬ Advance earlier x ∧ ¬ Repeat earlier x) := by
  by_cases hrep : x ∈ earlier
  · exact .inr (.inl ⟨hrep, fun h => lt_irrefl x (h x hrep), fun h => h.1 hrep⟩)
  by_cases hadv : Advance earlier x
  · exact .inl ⟨hadv, hrep, fun ⟨_, y, hy, hlt⟩ => lt_asymm hlt (hadv y hy)⟩
  · obtain ⟨y, hy, hle⟩ : ∃ y ∈ earlier, x ≤ y := by
      by_contra hc
      exact hadv fun y hy => Nat.lt_of_not_le fun hle => hc ⟨y, hy, hle⟩
    have hne : x ≠ y := fun he => hrep (he ▸ hy)
    exact .inr (.inr ⟨⟨hrep, y, hy, lt_of_le_of_ne hle hne⟩, hadv, hrep⟩)

theorem highest_of_advance {earlier : List Nat} {x : Nat} (hpos : 1 ≤ x)
    (h : Advance earlier x) : highest earlier < x := by
  have hle : highest earlier ≤ x - 1 := highest_le fun y hy => Nat.le_sub_one_of_lt (h y hy)
  omega

theorem le_highest_of_late {earlier : List Nat} {x : Nat} (h : Late earlier x) :
    x ≤ highest earlier := by
  obtain ⟨-, y, hy, hlt⟩ := h
  exact hlt.le.trans (le_highest hy)

/-- The distinct numbers are the advancing and the late ones. -/
theorem count_advance_add_late (xs : List Nat) (earlier : List Nat) :
    count Advance earlier xs + count Late earlier xs + earlier.toFinset.card =
      (earlier ++ xs).toFinset.card := by
  induction xs generalizing earlier with
  | nil => simp [count]
  | cons x xs ih =>
      have hrest := ih (earlier ++ [x])
      rw [List.append_assoc, List.singleton_append] at hrest
      rw [← hrest, count, count]
      have hcard : (earlier ++ [x]).toFinset.card =
          if x ∈ earlier then earlier.toFinset.card else earlier.toFinset.card + 1 := by
        rw [List.toFinset_append, List.toFinset_cons, List.toFinset_nil, insert_empty_eq,
          Finset.union_comm, ← Finset.insert_eq]
        split
        · rw [Finset.insert_eq_of_mem (List.mem_toFinset.mpr ‹_›)]
        · rw [Finset.card_insert_of_notMem fun h => ‹x ∉ earlier› (List.mem_toFinset.mp h)]
      rw [hcard]
      rcases trichotomy earlier x with ⟨h, h', h''⟩ | ⟨h, h', h''⟩ | ⟨h, h', h''⟩
      · rw [if_pos h, if_neg h'', if_neg h']
        omega
      · rw [if_neg h', if_neg h'', if_pos h]
        omega
      · rw [if_neg h', if_pos h, if_neg h'']
        omega

/-- Every number up to the highest is missing, or advanced the stream, or came late. -/
theorem missing_add_count {xs : List Nat} (h : ∀ x ∈ xs, 1 ≤ x) :
    missing xs + (count Advance [] xs + count Late [] xs) = highest xs := by
  have hcard := count_advance_add_late xs []
  rw [List.toFinset_nil, Finset.card_empty, Nat.add_zero, List.nil_append] at hcard
  rw [hcard]
  exact missing_add_card h

/-! ## The receiver's tally -/

/-- How a receiver classifies an arrival; `gap` numbers were skipped. -/
inductive Arrival where
  | advance (gap : Nat)
  | duplicate
  | late
  deriving DecidableEq, Repr

def classify (earlier : List Nat) (x : Nat) : Arrival :=
  if highest earlier < x then .advance (x - highest earlier - 1)
  else if x ∈ earlier then .duplicate
  else .late

/-- The counters of one reporting period. -/
structure Tally where
  loss : Nat := 0
  ooo : Nat := 0
  dup : Nat := 0
  deriving DecidableEq, Repr

/-- A late arrival takes one loss back, if there is one in the tally. -/
def Tally.record (t : Tally) : Arrival → Tally
  | .advance gap => { t with loss := t.loss + gap }
  | .duplicate => { t with dup := t.dup + 1 }
  | .late => { t with ooo := t.ooo + 1, loss := t.loss - 1 }

/-- The three cases of a recorded arrival, with what is true of the stream in each. -/
theorem record_cases (t : Tally) {earlier : List Nat} {x : Nat} (hpos : 1 ≤ x) :
    (Advance earlier x ∧ ¬ Repeat earlier x ∧ ¬ Late earlier x ∧ highest earlier < x ∧
        t.record (classify earlier x) = { t with loss := t.loss + (x - highest earlier - 1) }) ∨
      (Repeat earlier x ∧ ¬ Advance earlier x ∧ ¬ Late earlier x ∧ x ≤ highest earlier ∧
        t.record (classify earlier x) = { t with dup := t.dup + 1 }) ∨
      (Late earlier x ∧ ¬ Advance earlier x ∧ ¬ Repeat earlier x ∧ x ≤ highest earlier ∧
        t.record (classify earlier x) = { t with ooo := t.ooo + 1, loss := t.loss - 1 }) := by
  rcases trichotomy earlier x with ⟨h, h', h''⟩ | ⟨h, h', h''⟩ | ⟨h, h', h''⟩
  · have hhigh := highest_of_advance hpos h
    exact .inl ⟨h, h', h'', hhigh, by rw [classify, if_pos hhigh]; rfl⟩
  · have hle := le_highest h
    exact .inr (.inl ⟨h, h', h'', hle,
      by rw [classify, if_neg (Nat.not_lt.mpr hle), if_pos h]; rfl⟩)
  · have hle := le_highest_of_late h
    exact .inr (.inr ⟨h, h', h'', hle,
      by rw [classify, if_neg (Nat.not_lt.mpr hle), if_neg h'']; rfl⟩)

/-- What happens to one tally: an arrival, or the end of its period. -/
inductive Op where
  | arrive (x : Nat)
  | close
  deriving DecidableEq, Repr

/-- The tally after each period and at the end. -/
def closings (earlier : List Nat) (t : Tally) : List Op → List Tally
  | [] => [t]
  | .arrive x :: ops => closings (earlier ++ [x]) (t.record (classify earlier x)) ops
  | .close :: ops => t :: closings earlier {} ops

/-- The numbers that arrive. -/
def stream : List Op → List Nat
  | [] => []
  | .arrive x :: ops => x :: stream ops
  | .close :: ops => stream ops

/-! ## What the tallies add up to -/

variable {ops : List Op}

/-- A counter that starts at 0 and goes up with each arrival that has `P`
counts those arrivals, over all periods. -/
theorem total_of_counts {P : List Nat → Nat → Prop} [∀ earlier x, Decidable (P earlier x)]
    {f : Tally → Nat} (hzero : f {} = 0)
    (hrecord : ∀ t earlier x, 1 ≤ x →
      f (t.record (classify earlier x)) = f t + if P earlier x then 1 else 0)
    (hpos : ∀ x ∈ stream ops, 1 ≤ x) (earlier : List Nat) (t : Tally) :
    total f (closings earlier t ops) = f t + count P earlier (stream ops) := by
  induction ops generalizing earlier t with
  | nil => simp [closings, stream, count]
  | cons op ops ih =>
      cases op with
      | close => rw [closings, stream, Account.total_cons, ih hpos, hzero, Nat.zero_add]
      | arrive x =>
          rw [stream, List.forall_mem_cons] at hpos
          rw [closings, stream, ih hpos.2, count, hrecord _ _ _ hpos.1, Nat.add_assoc]

theorem total_dup (hpos : ∀ x ∈ stream ops, 1 ≤ x) (earlier : List Nat) (t : Tally) :
    total Tally.dup (closings earlier t ops) = t.dup + count Repeat earlier (stream ops) := by
  refine total_of_counts rfl (fun t earlier x hx => ?_) hpos earlier t
  rcases record_cases t hx with ⟨-, h, -, -, he⟩ | ⟨h, -, -, -, he⟩ | ⟨-, -, h, -, he⟩
  · rw [he, if_neg h]
    rfl
  · rw [he, if_pos h]
  · rw [he, if_neg h]
    rfl

theorem total_ooo (hpos : ∀ x ∈ stream ops, 1 ≤ x) (earlier : List Nat) (t : Tally) :
    total Tally.ooo (closings earlier t ops) = t.ooo + count Late earlier (stream ops) := by
  refine total_of_counts rfl (fun t earlier x hx => ?_) hpos earlier t
  rcases record_cases t hx with ⟨-, -, h, -, he⟩ | ⟨-, -, h, -, he⟩ | ⟨h, -, -, -, he⟩
  · rw [he, if_neg h]
    rfl
  · rw [he, if_neg h]
    rfl
  · rw [he, if_pos h]

/-- The losses of all periods. Each late arrival takes back at most one. -/
theorem total_loss_bounds (hpos : ∀ x ∈ stream ops, 1 ≤ x) (earlier : List Nat) (t : Tally) :
    total Tally.loss (closings earlier t ops) + count Advance earlier (stream ops) +
        highest earlier ≤ t.loss + highest (earlier ++ stream ops) ∧
      t.loss + highest (earlier ++ stream ops) ≤
        total Tally.loss (closings earlier t ops) +
          (count Advance earlier (stream ops) + count Late earlier (stream ops)) +
          highest earlier := by
  induction ops generalizing earlier t with
  | nil => simp [closings, stream, count]
  | cons op ops ih =>
      cases op with
      | close =>
          have hrest := ih hpos earlier {}
          rw [closings, stream, Account.total_cons]
          simp only at hrest
          omega
      | arrive x =>
          rw [stream, List.forall_mem_cons] at hpos
          have hrest := ih hpos.2 (earlier ++ [x]) (t.record (classify earlier x))
          rw [List.append_assoc, List.singleton_append, highest_snoc] at hrest
          rw [closings, stream, count, count]
          rcases record_cases t hpos.1 with ⟨h, -, h', hx, he⟩ | ⟨-, h, h', hx, he⟩ |
            ⟨h', h, -, hx, he⟩ <;> rw [he] at hrest ⊢
          · rw [if_pos h, if_neg h']
            simp only at hrest
            omega
          · rw [if_neg h, if_neg h']
            simp only at hrest
            omega
          · rw [if_neg h, if_pos h']
            simp only at hrest
            omega

/-- One arrival keeps an unclosed tally exact. -/
theorem record_missing {t : Tally} {earlier : List Nat} {x : Nat} (hpos : 1 ≤ x)
    (hearlier : ∀ y ∈ earlier, 1 ≤ y) (ht : t.loss = missing earlier) :
    (t.record (classify earlier x)).loss = missing (earlier ++ [x]) := by
  have hall : ∀ y ∈ earlier ++ [x], 1 ≤ y := by
    simpa [or_imp, forall_and] using ⟨hearlier, hpos⟩
  have hold := missing_add_card hearlier
  have hnew := missing_add_card hall
  have hcount := count_advance_add_late [x] earlier
  rw [← hcount, highest_snoc] at hnew
  simp only [count, Nat.add_zero] at hnew
  rcases record_cases t hpos with ⟨h, -, h', hx, he⟩ | ⟨-, h, h', hx, he⟩ | ⟨h', h, -, hx, he⟩
  · rw [he]
    rw [if_pos h, if_neg h'] at hnew
    simp only
    omega
  · rw [he]
    rw [if_neg h, if_neg h'] at hnew
    simp only
    omega
  · rw [he]
    rw [if_neg h, if_pos h'] at hnew
    simp only
    omega

theorem total_loss_exact (hpos : ∀ x ∈ stream ops, 1 ≤ x) (hopen : .close ∉ ops)
    {earlier : List Nat} (hearlier : ∀ y ∈ earlier, 1 ≤ y) {t : Tally}
    (ht : t.loss = missing earlier) :
    total Tally.loss (closings earlier t ops) = missing (earlier ++ stream ops) := by
  induction ops generalizing earlier t with
  | nil => simp [closings, stream, ht]
  | cons op ops ih =>
      rw [List.mem_cons, not_or] at hopen
      cases op with
      | close => exact absurd rfl hopen.1
      | arrive x =>
          rw [stream, List.forall_mem_cons] at hpos
          have hall : ∀ y ∈ earlier ++ [x], 1 ≤ y := by
            simpa [or_imp, forall_and] using ⟨hearlier, hpos.1⟩
          rw [closings, ih hpos.2 hopen.2 hall (record_missing hpos.1 hearlier ht), stream,
            List.append_assoc, List.singleton_append]

/-! ## Size of a tally -/

/-- The counters are bounded by the stream, closed or not. -/
structure Tally.Within (t : Tally) (earlier : List Nat) : Prop where
  loss_le : t.loss ≤ highest earlier
  ooo_le : t.ooo ≤ earlier.length
  dup_le : t.dup ≤ earlier.length

theorem Tally.within_empty (earlier : List Nat) : ({} : Tally).Within earlier :=
  ⟨Nat.zero_le _, Nat.zero_le _, Nat.zero_le _⟩

theorem Tally.Within.record {t : Tally} {earlier : List Nat} (h : t.Within earlier) {x : Nat}
    (hpos : 1 ≤ x) : (t.record (classify earlier x)).Within (earlier ++ [x]) := by
  obtain ⟨hloss, hooo, hdup⟩ := h
  rcases record_cases t hpos with ⟨-, -, -, hx, he⟩ | ⟨-, -, -, hx, he⟩ | ⟨-, -, -, hx, he⟩
  all_goals
    rw [he]
    refine ⟨?_, ?_, ?_⟩ <;> simp only [highest_snoc, List.length_append, List.length_singleton] <;>
      omega

end Arrivals
