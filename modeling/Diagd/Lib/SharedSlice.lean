import Mathlib

/-!
# SharedSlice — slices over shared arrays

Go's slices as what they are: views of arrays that live in memory. Two
slices of one array see each other's writes, and `append` writes into the
array as long as there is room, to a copy afterwards.

The idiom this library is about is filtering IN PLACE,

    kept := s[:0]
    for _, t := range s { if keep(t) { kept = append(kept, t) } }

which reads and writes one array. `filterAfter_eq` gives the whole memory
after any number of iterations: what was kept, then what was there before.
-/

namespace SharedSlice

variable {α : Type}

/-- The arrays in memory, by address. -/
abbrev Heap (α : Type) := List (List α)

/-- A slice that begins at the start of its array. The capacity is the length
of the array. -/
structure Slice where
  addr : Nat
  len : Nat
  deriving DecidableEq, Repr

namespace Heap

def array (h : Heap α) (s : Slice) : List α := h.getD s.addr []

/-- The elements of the slice. -/
def elems (h : Heap α) (s : Slice) : List α := (h.array s).take s.len

/-- The slice lies within an array. -/
structure Valid (h : Heap α) (s : Slice) : Prop where
  addr_lt : s.addr < h.length
  len_le : s.len ≤ (h.array s).length

/-- `append(s, x)`. -/
def append (h : Heap α) (s : Slice) (x : α) : Heap α × Slice :=
  if s.len < (h.array s).length then
    (h.set s.addr ((h.array s).set s.len x), { s with len := s.len + 1 })
  else (h ++ [h.elems s ++ [x]], ⟨h.length, s.len + 1⟩)

/-- The memory and `kept` after `i` iterations of the loop over `s`. The loop
reads the array as the iterations before have left it. -/
def filterAfter (keep : α → Bool) (h : Heap α) (s : Slice) : Nat → Heap α × Slice
  | 0 => (h, { s with len := 0 })
  | i + 1 =>
      let (h', kept) := filterAfter keep h s i
      match (h'.array s)[i]? with
      | some x => if keep x then h'.append kept x else (h', kept)
      | none => (h', kept)

/-- The whole loop. -/
def filterInPlace (keep : α → Bool) (h : Heap α) (s : Slice) : Heap α × Slice :=
  filterAfter keep h s s.len

/-! ## One iteration -/

section Array

variable {h : Heap α} {s : Slice}

theorem array_set (hs : s.addr < h.length) (a : List α) : array (h.set s.addr a) s = a := by
  simp [array, hs]

/-- With room, `append` writes behind the slice. -/
theorem append_set (hs : s.addr < h.length) {kept rest : List α} {y : α} (x : α) :
    append (h.set s.addr (kept ++ y :: rest)) ⟨s.addr, kept.length⟩ x =
      (h.set s.addr (kept ++ x :: rest), ⟨s.addr, kept.length + 1⟩) := by
  have harray : array (h.set s.addr (kept ++ y :: rest)) ⟨s.addr, kept.length⟩
      = kept ++ y :: rest := array_set hs _
  simp [append, harray]

end Array

/-! ## The loop -/

section Loop

variable {keep : α → Bool} {h : Heap α} {s : Slice}

/-- What the loop has kept of the first `i` elements. -/
def keptOf (keep : α → Bool) (h : Heap α) (s : Slice) (i : Nat) : List α :=
  ((h.array s).take i).filter keep

theorem keptOf_length_le (i : Nat) : (keptOf keep h s i).length ≤ i :=
  (List.length_filter_le _ _).trans (List.length_take_le _ _)

theorem keptOf_succ {i : Nat} {x : α} (hx : (h.array s)[i]? = some x) :
    keptOf keep h s (i + 1) = keptOf keep h s i ++ if keep x then [x] else [] := by
  rw [keptOf, List.take_add_one, hx, List.filter_append]
  cases hkeep : keep x <;> simp [keptOf, hkeep]

/-- **The memory after `i` iterations.** The write position is never ahead of
the read position, so each iteration reads what was there at the start. -/
theorem filterAfter_eq (hs : h.Valid s) {i : Nat} (hi : i ≤ s.len) :
    filterAfter keep h s i =
      (h.set s.addr (keptOf keep h s i ++ (h.array s).drop (keptOf keep h s i).length),
        ⟨s.addr, (keptOf keep h s i).length⟩) := by
  induction i with
  | zero =>
      have hself : h.set s.addr (h.array s) = h := by
        simp [array, hs.addr_lt]
      simp [filterAfter, keptOf, hself]
  | succ i ih =>
      have hlt : i < (h.array s).length := Nat.lt_of_lt_of_le hi hs.len_le
      have hle : (keptOf keep h s i).length ≤ i := keptOf_length_le i
      obtain ⟨x, hx⟩ : ∃ x, (h.array s)[i]? = some x := ⟨_, List.getElem?_eq_getElem hlt⟩
      have hread : (keptOf keep h s i ++ (h.array s).drop (keptOf keep h s i).length)[i]?
          = some x := by
        rw [List.getElem?_append_right hle, List.getElem?_drop, Nat.add_sub_cancel' hle, hx]
      rw [filterAfter, ih (Nat.le_of_succ_le hi), keptOf_succ hx]
      simp only [array_set hs.addr_lt, hread]
      cases hkeep : keep x with
      | false => simp
      | true =>
          -- there is an element at the write position, and it is replaced
          have hdrop := List.drop_eq_getElem_cons (Nat.lt_of_le_of_lt hle hlt)
          rw [hdrop, if_pos rfl, append_set hs.addr_lt]
          simp

/-- **Nothing is overwritten before it is read.** -/
theorem filterAfter_unread (hs : h.Valid s) {i j : Nat} (hi : i ≤ s.len) (hij : i ≤ j) :
    ((filterAfter keep h s i).1.array s)[j]? = (h.array s)[j]? := by
  have hle : (keptOf keep h s i).length ≤ j := (keptOf_length_le i).trans hij
  rw [filterAfter_eq hs hi, array_set hs.addr_lt, List.getElem?_append_right hle,
    List.getElem?_drop, Nat.add_sub_cancel' hle]

/-- **Filtering in place is filtering.** -/
theorem filterInPlace_elems (hs : h.Valid s) :
    (filterInPlace keep h s).1.elems (filterInPlace keep h s).2 = (h.elems s).filter keep := by
  rw [filterInPlace, filterAfter_eq hs (Nat.le_refl _)]
  show (array (h.set s.addr _) s).take _ = _
  rw [array_set hs.addr_lt, List.take_left]
  rfl

theorem filterInPlace_valid (hs : h.Valid s) :
    (filterInPlace keep h s).1.Valid (filterInPlace keep h s).2 := by
  rw [filterInPlace, filterAfter_eq hs (Nat.le_refl _)]
  refine ⟨by simpa using hs.addr_lt, ?_⟩
  show _ ≤ (array (h.set s.addr _) s).length
  rw [array_set hs.addr_lt, List.length_append]
  exact Nat.le_add_right _ _

end Loop

end Heap

end SharedSlice
