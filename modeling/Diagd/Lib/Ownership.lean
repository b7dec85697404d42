import Mathlib

/-!
# Ownership — a table of records and the parties they belong to

Each of a list of parties owns at most one record of a table, in any order.
The rules are those of the ways in which a party and its record move
together: a party joins without a record, gets one, updates it (the records
are found by a key, which no two share), or does something else.
-/

namespace Ownership

variable {α β κ : Type} {f : α → Option β} {xs : List α} {rs : List β} {i : Nat} {x y : α} {b : β}

/-- The records `rs` are those of the parties `xs`. -/
def Owned (f : α → Option β) (xs : List α) (rs : List β) : Prop := rs.Perm (xs.filterMap f)

theorem owned_nil : Owned f [] [] := .nil

theorem Owned.mem (h : Owned f xs rs) (hx : xs[i]? = some x) (hf : f x = some b) : b ∈ rs :=
  h.mem_iff.mpr (List.mem_filterMap.mpr ⟨x, List.mem_of_getElem? hx, hf⟩)

/-- A party without a record joins. -/
theorem Owned.join (h : Owned f xs rs) (hf : f x = none) : Owned f (xs ++ [x]) rs := by
  rw [Owned, List.filterMap_append, List.filterMap_cons_none hf, List.filterMap_nil, List.append_nil]
  exact h

/-- What a party does besides. -/
theorem Owned.keep (h : Owned f xs rs) (hx : xs[i]? = some x) (hf : f y = f x) :
    Owned f (xs.set i y) rs := by
  refine h.trans (List.Perm.of_eq ?_)
  induction xs generalizing i rs with
  | nil => cases hx
  | cons z xs ih =>
      cases i with
      | zero =>
          cases hx
          rw [List.set_cons_zero, List.filterMap_cons, List.filterMap_cons, hf]
      | succ i =>
          rw [List.set_cons_succ, List.filterMap_cons, List.filterMap_cons, ← ih .rfl hx]

/-- A party gets its record. -/
theorem Owned.create (h : Owned f xs rs) (hx : xs[i]? = some x) (hnone : f x = none)
    (hy : f y = some b) : Owned f (xs.set i y) (rs ++ [b]) := by
  have hset : (b :: xs.filterMap f).Perm ((xs.set i y).filterMap f) := by
    clear h
    induction xs generalizing i with
    | nil => cases hx
    | cons z xs ih =>
        cases i with
        | zero =>
            cases hx
            rw [List.set_cons_zero, List.filterMap_cons_none hnone, List.filterMap_cons_some hy]
        | succ i =>
            rw [List.set_cons_succ]
            cases hz : f z with
            | none =>
                rw [List.filterMap_cons_none hz, List.filterMap_cons_none hz]
                exact ih hx
            | some c =>
                rw [List.filterMap_cons_some hz, List.filterMap_cons_some hz]
                exact (List.Perm.swap c b _).trans ((ih hx).cons c)
  exact (List.perm_append_singleton b rs).trans ((h.cons b).trans hset)

/-- The record with the key `k` is updated. -/
def update [DecidableEq κ] (key : β → κ) (k : κ) (u : β → β) (b : β) : β :=
  if key b = k then u b else b

theorem update_of_ne [DecidableEq κ] {key : β → κ} {k : κ} {u : β → β} (h : key b ≠ k) :
    update key k u b = b := if_neg h

/-- A party updates its record. -/
theorem Owned.modify [DecidableEq κ] {key : β → κ} (h : Owned f xs rs) (hnodup : (rs.map key).Nodup)
    (hx : xs[i]? = some x) (hf : f x = some b) {u : β → β} (hy : f y = some (u b)) :
    Owned f (xs.set i y) (rs.map (update key (key b) u)) := by
  have hnodup' : ((xs.filterMap f).map key).Nodup := (h.map key).nodup_iff.mp hnodup
  refine (h.map _).trans (List.Perm.of_eq ?_)
  clear h hnodup
  induction xs generalizing i with
  | nil => cases hx
  | cons z xs ih =>
      cases i with
      | zero =>
          cases hx
          rw [List.filterMap_cons_some hf, List.map_cons, List.nodup_cons] at hnodup'
          -- the key is no other record's
          have hrest : (xs.filterMap f).map (update key (key b) u) = xs.filterMap f := by
            refine (List.map_congr_left fun c hc => ?_).trans (List.map_id _)
            exact update_of_ne fun heq => hnodup'.1 (heq ▸ List.mem_map_of_mem hc)
          rw [List.set_cons_zero, List.filterMap_cons_some hf, List.filterMap_cons_some hy,
            List.map_cons, hrest, update, if_pos rfl]
      | succ i =>
          rw [List.set_cons_succ]
          cases hz : f z with
          | none =>
              rw [List.filterMap_cons_none hz] at hnodup'
              rw [List.filterMap_cons_none hz, List.filterMap_cons_none hz]
              exact ih hx hnodup'
          | some c =>
              rw [List.filterMap_cons_some hz, List.map_cons, List.nodup_cons] at hnodup'
              have hne : key c ≠ key b := by
                intro heq
                refine hnodup'.1 (heq ▸ List.mem_map_of_mem ?_)
                exact List.mem_filterMap.mpr ⟨x, List.mem_of_getElem? hx, hf⟩
              rw [List.filterMap_cons_some hz, List.filterMap_cons_some hz, List.map_cons,
                update_of_ne hne, ih hx hnodup'.2]

end Ownership
