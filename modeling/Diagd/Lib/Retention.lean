import Mathlib

/-!
# Retention — a pruned view of an append-only history

A store holds, in order, what is left of everything ever recorded (`all`).
Records are dropped once nobody asks for them any more: `keep` is what is
asked for, and the store has to have all of that. The rules are those of
the ways in which store and history move together; what they give is that a
query for kept records cannot tell the store from the history.
-/

namespace Retention

variable {α : Type} {keep keep' : α → Bool} {held all : List α}

/-- `held` is what is left of `all`, and nothing asked for is missing. -/
structure Retains (keep : α → Bool) (held all : List α) : Prop where
  sublist : held.Sublist all
  missing : ∀ x ∈ all, x ∉ held → keep x = false

theorem retains_nil : Retains keep [] [] := ⟨.slnil, by simp⟩

/-- **The store answers as the history does.** -/
theorem Retains.filter_eq (h : Retains keep held all) (hnodup : all.Nodup) :
    held.filter keep = all.filter keep := by
  obtain ⟨hsub, hmissing⟩ := h
  induction hsub with
  | slnil => rfl
  | @cons held all a hsub ih =>
      obtain ⟨ha, hnodup'⟩ := List.nodup_cons.mp hnodup
      have hdrop : keep a = false :=
        hmissing a List.mem_cons_self fun hin => ha (hsub.subset hin)
      rw [List.filter_cons_of_neg (by rw [hdrop]; decide)]
      exact ih hnodup' fun x hx => hmissing x (List.mem_cons_of_mem a hx)
  | @cons_cons held all a hsub ih =>
      obtain ⟨ha, hnodup'⟩ := List.nodup_cons.mp hnodup
      have hrest : held.filter keep = all.filter keep := by
        apply ih hnodup'
        intro x hx hnot
        apply hmissing x (List.mem_cons_of_mem a hx)
        intro hin
        rcases List.mem_cons.mp hin with rfl | hin
        · exact ha hx
        · exact hnot hin
      rw [List.filter_cons, List.filter_cons, hrest]

/-- A new record. -/
theorem Retains.snoc (h : Retains keep held all) (x : α) :
    Retains keep (held ++ [x]) (all ++ [x]) where
  sublist := h.sublist.append (List.Sublist.refl [x])
  missing := by
    intro y hy hnot
    rw [List.mem_append, not_or] at hnot
    rcases List.mem_append.mp hy with hold | hnew
    · exact h.missing y hold hnot.1
    · exact absurd hnew hnot.2

/-- Records are rewritten in place. -/
theorem Retains.map {f : α → α} (h : Retains keep held all)
    (hf : ∀ x ∈ all, keep x = false → keep' (f x) = false) :
    Retains keep' (held.map f) (all.map f) where
  sublist := h.sublist.map f
  missing := by
    intro y hy hnot
    obtain ⟨x, hx, rfl⟩ := List.mem_map.mp hy
    exact hf x hx (h.missing x hx fun hin => hnot (List.mem_map_of_mem hin))

/-- Less is asked for. -/
theorem Retains.mono (h : Retains keep held all)
    (hkeep : ∀ x ∈ all, keep x = false → keep' x = false) : Retains keep' held all :=
  ⟨h.sublist, fun x hx hnot => hkeep x hx (h.missing x hx hnot)⟩

/-- What is not asked for is dropped. -/
theorem Retains.prune (h : Retains keep held all) : Retains keep (held.filter keep) all where
  sublist := List.filter_sublist.trans h.sublist
  missing := by
    intro x hx hnot
    by_cases hin : x ∈ held
    · simpa [hin] using hnot
    · exact h.missing x hx hin

end Retention
