import Mathlib

/-!
# Transition — labelled steps and their runs

A system is a function `step : σ → ℓ → Option σ`; a label that is not
enabled gives `none`. A run executes a list of labels. The rules here are
the inductions a development about runs needs: an invariant of every
reachable state, a relation between a run's labels and the state they led
to, and an invariant of the runs whose steps all meet a condition.
-/

namespace Transition

variable {σ ℓ : Type} {step : σ → ℓ → Option σ}

def run (step : σ → ℓ → Option σ) : σ → List ℓ → Option σ
  | s, [] => some s
  | s, l :: ls => (step s l).bind fun s' => run step s' ls

theorem run_cons {s t : σ} {l : ℓ} {ls : List ℓ} :
    run step s (l :: ls) = some t ↔ ∃ s', step s l = some s' ∧ run step s' ls = some t :=
  Option.bind_eq_some_iff

theorem run_append {s t : σ} {ls ls' : List ℓ} :
    run step s (ls ++ ls') = some t ↔
      ∃ s', run step s ls = some s' ∧ run step s' ls' = some t := by
  induction ls generalizing s with
  | nil => simp [run]
  | cons l ls ih => simp [run, Option.bind_eq_some_iff, ih]; tauto

/-- Where an element of a list with one more is: it is the last one, or it was
there before. -/
theorem snoc_split {pre post ls : List ℓ} {x l : ℓ} (h : ls ++ [l] = pre ++ x :: post) :
    (post = [] ∧ ls = pre ∧ l = x) ∨ ∃ post', post = post' ++ [l] ∧ ls = pre ++ x :: post' := by
  rcases List.eq_nil_or_concat post with rfl | ⟨post', l', rfl⟩
  · obtain ⟨hinit, hlast⟩ := List.append_inj' h rfl
    exact .inl ⟨rfl, hinit, List.singleton_inj.mp hlast⟩
  · rw [List.concat_eq_append, ← List.cons_append, ← List.append_assoc] at h
    obtain ⟨hinit, hlast⟩ := List.append_inj' h rfl
    obtain rfl := List.singleton_inj.mp hlast
    exact .inr ⟨post', List.concat_eq_append, hinit⟩

/-- The states some run leads to. -/
def Reachable (step : σ → ℓ → Option σ) (init s : σ) : Prop :=
  ∃ ls, run step init ls = some s

theorem Reachable.run {init s t : σ} {ls : List ℓ} (h : Reachable step init s)
    (hr : Transition.run step s ls = some t) : Reachable step init t := by
  obtain ⟨ls', hs⟩ := h
  exact ⟨ls' ++ ls, run_append.mpr ⟨s, hs, hr⟩⟩

/-- What a step preserves, a run preserves. -/
theorem run_preserves {I : σ → Prop} (hstep : ∀ s l s', I s → step s l = some s' → I s')
    {s t : σ} {ls : List ℓ} (hs : I s) (hr : run step s ls = some t) : I t := by
  induction ls generalizing s with
  | nil => exact Option.some.inj hr ▸ hs
  | cons l ls ih =>
      obtain ⟨s', hl, hr'⟩ := run_cons.mp hr
      exact ih (hstep s l s' hs hl) hr'

/-- **The invariant rule.** -/
theorem Reachable.invariant {I : σ → Prop} {init s : σ} (h : Reachable step init s)
    (h0 : I init) (hstep : ∀ s l s', I s → step s l = some s' → I s') : I s := by
  obtain ⟨ls, hr⟩ := h
  exact run_preserves hstep h0 hr

/-- The invariant rule for a relation between the labels so far and the
state they led to. -/
theorem run_induction {P : List ℓ → σ → Prop} {init s : σ} {ls : List ℓ} (h0 : P [] init)
    (hstep : ∀ ls s l s', run step init ls = some s → P ls s → step s l = some s' →
      P (ls ++ [l]) s')
    (hr : run step init ls = some s) : P ls s := by
  induction ls using List.reverseRecOn generalizing s with
  | nil => exact Option.some.inj hr ▸ h0
  | append_singleton ls l ih =>
      obtain ⟨m, hm, hlast⟩ := run_append.mp hr
      obtain ⟨s', hl, hnil⟩ := run_cons.mp hlast
      exact Option.some.inj hnil ▸ hstep ls m l s' hm (ih hm) hl

/-- The labels of a run, each with the state it is taken in. -/
def visits (step : σ → ℓ → Option σ) : σ → List ℓ → List (σ × ℓ)
  | _, [] => []
  | s, l :: ls =>
      (s, l) :: match step s l with
        | some s' => visits step s' ls
        | none => []

theorem visits_snoc {s t : σ} {ls : List ℓ} (hr : run step s ls = some t) (l : ℓ) :
    visits step s (ls ++ [l]) = visits step s ls ++ [(t, l)] := by
  induction ls generalizing s with
  | nil =>
      obtain rfl := Option.some.inj hr
      rw [List.nil_append, visits, visits]
      cases step s l <;> rfl
  | cons l' ls ih =>
      obtain ⟨s', hl, hr'⟩ := run_cons.mp hr
      simp only [List.cons_append, visits, hl, ih hr']

/-- Every step of the run from `s` meets `P`, a condition on the state before
the step and its label. -/
def Meets (step : σ → ℓ → Option σ) (P : σ → ℓ → Prop) : σ → List ℓ → Prop
  | _, [] => True
  | s, l :: ls => P s l ∧ ∀ s', step s l = some s' → Meets step P s' ls

/-- On a concrete run the condition can be evaluated. -/
instance Meets.decidable {P : σ → ℓ → Prop} [∀ s l, Decidable (P s l)] :
    (s : σ) → (ls : List ℓ) → Decidable (Meets step P s ls)
  | _, [] => .isTrue trivial
  | s, l :: ls =>
      have : Decidable (∀ s', step s l = some s' → Meets step P s' ls) :=
        match step s l with
        | none => .isTrue fun _ h => nomatch h
        | some t =>
            have : Decidable (Meets step P t ls) := Meets.decidable t ls
            decidable_of_iff (Meets step P t ls)
              ⟨fun hm _ h => Option.some.inj h ▸ hm, fun hall => hall t rfl⟩
      inferInstanceAs (Decidable (P s l ∧ ∀ s', step s l = some s' → Meets step P s' ls))

theorem meets_append {P : σ → ℓ → Prop} {s : σ} {ls ls' : List ℓ} :
    Meets step P s (ls ++ ls') ↔
      Meets step P s ls ∧ ∀ s', run step s ls = some s' → Meets step P s' ls' := by
  induction ls generalizing s with
  | nil => simp [Meets, run]
  | cons l ls ih =>
      simp only [List.cons_append, Meets, ih, run_cons]
      exact ⟨fun ⟨hp, h⟩ => ⟨⟨hp, fun t ht => (h t ht).1⟩, fun t ⟨m, hm, hr⟩ => (h m hm).2 t hr⟩,
        fun ⟨⟨hp, h⟩, h'⟩ => ⟨hp, fun t ht => ⟨h t ht, fun m hm => h' m ⟨t, ht, hm⟩⟩⟩⟩

/-- A condition that holds of the labels in every state. -/
theorem meets_of_forall {P : σ → ℓ → Prop} {ls : List ℓ} (h : ∀ l ∈ ls, ∀ s, P s l) (s : σ) :
    Meets step P s ls := by
  induction ls generalizing s with
  | nil => trivial
  | cons l ls ih =>
      exact ⟨h l (by simp) s, fun s' _ => ih (fun l hl => h l (List.mem_cons_of_mem _ hl)) s'⟩

theorem Meets.and {P Q : σ → ℓ → Prop} {s : σ} {ls : List ℓ} (hp : Meets step P s ls)
    (hq : Meets step Q s ls) : Meets step (fun s l => P s l ∧ Q s l) s ls := by
  induction ls generalizing s with
  | nil => trivial
  | cons l ls ih => exact ⟨⟨hp.1, hq.1⟩, fun s' hs' => ih (hp.2 s' hs') (hq.2 s' hs')⟩

/-- The invariant rule for runs whose steps all meet `P`. -/
theorem run_preserves_of_meets {I : σ → Prop} {P : σ → ℓ → Prop}
    (hstep : ∀ s l s', I s → P s l → step s l = some s' → I s')
    {s t : σ} {ls : List ℓ} (hs : I s) (hp : Meets step P s ls)
    (hr : run step s ls = some t) : I t := by
  induction ls generalizing s with
  | nil => exact Option.some.inj hr ▸ hs
  | cons l ls ih =>
      obtain ⟨s', hl, hr'⟩ := run_cons.mp hr
      exact ih (hstep s l s' hs hp.1 hl) (hp.2 s' hl) hr'

end Transition
