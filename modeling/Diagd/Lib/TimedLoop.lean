import Diagd.Lib.Transition

/-!
# TimedLoop — loops that block in a read with a deadline

A turn runs from the top of the loop to a read, blocks there, and runs on
to the top. What a turn observes is its label: the clock at the top, the
time the read returns and whatever was read. Two things are assumed of the
environment, and made part of `step`:

* a read returns by its deadline, or at once if that has passed;
* the loop gets from the return of one read to its next top within `slack`.

`Watched` is the contract of a loop with a watchdog, a time after which it
leaves at the top of a turn and which a read may push forward.
-/

/-- `prepare` is the turn up to the read, `absorb` the rest of it. -/
structure TimedLoop (ε σ τ : Type) where
  now : τ → Int
  returns : τ → Int
  looping : σ → Bool
  prepare : σ → τ → Except ε σ
  deadline : σ → Int
  absorb : σ → τ → Except ε σ

/-- A state of the loop and the time it was reached. -/
structure Timed (σ : Type) where
  state : σ
  clock : Int

namespace TimedLoop

variable {ε σ τ : Type} {L : TimedLoop ε σ τ} {slack : Int}

/-- One turn; not enabled once the loop has been left, and not if it would
panic. -/
def step (L : TimedLoop ε σ τ) (slack : Int) (x : Timed σ) (t : τ) : Option (Timed σ) :=
  if L.looping x.state ∧ x.clock ≤ L.now t ∧ L.now t ≤ x.clock + slack then
    match L.prepare x.state t with
    | .error _ => none
    | .ok u =>
        if L.looping u then
          if L.now t ≤ L.returns t ∧ L.returns t ≤ max (L.now t) (L.deadline u) then
            match L.absorb u t with
            | .error _ => none
            | .ok u' => some ⟨u', L.returns t⟩
          else none
        else some ⟨u, L.now t⟩
  else none

/-- Everything a turn can do. -/
theorem step_cases {x x' : Timed σ} {t : τ} (h : L.step slack x t = some x') :
    L.looping x.state = true ∧ x.clock ≤ L.now t ∧ L.now t ≤ x.clock + slack ∧
      ∃ u, L.prepare x.state t = .ok u ∧
        ((L.looping u = false ∧ x' = ⟨u, L.now t⟩) ∨
          (L.looping u = true ∧ L.now t ≤ L.returns t ∧
            L.returns t ≤ max (L.now t) (L.deadline u) ∧
            ∃ u', L.absorb u t = .ok u' ∧ x' = ⟨u', L.returns t⟩)) := by
  unfold step at h
  split at h
  · rename_i hguard
    refine ⟨hguard.1, hguard.2.1, hguard.2.2, ?_⟩
    split at h
    · cases h
    · rename_i u hu
      refine ⟨u, hu, ?_⟩
      split at h
      · rename_i hloop
        split at h
        · rename_i htime
          split at h
          · cases h
          · rename_i u' hu'
            exact .inr ⟨hloop, htime.1, htime.2, u', hu', (Option.some.inj h).symm⟩
        · cases h
      · rename_i hloop
        exact .inl ⟨Bool.not_eq_true _ ▸ hloop, (Option.some.inj h).symm⟩
  · cases h

/-- The contract of a watchdog that a read sets to `period` after it. -/
structure Watched (L : TimedLoop ε σ τ) (watchdog : σ → Int) (period : Int) : Prop where
  keeps : ∀ u t u', L.prepare u t = .ok u' → watchdog u' = watchdog u
  expires : ∀ u t u', L.prepare u t = .ok u' → L.looping u' = true → L.now t ≤ watchdog u
  deadline_le : ∀ u, L.deadline u ≤ watchdog u
  feeds : ∀ u t u', L.absorb u t = .ok u' →
    watchdog u' = watchdog u ∨ watchdog u' = L.returns t + period
  period_nonneg : 0 ≤ period

/-- **A watchdog that is not pushed past `limit` ends the loop there.** A read
that pushes it further does no harm if the loop is left with it. -/
theorem Watched.begins_le {watchdog : σ → Int} {period limit : Int}
    (h : L.Watched watchdog period) {ts : List τ}
    (hcond : ∀ t ∈ ts, ∀ u u', L.absorb u t = .ok u' → L.looping u' = true →
      watchdog u ≤ limit → watchdog u' ≤ limit)
    {x y : Timed σ} (hrun : Transition.run (L.step slack) x ts = some y)
    (hx : L.looping x.state = true → x.clock ≤ watchdog x.state ∧ watchdog x.state ≤ limit) :
    ∀ t ∈ ts, L.now t ≤ limit + slack := by
  -- invariant: while the loop goes on, the clock has not passed the watchdog
  induction ts generalizing x with
  | nil => exact fun t ht => absurd ht List.not_mem_nil
  | cons t ts ih =>
      obtain ⟨x', hstep, hrest⟩ := Transition.run_cons.mp hrun
      obtain ⟨hloop, -, hlate, u, hprep, hcases⟩ := step_cases hstep
      obtain ⟨hclock, hlimit⟩ := hx hloop
      refine List.forall_mem_cons.mpr ⟨by omega, ih (fun t' ht' =>
        hcond t' (List.mem_cons_of_mem _ ht')) hrest ?_⟩
      have hkeep := h.keeps _ _ _ hprep
      rcases hcases with ⟨hleft, rfl⟩ | ⟨hon, hfrom, hto, u', habs, rfl⟩
      · intro hl
        rw [hleft] at hl
        cases hl
      · intro hl
        have hexp := h.expires _ _ _ hprep hon
        have hdl := h.deadline_le u
        have hper := h.period_nonneg
        have hlim := hcond t List.mem_cons_self u u' habs hl (by omega)
        refine ⟨?_, hlim⟩
        show L.returns t ≤ watchdog u'
        rcases h.feeds _ _ _ habs with he | he <;> rw [he]
        · omega
        · omega

end TimedLoop
