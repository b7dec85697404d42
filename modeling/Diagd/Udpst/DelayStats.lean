import Diagd.Lib.Windows
import Diagd.Udpst.Conservation
import Diagd.Udpst.Samples

/-!
# The delay figures of trials and sub-intervals

Trials and sub-intervals close at different times, and each set of delay
figures is updated on its own. For any sequence of calls, each trial has the
figures of the samples between two calls of `resetTrial`, each sub-interval
those between two rolls, and each status message those since the last
`resetTrial`: their least, their greatest, their sum and their number.
-/

namespace Diagd.Udpst

open GoStd Windows

/-! ## Figures of a list of samples -/

theorem minDelay_toNat (cur v : UInt32) :
    (RxAccounting.minDelay cur v).toNat = min cur.toNat v.toNat := by
  unfold RxAccounting.minDelay
  split
  · next h =>
      rcases h with rfl | hlt
      · exact (min_eq_right (Nat.le_of_lt_succ v.toNat_lt)).symm
      · exact (min_eq_right (UInt32.lt_iff_toNat_lt.mp hlt).le).symm
  · next h =>
      obtain ⟨-, hle⟩ := not_or.mp h
      exact (min_eq_left (UInt32.le_iff_toNat_le.mp (UInt32.not_lt.mp hle))).symm

theorem maxDelay_toNat (cur v : UInt32) :
    (RxAccounting.maxDelay cur v).toNat = max cur.toNat v.toNat := by
  unfold RxAccounting.maxDelay
  split
  · next hlt => exact (max_eq_right (UInt32.lt_iff_toNat_lt.mp hlt).le).symm
  · next hle => exact (max_eq_left (UInt32.le_iff_toNat_le.mp (UInt32.not_lt.mp hle))).symm

/-- `lo` and `hi` are the extremes of `vs`; with no sample they are
`statusNoDelay` and 0. -/
def Extremes (lo hi : UInt32) (vs : List UInt32) : Prop :=
  Spans statusNoDelay.toNat 0 lo.toNat hi.toNat (vs.map UInt32.toNat)

theorem extremes_nil : Extremes statusNoDelay 0 [] := spans_nil

theorem Extremes.snoc {lo hi : UInt32} {vs : List UInt32} (h : Extremes lo hi vs) (v : UInt32) :
    Extremes (RxAccounting.minDelay lo v) (RxAccounting.maxDelay hi v) (vs ++ [v]) := by
  unfold Extremes
  rw [minDelay_toNat, maxDelay_toNat, List.map_append, List.map_singleton]
  exact Spans.snoc h (Nat.le_of_lt_succ v.toNat_lt) (Nat.zero_le _)

/-- The figures are those of `vs`. The sum and the count are taken modulo
2^32. -/
structure DelayFigures.Of (g : DelayFigures) (vs : List UInt32) : Prop where
  extremes : Extremes g.lo g.hi vs
  sum : g.sum = vs.sum
  cnt : g.cnt = UInt32.ofNat vs.length

theorem DelayFigures.of_nil : DelayFigures.Of ⟨statusNoDelay, 0, 0, 0⟩ [] :=
  ⟨extremes_nil, rfl, rfl⟩

theorem DelayFigures.Of.add {g : DelayFigures} {vs : List UInt32} (h : g.Of vs) (v : UInt32) :
    (g.add v).Of (vs ++ [v]) where
  extremes := h.extremes.snoc v
  sum := by
    show g.sum + v = _
    rw [h.sum, List.sum_append, List.sum_singleton]
  cnt := by
    show g.cnt + 1 = _
    rw [h.cnt, List.length_append, List.length_singleton, UInt32.ofNat_add]
    rfl

variable {xs : List Sample}

theorem DelayFigures.Of.take {g : DelayFigures} (h : g.Of (xs.map Sample.dv))
    (smp : Option Sample) :
    (smp.elim g fun x => g.add x.dv).Of ((xs ++ smp.toList).map Sample.dv) := by
  cases smp with
  | none => simpa using h
  | some x => simpa using h.add x.dv

theorem Extremes.take {g : UInt32 × UInt32} (h : Extremes g.1 g.2 (xs.filterMap Sample.rtt))
    (smp : Option Sample) :
    Extremes (addRtt g (smp.bind Sample.rtt)).1 (addRtt g (smp.bind Sample.rtt)).2
      ((xs ++ smp.toList).filterMap Sample.rtt) := by
  rcases smp with _ | ⟨dv, _ | v⟩
  · simpa [addRtt] using h
  · simpa [addRtt] using h
  · simpa [addRtt] using h.snoc v

theorem getLastD_rtts (smp : Option Sample) (d : UInt32) :
    ((xs ++ smp.toList).filterMap Sample.rtt).getLastD d
      = (smp.bind Sample.rtt).getD ((xs.filterMap Sample.rtt).getLastD d) := by
  rcases smp with _ | ⟨dv, _ | v⟩ <;> simp

/-- The figures of a trial are those of `xs`. -/
def TrialCounters.Measures (c : TrialCounters) (xs : List Sample) : Prop :=
  c.dv.Of (xs.map Sample.dv)

/-- The figures of a sub-interval are those of `xs`. -/
structure SubIntStats.Measures (s : SubIntStats) (xs : List Sample) : Prop where
  delays : s.dv.Of (xs.map Sample.dv)
  rtts : Extremes s.rttVarMin s.rttVarMax (xs.filterMap Sample.rtt)

/-- The delay figures of a status message are those of `xs`. -/
def StatusPDU.Measures (st : StatusPDU) (xs : List Sample) : Prop :=
  DelayFigures.Of ⟨st.delayVarMin, st.delayVarMax, st.delayVarSum, st.delayVarCnt⟩
    (xs.map Sample.dv)

/-! ## The calls of a test -/

/-- The sample of a call, if it is a load PDU that advances the stream. -/
def Books.sampleOf (b : Books) : AcctCall → Option Sample
  | .recordLoad rxTime hdr => b.acct.sampleOf rxTime hdr
  | .maybeRoll _ _ _ | .buildStatus _ _ _ | .resetTrial => none

/-- A call, and the books it was made on. -/
abbrev CallMade := Books × AcctCall

namespace CallMade

def isReset (m : CallMade) : Bool :=
  match m.2 with
  | .resetTrial => true
  | .recordLoad _ _ | .maybeRoll _ _ _ | .buildStatus _ _ _ => false

/-- A call of `maybeRoll` that rolls. -/
def isRoll (m : CallMade) : Bool :=
  match m.2 with
  | .maybeRoll now subInt trialInt => m.1.acct.rolls now subInt trialInt
  | .recordLoad _ _ | .buildStatus _ _ _ | .resetTrial => false

def isStatus (m : CallMade) : Bool :=
  match m.2 with
  | .buildStatus _ _ _ => true
  | .recordLoad _ _ | .maybeRoll _ _ _ | .resetTrial => false

end CallMade

def Books.step (b : Books) (c : AcctCall) : Option Books := some (b.call c)

theorem Books.run_step (b : Books) (calls : List AcctCall) :
    Transition.run Books.step b calls = some (b.run calls) := by
  induction calls generalizing b with
  | nil => rfl
  | cons c calls ih => exact ih (b.call c)

/-- The calls of a test, each with the books it was made on. -/
def callsMade (start : Time) (calls : List AcctCall) : List CallMade :=
  Transition.visits Books.step { acct := newRxAccounting start } calls

theorem callsMade_calls (start : Time) (calls : List AcctCall) :
    (callsMade start calls).map Prod.snd = calls := by
  rw [callsMade]
  generalize ({ acct := newRxAccounting start } : Books) = b
  induction calls generalizing b with
  | nil => rfl
  | cons c calls ih => exact congrArg (c :: ·) (ih (b.call c))

/-- The samples of some of them. -/
def samplesIn (made : List CallMade) : List Sample := made.filterMap fun m => m.1.sampleOf m.2

theorem samplesIn_snoc (made : List CallMade) (m : CallMade) :
    samplesIn (made ++ [m]) = samplesIn made ++ (m.1.sampleOf m.2).toList := by
  rw [samplesIn, List.filterMap_append]
  cases hm : m.1.sampleOf m.2 <;> simp [samplesIn, hm]

/-- What is open has the figures since it was opened, and what was closed or
reported those up to then. -/
structure Books.Measured (b : Books) (made : List CallMade) : Prop where
  trial : b.acct.toTrialCounters.Measures (samplesIn (since CallMade.isReset made))
  sub : b.acct.sub.Measures (samplesIn (since CallMade.isRoll made))
  last : b.acct.rttVarSample = ((samplesIn made).filterMap Sample.rtt).getLastD statusNoDelay
  trials : Recorded CallMade.isReset CallMade.isReset
    (fun c window => c.Measures (samplesIn window)) b.trials made
  rolls : Recorded CallMade.isRoll CallMade.isRoll
    (fun s window => s.Measures (samplesIn window)) (b.rolls.map Prod.snd) made
  statuses : Recorded CallMade.isStatus CallMade.isReset
    (fun st window => st.Measures (samplesIn window)) b.statuses made

namespace Books

variable {b : Books} {made : List CallMade}

theorem measured_new (start : Time) : Measured { acct := newRxAccounting start } [] where
  trial := DelayFigures.of_nil
  sub := ⟨DelayFigures.of_nil, extremes_nil⟩
  last := rfl
  trials := recorded_nil
  rolls := recorded_nil
  statuses := recorded_nil

/-- A call that cuts nothing stays in the window. -/
theorem samplesIn_since {cut : CallMade → Bool} {c : AcctCall} (hcut : cut (b, c) = false) :
    samplesIn (since cut (made ++ [(b, c)]))
      = samplesIn (since cut made) ++ (b.sampleOf c).toList := by
  rw [since_snoc, hcut, if_neg Bool.false_ne_true, samplesIn_snoc]

theorem Measured.recordLoad (h : b.Measured made) (rxTime : Time) (hdr : LoadPDU) :
    (b.call (.recordLoad rxTime hdr)).Measured (made ++ [(b, .recordLoad rxTime hdr)]) := by
  have htakes : Takes b.acct (b.call (.recordLoad rxTime hdr)).acct
      (b.sampleOf (.recordLoad rxTime hdr)) := recordLoad_takes b.acct rxTime hdr
  refine ⟨?_, ?_, ?_, h.trials.skip rfl, h.rolls.skip rfl, h.statuses.skip rfl⟩
  · rw [samplesIn_since rfl, TrialCounters.Measures, htakes.trial]
    exact DelayFigures.Of.take h.trial _
  · rw [samplesIn_since rfl]
    constructor
    · rw [htakes.sub]
      exact h.sub.delays.take _
    · have hrtts := Extremes.take (g := b.acct.sub.rtt) h.sub.rtts
        (b.sampleOf (.recordLoad rxTime hdr))
      rwa [← htakes.rtt] at hrtts
  · rw [samplesIn_snoc, getLastD_rtts, ← h.last]
    exact htakes.last

/-- A call without a sample that cuts nothing. -/
theorem samplesIn_idle {cut : CallMade → Bool} {c : AcctCall} (hcut : cut (b, c) = false)
    (hnone : b.sampleOf c = none) :
    samplesIn (since cut (made ++ [(b, c)])) = samplesIn (since cut made) := by
  rw [samplesIn_since hcut, hnone, Option.toList_none, List.append_nil]

theorem samplesIn_quiet {c : AcctCall} (hnone : b.sampleOf c = none) :
    samplesIn (made ++ [(b, c)]) = samplesIn made := by
  rw [samplesIn_snoc, hnone, Option.toList_none, List.append_nil]

theorem Measured.maybeRoll (h : b.Measured made) (now : Time) (subInt trialInt : Duration) :
    (b.call (.maybeRoll now subInt trialInt)).Measured
      (made ++ [(b, .maybeRoll now subInt trialInt)]) := by
  by_cases hroll : b.acct.rolls now subInt trialInt = true
  · have hcall : b.call (.maybeRoll now subInt trialInt) = { b with
        acct := b.acct.maybeRoll now subInt trialInt
        rolls := b.rolls ++ [(now, b.acct.closeSub now)] } := by
      simp only [call, RxAccounting.maybeRoll, if_pos hroll]
    have hacct : b.acct.maybeRoll now subInt trialInt = _ := if_pos hroll
    rw [hcall, hacct]
    refine ⟨?_, ?_, ?_, h.trials.skip rfl, ?_, h.statuses.skip rfl⟩
    · rw [samplesIn_idle rfl rfl]
      exact h.trial
    · rw [since_snoc, if_pos (show CallMade.isRoll (b, .maybeRoll now subInt trialInt) = true
        from hroll)]
      exact ⟨DelayFigures.of_nil, extremes_nil⟩
    · rw [samplesIn_quiet rfl]
      exact h.last
    · -- the times that closeSub fills in are no figures
      rw [List.map_append]
      exact h.rolls.record hroll ⟨h.sub.delays, h.sub.rtts⟩
  · have hnot : CallMade.isRoll (b, .maybeRoll now subInt trialInt) = false := by
      simpa [CallMade.isRoll] using hroll
    have hsame : b.call (.maybeRoll now subInt trialInt) = b := by
      simp only [call, RxAccounting.maybeRoll, if_neg hroll]
    rw [hsame]
    refine ⟨?_, ?_, ?_, h.trials.skip rfl, h.rolls.skip hnot, h.statuses.skip rfl⟩
    · rw [samplesIn_idle rfl rfl]
      exact h.trial
    · rw [samplesIn_idle hnot rfl]
      exact h.sub
    · rw [samplesIn_quiet rfl]
      exact h.last

theorem Measured.buildStatus (h : b.Measured made) (now lastStatus wall : Time) :
    (b.call (.buildStatus now lastStatus wall)).Measured
      (made ++ [(b, .buildStatus now lastStatus wall)]) := by
  refine ⟨?_, ?_, ?_, h.trials.skip rfl, h.rolls.skip rfl, ?_⟩
  · rw [samplesIn_idle rfl rfl]
    exact h.trial
  · rw [samplesIn_idle rfl rfl]
    exact h.sub
  · rw [samplesIn_quiet rfl]
    exact h.last
  · -- the message reports the active trial
    exact h.statuses.record rfl h.trial

theorem Measured.resetTrial (h : b.Measured made) :
    (b.call .resetTrial).Measured (made ++ [(b, .resetTrial)]) := by
  refine ⟨?_, ?_, ?_, h.trials.record rfl h.trial, h.rolls.skip rfl, h.statuses.skip rfl⟩
  · rw [since_snoc]
    exact DelayFigures.of_nil
  · rw [samplesIn_idle rfl rfl]
    exact h.sub
  · rw [samplesIn_quiet rfl]
    exact h.last

theorem Measured.call (h : b.Measured made) (c : AcctCall) :
    (b.call c).Measured (made ++ [(b, c)]) := by
  cases c with
  | recordLoad rxTime hdr => exact h.recordLoad rxTime hdr
  | maybeRoll now subInt trialInt => exact h.maybeRoll now subInt trialInt
  | buildStatus now lastStatus wall => exact h.buildStatus now lastStatus wall
  | resetTrial => exact h.resetTrial

end Books

theorem bookTest_measured (start : Time) (calls : List AcctCall) :
    (bookTest start calls).Measured (callsMade start calls) := by
  refine Transition.run_induction (P := fun calls b => b.Measured (callsMade start calls)) ?_ ?_
    (Books.run_step _ calls)
  · exact Books.measured_new start
  · intro calls b c b' hrun h hstep
    obtain rfl := Option.some.inj hstep
    rw [callsMade, Transition.visits_snoc hrun]
    exact h.call c

/-- **Trials and sub-intervals measure their own samples.** For every sequence
of calls: each call of `resetTrial` closes a trial with the figures of the
samples since the one before it, each roll closes a sub-interval with those
since the roll before it, each status message has those since the last
`resetTrial`, and what is open has those since it was opened: their least,
their greatest, their sum and their number. The round-trip sample is the
newest of the test, whatever has been closed since. -/
theorem delay_statistics (start : Time) (calls : List AcctCall) :
    let b := bookTest start calls
    let made := callsMade start calls
    made.map Prod.snd = calls ∧
    Recorded CallMade.isReset CallMade.isReset
      (fun c window => c.Measures (samplesIn window)) b.trials made ∧
    b.acct.toTrialCounters.Measures (samplesIn (since CallMade.isReset made)) ∧
    Recorded CallMade.isRoll CallMade.isRoll
      (fun s window => s.Measures (samplesIn window)) (b.rolls.map Prod.snd) made ∧
    b.acct.sub.Measures (samplesIn (since CallMade.isRoll made)) ∧
    Recorded CallMade.isStatus CallMade.isReset
      (fun st window => st.Measures (samplesIn window)) b.statuses made ∧
    b.acct.rttVarSample = ((samplesIn made).filterMap Sample.rtt).getLastD statusNoDelay := by
  intro b made
  have h : b.Measured made := bookTest_measured start calls
  exact ⟨callsMade_calls start calls, h.trials, h.trial, h.rolls, h.sub, h.statuses, h.last⟩

end Diagd.Udpst
