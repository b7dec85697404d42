import Diagd.Udpst.Policing
import Diagd.Udpst.Totals

/-!
# When rate suppression ends

`police` keeps a suppression count that is below duration / subInt. The loop
closes sub-intervals only when it sends a status message, so a sub-interval
takes a whole number of TRIALS (`trialsPerSub`), which may be longer than
`subInt`. On schedule, the sub-intervals closed by the n-th status message
are n / `trialsPerSub`, and the count is reached in time exactly if it fits
the test on that grid. The loop calls `adjust` before it closes a
sub-interval, so `adjust` sees the count one trial later than it is reached:
suppression ends in time exactly if one more trial fits.
-/

namespace Diagd.Udpst

open GoSlice GoStd Transition

/-! ## Sub-intervals on the grid of trials -/

/-- The trials of a sub-interval: the first multiple of `trialInt` for which
`elapsed <= subInt - trialInt/2` fails. -/
def trialsPerSub (subInt trialInt : Int) : Nat :=
  max 1 ((subInt - trialInt.tdiv 2) / trialInt + 1).toNat

theorem trialsPerSub_pos (subInt trialInt : Int) : 0 < trialsPerSub subInt trialInt :=
  Nat.lt_of_lt_of_le Nat.one_pos (Nat.le_max_left _ _)

theorem trialsPerSub_le_iff {subInt trialInt : Int} (hT : 0 < trialInt) {k : Nat} (hk : 1 ≤ k) :
    trialsPerSub subInt trialInt ≤ k ↔ ¬ (k : Int) * trialInt ≤ subInt - trialInt.tdiv 2 := by
  have hdiv := Int.ediv_lt_iff_lt_mul (a := subInt - trialInt.tdiv 2) (b := k) hT
  unfold trialsPerSub
  rw [Int.not_le, ← hdiv]
  generalize (subInt - trialInt.tdiv 2) / trialInt = q
  omega

/-- `maybeRoll` at a status message on schedule, `k` trials after the last
roll. -/
theorem rolls_on_grid {a : RxAccounting} {subInt trialInt now : Int} (hT : 0 < trialInt)
    (hsub : 0 < subInt) {k : Nat} (hk : 1 ≤ k) (hnow : now - a.subStart = k * trialInt) :
    a.rolls now subInt trialInt = decide (trialsPerSub subInt trialInt ≤ k) := by
  have hne : subInt ≠ 0 := by omega
  have hiff : trialsPerSub subInt trialInt ≤ k ↔
      ¬ (k : Int) * trialInt ≤ subInt - trialInt.tdiv 2 := trialsPerSub_le_iff hT hk
  have helapsed : a.rolls now subInt trialInt =
      !decide ((k : Int) * trialInt ≤ subInt - trialInt.tdiv 2) := by
    unfold RxAccounting.rolls
    show (!(decide (0 < subInt) && decide (now - a.subStart ≤ subInt - trialInt.tdiv 2)) &&
      !(decide (a.sub.rxDatagrams = 0) && decide (subInt = 0))) = _
    rw [hnow, decide_eq_true hsub, decide_eq_false hne, Bool.and_false, Bool.true_and,
      Bool.not_false, Bool.and_true]
  rw [helapsed, ← decide_not]
  exact decide_eq_decide.mpr hiff.symm

/-- The next trial completes a sub-interval. -/
theorem succ_eq_of_last {K n : Nat} (h : K ≤ n % K + 1) (hK : 0 < K) :
    n + 1 = K * (n / K + 1) := by
  have hmod := Nat.mod_lt n hK
  have hsplit := Nat.div_add_mod n K
  rw [Nat.mul_add]
  omega

/-- The next trial does not. -/
theorem succ_div_of_not_last {K n : Nat} (h : n % K + 1 < K) : (n + 1) / K = n / K := by
  have hsplit := Nat.div_add_mod n K
  have hn : n + 1 = K * (n / K) + (n % K + 1) := by omega
  rw [hn, Nat.mul_add_div (by omega), Nat.div_eq_of_lt h, Nat.add_zero]

theorem RxAccounting.maybeRoll_sub (a : RxAccounting) (now : Time) (subInt trialInt : Duration) :
    (a.maybeRoll now subInt trialInt).subStart =
        (if a.rolls now subInt trialInt then now else a.subStart) ∧
      (a.maybeRoll now subInt trialInt).subIntSeq =
        if a.rolls now subInt trialInt then a.subIntSeq + 1 else a.subIntSeq := by
  unfold RxAccounting.maybeRoll
  split <;> exact ⟨rfl, rfl⟩

/-! ## Status messages on schedule -/

/-- A status message that is due is sent when it is due. -/
def OnSchedule (x : Timed UpTest) (t : UpTurn) : Prop :=
  x.state.nextStatus ≤ t.now → t.now = x.state.nextStatus

instance (x : Timed UpTest) (t : UpTurn) : Decidable (OnSchedule x t) :=
  inferInstanceAs (Decidable (_ → _))

/-- The schedule and the sub-intervals after `n` status messages. -/
structure UpTest.OnGrid (s : Session) (start : Int) (n : Nat) (u : UpTest) : Prop where
  nextStatus : u.nextStatus = start + (n + 1 : Nat) * s.p.trialInt
  subStart : u.a.subStart = start +
    (trialsPerSub s.p.subInt s.p.trialInt * (n / trialsPerSub s.p.subInt s.p.trialInt) : Nat) *
      s.p.trialInt
  subIntSeq : u.a.subIntSeq = UInt32.ofNat (n / trialsPerSub s.p.subInt s.p.trialInt)
  stopAt : u.stopAt = start + (s.p.duration + 500 * millisecond)

namespace UpTest

variable {srv : Server} {s : Session} {slack : Duration} {start : Int} {n : Nat} {u u' : UpTest}

theorem newUpTest_onGrid : (s.newUpTest srv start).OnGrid s start 0 where
  nextStatus := by
    show (start : Int) + s.p.trialInt = start + (1 : Nat) * s.p.trialInt
    rw [Nat.cast_one, one_mul]
  subStart := by
    show (start : Int) = start + _
    rw [Nat.zero_div, Nat.mul_zero, Nat.cast_zero, zero_mul, add_zero]
  subIntSeq := by
    rw [Nat.zero_div]
    rfl
  stopAt := rfl

theorem OnGrid.reads {m : Nat} (h : u.OnGrid s start n) (hr : u.Reads u' m) :
    u'.OnGrid s start n :=
  ⟨hr.nextStatus.trans h.nextStatus, hr.subStart.trans h.subStart,
    hr.subIntSeq.trans h.subIntSeq, hr.stopAt.trans h.stopAt⟩

/-- The status message `n + 1`. -/
theorem OnGrid.reported (h : u.OnGrid s start n) (hT : 0 < s.p.trialInt)
    (hsub : 0 < s.p.subInt) : (u.reported s u.nextStatus).OnGrid s start (n + 1) := by
  obtain ⟨hnow, hstart, hseq, hstop⟩ := h
  have hKpos := trialsPerSub_pos s.p.subInt s.p.trialInt
  generalize hK : trialsPerSub s.p.subInt s.p.trialInt = K at hstart hseq hKpos
  have hrolls : u.a.rolls u.nextStatus s.p.subInt s.p.trialInt = decide (K ≤ n % K + 1) := by
    rw [← hK]
    refine rolls_on_grid hT hsub (Nat.le_add_left 1 _) ?_
    have hn : n + 1 = K * (n / K) + (n % K + 1) := by
      have hsplit := Nat.div_add_mod n K
      omega
    show (u.nextStatus : Int) - u.a.subStart = _
    rw [hnow, hstart, hn, Nat.cast_add (K * (n / K)), hK]
    ring
  have hnext : u.nextDue s u.nextStatus = u.nextStatus + s.p.trialInt := by
    have hle : u.nextStatus ≤ u.nextStatus + s.p.trialInt :=
      Int.le_add_of_nonneg_right (Int.le_of_lt hT)
    exact if_neg (Int.not_lt.mpr hle)
  obtain ⟨hroll_start, hroll_seq⟩ :=
    u.a.maybeRoll_sub u.nextStatus s.p.subInt s.p.trialInt
  rw [hrolls] at hroll_start hroll_seq
  refine ⟨?_, ?_, ?_, hstop⟩
  · show u.nextDue s u.nextStatus = _
    rw [hnext, hnow]
    show (start + (n + 1 : Nat) * s.p.trialInt + s.p.trialInt : Int) = _
    push_cast
    ring
  · refine hroll_start.trans ?_
    rw [hK]
    by_cases hlast : K ≤ n % K + 1
    · rw [if_pos (decide_eq_true hlast), hnow, succ_eq_of_last hlast hKpos,
        Nat.mul_div_cancel_left _ hKpos]
    · rw [if_neg (by simpa using hlast), succ_div_of_not_last (Nat.not_le.mp hlast)]
      exact hstart
  · refine hroll_seq.trans ?_
    rw [hK]
    by_cases hlast : K ≤ n % K + 1
    · rw [if_pos (decide_eq_true hlast), hseq, succ_eq_of_last hlast hKpos,
        Nat.mul_div_cancel_left _ hKpos, UInt32.ofNat_add]
      rfl
    · rw [if_neg (by simpa using hlast), succ_div_of_not_last (Nat.not_le.mp hlast)]
      exact hseq

/-- What a turn on schedule does to the number of status messages. -/
theorem OnGrid.step {x x' : Timed UpTest} {t : UpTurn} (h : x.state.OnGrid s start n)
    (hT : 0 < s.p.trialInt) (hsub : 0 < s.p.subInt) (hsched : OnSchedule x t)
    (hstep : (upLoop srv s).step slack x t = some x') :
    x'.state.OnGrid s start (n + (x.state.reports t.now).toNat) := by
  rcases upLoop_turn hstep with ⟨hdog, rfl⟩ | ⟨hdog, habs⟩
  · have hrep : x.state.reports t.now = false := by
      rw [UpTest.reports, decide_eq_false (not_le.mpr hdog), Bool.and_false]
    rw [hrep, UpTest.prepared, if_pos hdog]
    exact ⟨h.nextStatus, h.subStart, h.subIntSeq, h.stopAt⟩
  · rw [UpTest.prepared, if_neg (Int.not_lt.mpr hdog)] at habs
    rw [UpTest.reports, decide_eq_true hdog, Bool.and_true]
    have hmark : (x.state.mark t.now).OnGrid s start n :=
      ⟨h.nextStatus, h.subStart, h.subIntSeq, h.stopAt⟩
    by_cases hdue : x.state.nextStatus ≤ t.now
    · rw [if_pos hdue, hsched hdue] at habs
      rw [hsched hdue] at hmark
      rw [decide_eq_true hdue]
      exact (hmark.reported hT hsub).reads (absorb_reads habs)
    · rw [if_neg hdue] at habs
      rw [decide_eq_false hdue]
      exact hmark.reads (absorb_reads habs)

end UpTest

/-! ## The calls of `adjust` -/

/-- The turns of a run that call `adjust`, in the states they are taken in. -/
def adjustCalls (srv : Server) (s : Session) (slack : Duration) (x : Timed UpTest)
    (ts : List UpTurn) : List (Timed UpTest × UpTurn) :=
  (visits ((upLoop srv s).step slack) x ts).filter fun c => c.1.state.reports c.2.now

/-- `rc.adjust(a.trialInput())` is suppressed. -/
def suppressedCall (c : Timed UpTest × UpTurn) : Bool :=
  c.1.state.rc.suppressed c.1.state.a.trialInput

/-- The call after `j` status messages. -/
structure CalledAt (srv : Server) (s : Session) (start : Int) (j : Nat)
    (c : Timed UpTest × UpTurn) : Prop where
  grid : c.1.state.OnGrid s start j
  steered : c.1.state.Steered srv s
  time : c.2.now = start + (j + 1 : Nat) * s.p.trialInt

/-- The state and the calls of `adjust` after `n` status messages. -/
structure CalledOnGrid (srv : Server) (s : Session) (start : Int) (n : Nat) (x : Timed UpTest)
    (calls : List (Timed UpTest × UpTurn)) : Prop where
  grid : x.state.OnGrid s start n
  steered : x.state.Steered srv s
  length : calls.length = n
  calls : ∀ pre c post, calls = pre ++ c :: post → CalledAt srv s start pre.length c

section Calls

variable {srv : Server} {s : Session} {slack : Duration} {start : Int} {n : Nat}

theorem CalledOnGrid.step {x x' : Timed UpTest} {t : UpTurn}
    {calls : List (Timed UpTest × UpTurn)} (hs : Activated srv s)
    (h : CalledOnGrid srv s start n x calls) (hT : 0 < s.p.trialInt) (hsub : 0 < s.p.subInt)
    (hsched : OnSchedule x t) (hstep : (upLoop srv s).step slack x t = some x') :
    CalledOnGrid srv s start (n + (x.state.reports t.now).toNat) x'
      (calls ++ [(x, t)].filter fun c => c.1.state.reports c.2.now) := by
  refine ⟨h.grid.step hT hsub hsched hstep, steered_step hs h.steered hstep, ?_, ?_⟩
  · cases hrep : x.state.reports t.now <;> simp [hrep, h.length]
  · cases hrep : x.state.reports t.now with
    | false => simpa [hrep] using h.calls
    | true =>
        have hnew : ([(x, t)].filter fun c => c.1.state.reports c.2.now) = [(x, t)] :=
          List.filter_cons_of_pos hrep
        intro pre c post hsplit
        rw [hnew] at hsplit
        rcases snoc_split hsplit with ⟨-, rfl, rfl⟩ | ⟨post', -, hold⟩
        · -- a status message that is due is on time
          have hdue : x.state.nextStatus ≤ t.now :=
            of_decide_eq_true (Bool.and_eq_true_iff.mp hrep).1
          rw [h.length]
          exact ⟨h.grid, h.steered, (hsched hdue).trans h.grid.nextStatus⟩
        · exact h.calls pre c post' hold

theorem adjustCalls_onGrid {x y : Timed UpTest} {ts : List UpTurn} (hs : Activated srv s)
    (hx : x.state.OnGrid s start 0) (hsteered : x.state.Steered srv s)
    (hT : 0 < s.p.trialInt) (hsub : 0 < s.p.subInt)
    (hsched : Meets ((upLoop srv s).step slack) OnSchedule x ts)
    (hrun : run ((upLoop srv s).step slack) x ts = some y) :
    ∃ n, CalledOnGrid srv s start n y (adjustCalls srv s slack x ts) := by
  refine run_induction (P := fun ts y => Meets ((upLoop srv s).step slack) OnSchedule x ts →
    ∃ n, CalledOnGrid srv s start n y (adjustCalls srv s slack x ts)) ?_ ?_ hrun hsched
  · intro _
    exact ⟨0, hx, hsteered, rfl, by simp [adjustCalls, visits]⟩
  · intro ts m t m' hprefix ih hstep hsched
    obtain ⟨hbefore, hnow⟩ := meets_append.mp hsched
    obtain ⟨n, hn⟩ := ih hbefore
    rw [adjustCalls, visits_snoc hprefix, List.filter_append]
    exact ⟨_, hn.step hs hT hsub (hnow m hprefix).1 hstep⟩

/-- On the grid, `adjust` is suppressed while too few sub-intervals are
closed. -/
theorem UpTest.OnGrid.suppressed_iff {u : UpTest} (h : u.OnGrid s start n)
    (hsteered : u.Steered srv s) (hn : n < 2 ^ 32) :
    u.a.subIntSeq.toNat = n / trialsPerSub s.p.subInt s.p.trialInt ∧
      (u.rc.suppressed u.a.trialInput = true ↔
        n / trialsPerSub s.p.subInt s.p.trialInt < s.p.srAdjSupp.toNat) := by
  have hseq : u.a.subIntSeq.toNat = n / trialsPerSub s.p.subInt s.p.trialInt := by
    rw [h.subIntSeq, UInt32.toNat_ofNat']
    exact Nat.mod_eq_of_lt (Nat.lt_of_le_of_lt (Nat.div_le_self _ _) hn)
  refine ⟨hseq, ?_⟩
  have hparams : u.rc.srAdjSupp = s.p.srAdjSupp.toUInt32 :=
    congrArg RateParams.srAdjSupp hsteered.params
  unfold RateController.suppressed
  rw [hparams, Bool.and_eq_true_iff, decide_eq_true_iff, decide_eq_true_iff,
    UInt32.lt_iff_toNat_lt, UInt32.lt_iff_toNat_lt, UInt16.toNat_toUInt32, ← hseq]
  show 0 < s.p.srAdjSupp.toNat ∧ u.a.subIntSeq.toNat < s.p.srAdjSupp.toNat ↔ _
  omega

end Calls

/-! ## The end of suppression -/

/-- The suppressed sub-intervals fit the test, at the length they really
have. -/
def TestParams.SuppressionFits (p : TestParams) : Prop :=
  (p.srAdjSupp.toNat * trialsPerSub p.subInt p.trialInt : Nat) * p.trialInt ≤
    p.duration + 500 * millisecond

instance (p : TestParams) : Decidable p.SuppressionFits :=
  inferInstanceAs (Decidable ((_ : Int) ≤ _))

/-- Nothing is suppressed, or one more trial fits: the call of `adjust` in it
is the first that sees the count reached. -/
def TestParams.SuppressionEnds (p : TestParams) : Prop :=
  p.srAdjSupp = 0 ∨
    (p.srAdjSupp.toNat * trialsPerSub p.subInt p.trialInt + 1 : Nat) * p.trialInt ≤
      p.duration + 500 * millisecond

instance (p : TestParams) : Decidable p.SuppressionEnds :=
  inferInstanceAs (Decidable (_ ∨ (_ : Int) ≤ _))

theorem TestParams.SuppressionEnds.fits {p : TestParams} (h : p.SuppressionEnds)
    (hstop : (0 : Int) ≤ p.duration + 500 * millisecond) (hT : (0 : Int) < p.trialInt) :
    p.SuppressionFits := by
  rcases h with hzero | hends
  · rw [TestParams.SuppressionFits, hzero]
    simpa using hstop
  · refine le_trans ?_ hends
    exact Int.mul_le_mul_of_nonneg_right (by push_cast; omega) (Int.le_of_lt hT)

/-- `n` trials end by `stop` and the next one does not. -/
theorem mul_le_iff_of_last {n m : Nat} {trialInt stop : Int} (hT : 0 < trialInt)
    (hle : n * trialInt ≤ stop) (hlt : stop < (n + 1 : Nat) * trialInt) :
    (m : Int) * trialInt ≤ stop ↔ m ≤ n := by
  constructor
  · intro h
    have hmul : (m : Int) * trialInt < (n + 1 : Nat) * trialInt := Int.lt_of_le_of_lt h hlt
    have := Int.lt_of_mul_lt_mul_right hmul (Int.le_of_lt hT)
    omega
  · intro h
    exact (Int.mul_le_mul_of_nonneg_right (by omega) (Int.le_of_lt hT)).trans hle

/-- What policing gives for the schedule of a test. -/
theorem activate_schedule (srv : Server) (s : Session) (req : TestActPDU) (d : Rx) :
    let p := (s.activate srv req d).p
    (5000000 : Int) ≤ p.trialInt ∧ (p.trialInt : Int) ≤ 250000000 ∧ (0 : Int) < p.subInt ∧
      (1000000000 : Int) ≤ p.duration ∧ (p.duration : Int) ≤ 3600000000000 := by
  intro p
  have htrial := policeTrialInt_range req
  have hdur := policeDuration_range srv.cfg req
  have hsub := policeSubInt_range s.pver req hdur.1
  show (5000000 : Int) ≤ policeTrialInt req * 1000000 ∧
    policeTrialInt req * 1000000 ≤ 250000000 ∧
    0 < policeSubInt s.pver req (policeDuration srv.cfg req) * 1000000 ∧
    1000000000 ≤ policeDuration srv.cfg req * 1000000000 ∧
    policeDuration srv.cfg req * 1000000000 ≤ 3600000000000
  omega

/-- `adjust` stops suppressing by `stop`: it is called by then, and neither
that call nor a later one is suppressed. -/
def StopsSuppressing (calls : List (Timed UpTest × UpTurn)) (stop : Time) : Prop :=
  ∃ pre c post, calls = pre ++ c :: post ∧ c.2.now ≤ stop ∧
    ∀ c' ∈ c :: post, suppressedCall c' = false

/-- The last call decides. -/
theorem CalledOnGrid.stops_iff {srv : Server} {s : Session} {start stop : Int} {n : Nat}
    {x : Timed UpTest} {calls : List (Timed UpTest × UpTurn)}
    (h : CalledOnGrid srv s start (n + 1) x calls) (hn : n < 2 ^ 32)
    (hstop : start + (n + 1 : Nat) * s.p.trialInt ≤ stop) :
    StopsSuppressing calls stop ↔
      s.p.srAdjSupp.toNat * trialsPerSub s.p.subInt s.p.trialInt ≤ n := by
  have hlast : ∀ pre c, calls = pre ++ [c] → c.2.now ≤ stop ∧ (suppressedCall c = false ↔
      s.p.srAdjSupp.toNat * trialsPerSub s.p.subInt s.p.trialInt ≤ n) := by
    intro pre c hsplit
    have hlen : pre.length = n := by
      have := h.length
      rw [hsplit, List.length_append, List.length_singleton] at this
      omega
    obtain ⟨hgrid, hsteered, htime⟩ := hlen ▸ h.calls pre c [] hsplit
    refine ⟨htime.trans_le hstop, ?_⟩
    rw [← Bool.not_eq_true, suppressedCall, (hgrid.suppressed_iff hsteered hn).2, not_lt]
    exact Nat.le_div_iff_mul_le (trialsPerSub_pos _ _)
  constructor
  · rintro ⟨pre, c, post, hsplit, -, hfree⟩
    rcases List.eq_nil_or_concat (c :: post) with hnil | ⟨post', c', hconcat⟩
    · cases hnil
    · rw [hconcat, List.concat_eq_append] at hsplit hfree
      have hend := hlast (pre ++ post') c' (by rw [hsplit, List.append_assoc])
      exact hend.2.mp (hfree c' (by simp))
  · intro hfits
    rcases List.eq_nil_or_concat calls with hnil | ⟨pre, c, hconcat⟩
    · rw [hnil] at h
      cases h.length
    · rw [List.concat_eq_append] at hconcat
      obtain ⟨hby, hiff⟩ := hlast pre c hconcat
      refine ⟨pre, c, [], hconcat, hby, ?_⟩
      simpa using hiff.mpr hfits

/-- **Suppression ends inside the test exactly if one trial more than the
suppressed ones fits.** In every run of an activated upstream test with its
status messages on schedule, look at the state when those due by `stopAt` have
been sent. The sub-intervals closed have reached `srAdjSupp` if and only if
`SuppressionFits`; the calls of `adjust` stop being suppressed by `stopAt`, and
both together hold, if and only if `SuppressionEnds`. -/
theorem suppression_ends_iff (srv : Server) (s₀ : Session) (req : TestActPDU) (d : Rx)
    (start : Time) (slack : Duration) {ts : List UpTurn} {y : Timed UpTest} :
    let s := s₀.activate srv req d
    let calls := adjustCalls srv s slack ⟨s.newUpTest srv start, start⟩ ts
    run ((upLoop srv s).step slack) ⟨s.newUpTest srv start, start⟩ ts = some y →
    Meets ((upLoop srv s).step slack) OnSchedule ⟨s.newUpTest srv start, start⟩ ts →
    y.state.nextStatus - s.p.trialInt ≤ y.state.stopAt → y.state.stopAt < y.state.nextStatus →
    (s.p.srAdjSupp.toNat ≤ y.state.a.subIntSeq.toNat ↔ s.p.SuppressionFits) ∧
      (StopsSuppressing calls y.state.stopAt ↔ s.p.SuppressionEnds) ∧
      (s.p.srAdjSupp.toNat ≤ y.state.a.subIntSeq.toNat ∧
        StopsSuppressing calls y.state.stopAt ↔ s.p.SuppressionEnds) := by
  intro s calls hrun hsched hlast hnext
  obtain ⟨hT, hT', hsub, hdur, hdur'⟩ := activate_schedule srv s₀ req d
  change (5000000 : Int) ≤ s.p.trialInt at hT
  change (s.p.trialInt : Int) ≤ 250000000 at hT'
  change (0 : Int) < s.p.subInt at hsub
  change (1000000000 : Int) ≤ s.p.duration at hdur
  change (s.p.duration : Int) ≤ 3600000000000 at hdur'
  have hTpos : (0 : Int) < s.p.trialInt := by omega
  have hs : Activated srv s := ⟨s₀, req, d, rfl⟩
  obtain ⟨n, hcalled⟩ := adjustCalls_onGrid hs UpTest.newUpTest_onGrid
    (newUpTest_steered hs start) hTpos hsub hsched hrun
  have hgrid := hcalled.grid
  change (y.state.nextStatus : Int) - s.p.trialInt ≤ y.state.stopAt at hlast
  change (y.state.stopAt : Int) < y.state.nextStatus at hnext
  rw [hgrid.nextStatus, hgrid.stopAt] at hlast hnext
  have hstop : (500 * millisecond : Int) = 500000000 := rfl
  rw [hstop] at hlast hnext
  have hle : (n : Int) * s.p.trialInt ≤ s.p.duration + 500000000 := by
    push_cast at hlast
    linarith
  have hlt : s.p.duration + 500000000 < (n + 1 : Nat) * s.p.trialInt := by linarith
  -- an hour of trials of 5 ms does not wrap the counter
  have hn : n < 2 ^ 32 := by
    have h5 : (n : Int) * 5000000 ≤ n * s.p.trialInt :=
      Int.mul_le_mul_of_nonneg_left hT (Int.natCast_nonneg n)
    have hsmall : (n : Int) * 5000000 ≤ 3600500000000 := by linarith
    omega
  have hKpos := trialsPerSub_pos s.p.subInt s.p.trialInt
  have hreach : s.p.srAdjSupp.toNat ≤ y.state.a.subIntSeq.toNat ↔ s.p.SuppressionFits := by
    rw [(hgrid.suppressed_iff hcalled.steered hn).1, Nat.le_div_iff_mul_le hKpos]
    exact (mul_le_iff_of_last hTpos hle hlt).symm
  -- a trial of 250 ms ends by 1500 ms, so there is a call
  obtain ⟨m, rfl⟩ : ∃ m, n = m + 1 := by
    cases n with
    | zero =>
        rw [zero_add, Nat.cast_one, one_mul] at hlt
        linarith
    | succ m => exact ⟨m, rfl⟩
  have hends : StopsSuppressing calls y.state.stopAt ↔ s.p.SuppressionEnds := by
    have hby : start + (m + 1 : Nat) * s.p.trialInt ≤ (y.state.stopAt : Int) := by
      rw [hgrid.stopAt, hstop]
      linarith
    rw [hcalled.stops_iff (Nat.lt_of_succ_lt hn) hby, TestParams.SuppressionEnds, hstop,
      mul_le_iff_of_last hTpos hle hlt, Nat.add_le_add_iff_right, ← UInt16.toNat_inj]
    exact ⟨.inr, fun h => h.elim (fun hzero => by rw [hzero]; simp) id⟩
  refine ⟨hreach, hends, ?_⟩
  rw [hreach, hends]
  exact and_iff_right_of_imp fun h => h.fits (by rw [hstop]; omega) hTpos

/-! ### A test of one second with trials of 250 ms -/

/-- The session after a request for sub-intervals of `subMs` milliseconds, the
first `count` of them suppressed. -/
def suppressedSession (subMs count : UInt16) : Session :=
  waitingSession.activate briefServer
    { cmdRequest := cmdTestActUpstream
      srIndexConf := srIndexAuto
      trialInt := 250
      subIntPeriod := subMs
      srAdjSuppCount := count }
    { peer := testPeer, data := [] }

/-- Every status message due by 1500 ms is sent on time, and nothing is read. -/
def scheduledRun : List UpTurn :=
  [timeoutTurn 0 250, timeoutTurn 250 500, timeoutTurn 500 750, timeoutTurn 750 1000,
    timeoutTurn 1000 1250, timeoutTurn 1250 1500, timeoutTurn 1500 1750]

theorem meets_pure {srv : Server} {s : Session} {slack : Duration} (hs : Activated srv s)
    {P : Timed UpTest → UpTurn → Prop} {x : Timed UpTest} (hx : x.state.Steered srv s)
    {ts : List UpTurn} (h : Meets ((upLoopPure srv s).step slack) P x ts) :
    Meets ((upLoop srv s).step slack) P x ts := by
  induction ts generalizing x with
  | nil => trivial
  | cons t ts ih =>
      refine ⟨h.1, fun x' hstep => ih (steered_step hs hx hstep) (h.2 x' ?_)⟩
      rw [← upLoop_step_pure hs hx]
      exact hstep

/-- The states of a run are those of the loop without the table. -/
theorem visits_pure {srv : Server} {s : Session} (slack : Duration) (hs : Activated srv s)
    {x : Timed UpTest} (hx : x.state.Steered srv s) (ts : List UpTurn) :
    visits ((upLoop srv s).step slack) x ts = visits ((upLoopPure srv s).step slack) x ts := by
  induction ts generalizing x with
  | nil => rfl
  | cons t ts ih =>
      rw [visits, visits, ← upLoop_step_pure hs hx]
      cases hstep : (upLoop srv s).step slack x t with
      | none => rfl
      | some x' => exact congrArg _ (ih (steered_step hs hx hstep))

/-- The run exists for either session below, and ends as the theorem asks. -/
theorem scheduledRun_reaches {s : Session} (hs : Activated briefServer s)
    (heval : ((run ((upLoopPure briefServer s).step 0) ⟨s.newUpTest briefServer 0, 0⟩
      scheduledRun).map fun y => decide (y.state.nextStatus - s.p.trialInt ≤ y.state.stopAt ∧
        y.state.stopAt < y.state.nextStatus)) = some true)
    (hsched : Meets ((upLoopPure briefServer s).step 0) OnSchedule
      ⟨s.newUpTest briefServer 0, 0⟩ scheduledRun) :
    ∃ y, run ((upLoop briefServer s).step 0) ⟨s.newUpTest briefServer 0, 0⟩ scheduledRun =
        some y ∧
      Meets ((upLoop briefServer s).step 0) OnSchedule ⟨s.newUpTest briefServer 0, 0⟩
        scheduledRun ∧
      y.state.nextStatus - s.p.trialInt ≤ y.state.stopAt ∧
      y.state.stopAt < y.state.nextStatus := by
  obtain ⟨y, hy, hend⟩ := Option.map_eq_some_iff.mp heval
  obtain ⟨hlast, hnext⟩ := of_decide_eq_true hend
  have hsteered : (Timed.mk (s.newUpTest briefServer 0) 0).state.Steered briefServer s :=
    newUpTest_steered hs 0
  exact ⟨y, (upLoop_run_pure hs hsteered _).trans hy, meets_pure hs hsteered hsched, hlast, hnext⟩

theorem suppression_ends_iff_halfSeconds : ∃ y : Timed UpTest,
    run ((upLoop briefServer (suppressedSession 500 1)).step 0)
        ⟨(suppressedSession 500 1).newUpTest briefServer 0, 0⟩ scheduledRun = some y ∧
      (suppressedSession 500 1).p.srAdjSupp = 1 ∧ 1 ≤ y.state.a.subIntSeq.toNat ∧
      StopsSuppressing (adjustCalls briefServer (suppressedSession 500 1) 0
        ⟨(suppressedSession 500 1).newUpTest briefServer 0, 0⟩ scheduledRun) y.state.stopAt := by
  obtain ⟨y, hrun, hsched, hlast, hnext⟩ := scheduledRun_reaches
    (s := suppressedSession 500 1) ⟨_, _, _, rfl⟩ (by decide +kernel) (by decide +kernel)
  obtain ⟨hreached, hstops⟩ :=
    (suppression_ends_iff briefServer _ _ _ 0 0 hrun hsched hlast hnext).2.2.mpr (by decide +kernel)
  have hone : (suppressedSession 500 1).p.srAdjSupp = 1 := by decide +kernel
  exact ⟨y, hrun, hone, (congrArg UInt16.toNat hone).symm.trans_le hreached, hstops⟩

-- a count of 6 is reached at 1500 ms, after the call of `adjust` there
example : (suppressedSession 100 6).p.SuppressionFits ∧
    ¬(suppressedSession 100 6).p.SuppressionEnds := by
  decide +kernel

/-- **Suppressed to the end.** Policing accepts 9 sub-intervals of 100 ms in
a test of one second, but the loop closes one every 250 ms: 6 by `stopAt`, and
every call of `adjust` is suppressed. -/
theorem suppression_outlasts_test : ∃ y : Timed UpTest,
    let calls := adjustCalls briefServer (suppressedSession 100 9) 0
      ⟨(suppressedSession 100 9).newUpTest briefServer 0, 0⟩ scheduledRun
    run ((upLoop briefServer (suppressedSession 100 9)).step 0)
        ⟨(suppressedSession 100 9).newUpTest briefServer 0, 0⟩ scheduledRun = some y ∧
      Meets ((upLoop briefServer (suppressedSession 100 9)).step 0) OnSchedule
        ⟨(suppressedSession 100 9).newUpTest briefServer 0, 0⟩ scheduledRun ∧
      y.state.stopAt = 1500 * millisecond ∧ y.state.stopAt < y.state.nextStatus ∧
      (suppressedSession 100 9).p.srAdjSupp = 9 ∧ y.state.a.subIntSeq = 6 ∧
      calls.map (fun c => c.2.now) =
        [250 * millisecond, 500 * millisecond, 750 * millisecond, 1000 * millisecond,
          1250 * millisecond, 1500 * millisecond] ∧
      (∀ c ∈ calls, suppressedCall c = true) ∧ ¬StopsSuppressing calls y.state.stopAt := by
  have hs : Activated briefServer (suppressedSession 100 9) := ⟨_, _, _, rfl⟩
  obtain ⟨y, hrun, hsched, -, hnext⟩ := scheduledRun_reaches hs (by decide +kernel)
    (by decide +kernel)
  have hsteered : (Timed.mk ((suppressedSession 100 9).newUpTest briefServer 0) 0).state.Steered
      briefServer (suppressedSession 100 9) := newUpTest_steered hs 0
  have heval : (run ((upLoopPure briefServer (suppressedSession 100 9)).step 0)
      ⟨(suppressedSession 100 9).newUpTest briefServer 0, 0⟩ scheduledRun).map
        (fun y => (y.state.stopAt, y.state.a.subIntSeq)) = some (1500 * millisecond, 6) := by
    decide +kernel
  rw [← upLoop_run_pure hs hsteered, hrun] at heval
  have hpair := Option.some.inj heval
  have hcalls := visits_pure 0 hs hsteered scheduledRun
  have hall : (adjustCalls briefServer (suppressedSession 100 9) 0
      ⟨(suppressedSession 100 9).newUpTest briefServer 0, 0⟩ scheduledRun).all suppressedCall := by
    rw [adjustCalls, hcalls]
    decide +kernel
  refine ⟨y, hrun, hsched, congrArg Prod.fst hpair, hnext, by decide +kernel,
    congrArg Prod.snd hpair, ?_, List.all_eq_true.mp hall, ?_⟩
  · rw [adjustCalls, hcalls]
    decide +kernel
  · rintro ⟨pre, c, post, hsplit, -, hfree⟩
    have hsupp := List.all_eq_true.mp hall c (by rw [hsplit]; simp)
    rw [hfree c List.mem_cons_self] at hsupp
    cases hsupp

end Diagd.Udpst
