import Diagd.Udpst.RateSearch
import Diagd.Udpst.TestDuration

/-!
# Trial intervals without data

An interval in which no load PDU is recorded gives the search no loss, no
delay sum and no CE count, because `resetTrial` has cleared them. It does
give it a round-trip sample: `resetTrial` leaves `rttVarSample` as the last
load PDU set it, however long ago that was. When the search goes by round-trip
time, the interval is therefore judged by that OLD sample, and `Settled` lists
the cases in which the index stays where it is nevertheless.
-/

namespace Diagd.Udpst

open GoSlice GoStd Transition

/-! ## When a judgement moves the index -/

/-- What policing guarantees beyond `Sound`: thresholds in order, a real
high-speed step, an error threshold that no errors meet. -/
structure RateParams.Policed (p : RateParams) : Prop where
  sound : p.Sound
  delta_pos : 1 ≤ p.highSpeedDelta
  seqErrThresh_nonneg : 0 ≤ p.seqErrThresh
  thresh_le : p.lowThresh ≤ p.upperThresh

namespace RateController

variable {rc : RateController}

/-- Algorithm C waits out every other fast raise. -/
def Pausing (rc : RateController) : Prop :=
  0 < rc.index ∧ rc.index * 2 ≤ rc.table.highSpeedThresh ∧
    rc.slowAdjCount < rc.slowAdjThresh ∧ rc.update = false

theorem goodB_index_iff (hp : rc.Policed) (hi : rc.table.HasRow rc.index) :
    (rc.goodB rc.table.highSpeedThresh rc.maxIdx).index = rc.index ↔ rc.index = rc.maxIdx := by
  have hd := hp.delta_pos
  have hhst := hp.sound.hst_lt
  have hrow := hi.2
  unfold goodB raiseFast maxIdx
  split_ifs with hfast hclip hup
  · exact ⟨fun h => by simp only at h; omega, fun h => by omega⟩
  · exact ⟨fun h => by simp only at h; omega, fun h => by omega⟩
  · exact ⟨fun h => by simp only at h; omega, fun h => by omega⟩
  · exact ⟨fun _ => by omega, fun _ => rfl⟩

theorem backoff_eq_iff (hp : rc.Policed) (hi : rc.table.HasRow rc.index) :
    rc.backoff = rc.index ↔ rc.index = 0 := by
  have hd := hp.delta_pos
  have hlow := hi.1
  unfold backoff
  split <;> omega

theorem badB_index_iff (hp : rc.Policed) (hi : rc.table.HasRow rc.index) :
    (rc.badB rc.table.highSpeedThresh).index = rc.index ↔ rc.index = 0 := by
  have hlow := hi.1
  unfold badB
  split_ifs with hback hdown
  · exact backoff_eq_iff hp hi
  · exact ⟨fun h => by simp only at h; omega, fun h => by omega⟩
  · exact ⟨fun _ => by omega, fun _ => rfl⟩

theorem raiseDouble_eq_iff (hi : rc.table.HasRow rc.index)
    (hfast : rc.index < rc.table.highSpeedThresh) :
    (rc.raiseDouble rc.table.highSpeedThresh).1 = rc.index ↔
      0 < rc.index ∧ rc.index * 2 ≤ rc.table.highSpeedThresh ∧ rc.update = false := by
  have hlow := hi.1
  cases hu : rc.update <;> simp only [raiseDouble, hu] <;> split_ifs <;> simp_all <;> omega

theorem raiseSlow_index_iff (hi : rc.table.HasRow rc.index) :
    (rc.raiseSlow rc.maxIdx).index = rc.index ↔ rc.index = rc.maxIdx := by
  have hrow := hi.2
  have hindex : (rc.raiseSlow rc.maxIdx).index =
      if rc.index < rc.maxIdx then rc.index + 1 else rc.index := by
    simp only [raiseSlow, apply_ite index, ite_self]
  rw [hindex]
  unfold maxIdx
  split <;> omega

theorem goodC_index_iff (hp : rc.Policed) (hi : rc.table.HasRow rc.index) :
    (rc.goodC rc.table.highSpeedThresh rc.maxIdx).index = rc.index ↔
      rc.index = rc.maxIdx ∨ rc.Pausing := by
  have hhst := hp.sound.hst_lt
  have hpos := hp.sound.hst_pos
  unfold goodC
  split
  · rename_i hfast
    have hbelow : rc.index ≠ rc.maxIdx := by
      unfold maxIdx
      omega
    show (rc.raiseDouble rc.table.highSpeedThresh).1 = rc.index ↔ _
    rw [raiseDouble_eq_iff hi hfast.1]
    exact ⟨fun h => .inr ⟨h.1, h.2.1, hfast.2, h.2.2⟩,
      fun h => (h.resolve_left hbelow).elim fun h1 h2 => ⟨h1, h2.1, h2.2.2⟩⟩
  · rename_i hslow
    rw [raiseSlow_index_iff hi]
    refine ⟨.inl, fun h => h.resolve_right fun ⟨h1, h2, h3, _⟩ => hslow ⟨by omega, h3⟩⟩

theorem badC_index_iff (hp : rc.Policed) (hi : rc.table.HasRow rc.index) :
    (rc.badC rc.table.highSpeedThresh).index = rc.index ↔ rc.index = 0 := by
  have hlow := hi.1
  unfold badC
  split_ifs with hback hdown
  · exact backoff_eq_iff hp hi
  · exact ⟨fun h => by simp only at h; omega, fun h => by omega⟩
  · exact ⟨fun h => by simp only at h; omega, fun h => by omega⟩
  · exact ⟨fun _ => by omega, fun _ => rfl⟩

/-- The judgement as a whole: what leaves the index alone. -/
theorem judged_index_iff (hp : rc.Policed) (hi : rc.table.HasRow rc.index) {good bad : Bool}
    (hexcl : good = true → bad = false) :
    (if rc.algo = 1 then rc.adjustAlgoC good bad rc.table.highSpeedThresh rc.maxIdx
      else rc.adjustAlgoB good bad rc.table.highSpeedThresh rc.maxIdx).index = rc.index ↔
      (good = true → rc.index = rc.maxIdx ∨ rc.algo = 1 ∧ rc.Pausing) ∧
        (bad = true → rc.index = 0) := by
  -- algorithm C works on the controller after `initRetry`, which differs in no field used here
  have hinit : rc.initRetry.Policed := ⟨hp.sound, hp.delta_pos, hp.seqErrThresh_nonneg, hp.thresh_le⟩
  have hgoodC : (rc.initRetry.goodC rc.table.highSpeedThresh rc.maxIdx).index = rc.index ↔
      rc.index = rc.maxIdx ∨ rc.Pausing := goodC_index_iff hinit hi
  have hbadC : (rc.initRetry.badC rc.table.highSpeedThresh).index = rc.index ↔ rc.index = 0 :=
    badC_index_iff hinit hi
  unfold adjustAlgoB adjustAlgoC
  by_cases halgo : rc.algo = 1
  · rw [if_pos halgo]
    cases good with
    | true => simp [hexcl rfl, halgo, hgoodC]
    | false =>
        cases bad with
        | true => simp [hbadC]
        | false => simp [initRetry]
  · rw [if_neg halgo]
    cases good with
    | true => simp [hexcl rfl, halgo, goodB_index_iff hp hi]
    | false =>
        cases bad with
        | true => simp [badB_index_iff hp hi]
        | false => simp

/-! ## Judging an interval without data -/

/-- A trial input in which nothing was received. -/
structure NoData (inp : TrialInput) : Prop where
  loss : inp.seqErrLoss = 0
  ooo : inp.seqErrOoo = 0
  dup : inp.seqErrDup = 0
  delayCnt : inp.delayVarCnt = 0
  ce : inp.ceCount = 0

/-- The index stays: because there is no sample to judge by, because changes
are suppressed, because the sample is between the thresholds, or because it
is already as far as the judgement would take it. -/
def Settled (rc : RateController) (inp : TrialInput) : Prop :=
  rc.useOwDelVar = true ∨ inp.rttVarSample = statusNoDelay ∨ rc.suppressed inp = true ∨
    (((inp.rttVarSample.toNat : Int) < rc.lowThresh →
        rc.index = rc.maxIdx ∨ rc.algo = 1 ∧ rc.Pausing) ∧
      (rc.upperThresh < inp.rttVarSample.toNat → rc.index = 0))

variable {inp : TrialInput}

theorem NoData.seqerr (h : NoData inp) : rc.seqerr inp = 0 := by
  unfold RateController.seqerr
  rw [h.loss, h.ooo, h.dup]
  split <;> rfl

theorem NoData.cethresh (h : NoData inp) : rc.cethresh inp = false := by
  unfold RateController.cethresh
  rw [h.ce, if_neg fun hc => absurd hc.2 (by decide)]

theorem NoData.good (h : NoData inp) (hp : rc.Policed) :
    rc.good inp = decide (rc.delay inp < rc.lowThresh) := by
  rw [RateController.good, h.seqerr, h.cethresh, decide_eq_true hp.seqErrThresh_nonneg,
    Bool.true_and, Bool.not_false, Bool.and_true]

theorem NoData.bad (h : NoData inp) (hp : rc.Policed) :
    rc.bad inp = decide (rc.upperThresh < rc.delay inp) := by
  rw [RateController.bad, h.seqerr, h.cethresh,
    decide_eq_false (Int.not_lt.mpr hp.seqErrThresh_nonneg), Bool.false_or, Bool.or_false]

/-- Without data the delay is the old sample, or the neutral threshold. -/
theorem NoData.delay (h : NoData inp) :
    rc.delay inp = if rc.useOwDelVar = true ∨ inp.rttVarSample = statusNoDelay then rc.lowThresh
      else (inp.rttVarSample.toNat : Int) := by
  unfold RateController.delay
  rw [h.delayCnt, if_neg (by decide : ¬ (0 : UInt32) < 0)]
  by_cases how : rc.useOwDelVar = true
  · rw [if_pos how, if_pos (.inl how)]
  · rw [if_neg how]
    by_cases hs : inp.rttVarSample = statusNoDelay
    · rw [if_neg (not_not.mpr hs), if_pos (.inr hs)]
    · rw [if_pos hs, if_neg (not_or.mpr ⟨how, hs⟩)]

/-- **What an interval without data does.** -/
theorem adjust_noData_iff (h : NoData inp) (hp : rc.Policed) (hi : rc.table.HasRow rc.index)
    (hsearch : rc.isStatic = false) : (rc.adjust inp).index = rc.index ↔ rc.Settled inp := by
  unfold adjust Settled
  by_cases hsupp : rc.suppressed inp = true
  · simp [hsupp, hsearch]
  rw [if_neg hsupp, if_neg (by rw [hsearch]; decide),
    judged_index_iff hp hi (by
      rw [h.good hp, h.bad hp, decide_eq_true_eq, decide_eq_false_iff_not]
      have hle := hp.thresh_le
      omega),
    h.good hp, h.bad hp, h.delay]
  by_cases hnone : rc.useOwDelVar = true ∨ inp.rttVarSample = statusNoDelay
  · have hle := hp.thresh_le
    rw [if_pos hnone, ← or_assoc]
    refine iff_of_true ⟨fun hc => ?_, fun hc => ?_⟩ (.inl hnone) <;>
      simp only [decide_eq_true_eq] at hc <;> omega
  · rw [if_neg hnone, ← or_assoc, or_iff_right hnone, or_iff_right hsupp, decide_eq_true_eq,
      decide_eq_true_eq]

end RateController

/-! ## The controller of an upstream test -/

/-- `s` is as some activation request left it. -/
def Activated (srv : Server) (s : Session) : Prop :=
  ∃ (s₀ : Session) (req : TestActPDU) (d : Rx), s = s₀.activate srv req d

variable {srv : Server} {s : Session} {slack : Duration}

theorem Activated.policed (hs : Activated srv s) : (s.newRateController srv).Policed := by
  obtain ⟨s₀, req, d, rfl⟩ := hs
  refine ⟨newRateController_sound req, ?_, Int.natCast_nonneg _, ?_⟩
  · show 1 ≤ (if req.highSpeedDelta.toNat < 1 then 10 else (req.highSpeedDelta.toNat : Int))
    split <;> omega
  · show (policeThresholds req).1 ≤ (policeThresholds req).2
    simp only [policeThresholds]
    split_ifs <;> simp only <;> omega

/-- The controller is one of session `s`, at a row of the table. -/
structure UpTest.Steered (srv : Server) (s : Session) (u : UpTest) : Prop where
  params : u.rc.toRateParams = (s.newRateController srv).toRateParams
  row : u.rc.table.HasRow u.rc.index

theorem newUpTest_steered (hs : Activated srv s) (start : Time) :
    (s.newUpTest srv start).Steered srv s := by
  obtain ⟨s₀, req, d, rfl⟩ := hs
  exact ⟨rfl, initialIndex_activate_bounds req⟩

theorem UpTest.Steered.policed {u : UpTest} (h : u.Steered srv s) (hs : Activated srv s) :
    u.rc.Policed := by
  rw [h.params]
  exact hs.policed

/-! ## Quiet turns -/

/-- The turn reads no load PDU of the test. -/
def UpTurn.quiet (s : Session) (t : UpTurn) : Bool :=
  match t.read with
  | .batch _ msgs => (UpTest.loads s msgs).isEmpty
  | _ => true

theorem UpTurn.accounting_of_quiet {t : UpTurn} (h : t.quiet s = true)
    {u u' : UpTest} (habs : u.absorb s t.read = .ok u') : u'.a = u.a := by
  unfold UpTurn.quiet at h
  cases hr : t.read with
  | timeout r =>
      rw [hr] at habs
      cases habs
      rfl
  | failed r =>
      rw [hr] at habs
      cases habs
      rfl
  | batch rxNow msgs =>
      simp only [hr, List.isEmpty_iff] at h
      rw [hr, UpTest.absorb, UpTest.receive_eq, h] at habs
      cases habs
      rfl

/-- A turn is `prepared` and then, unless the watchdog has expired, a read. -/
theorem upLoop_turn {x x' : Timed UpTest} {t : UpTurn}
    (h : (upLoop srv s).step slack x t = some x') :
    (x.state.watchdog < t.now ∧ x' = ⟨x.state.prepared s t.now, t.now⟩) ∨
      (t.now ≤ x.state.watchdog ∧ (x.state.prepared s t.now).absorb s t.read = .ok x'.state) := by
  obtain ⟨hloop, -, -, u, hprep, hcases⟩ := TimedLoop.step_cases h
  obtain ⟨sent, hp⟩ := upLoop_prepare hprep
  obtain rfl := UpTest.prepare_prepared hp
  by_cases hdog : x.state.watchdog < t.now
  · refine .inl ⟨hdog, ?_⟩
    have hleft : (x.state.prepared s t.now).looping = false := by
      rw [UpTest.prepared, if_pos hdog]
      rfl
    rcases hcases with ⟨-, hx⟩ | ⟨hon, -⟩
    · exact hx
    · cases hleft.symm.trans hon
  · refine .inr ⟨Int.not_lt.mp hdog, ?_⟩
    -- neither `mark` nor `reported` leaves the loop
    have hon : (x.state.prepared s t.now).looping = true := by
      rw [UpTest.prepared, if_neg hdog]
      split <;> exact hloop
    rcases hcases with ⟨hleft, -⟩ | ⟨-, -, -, u', habs, rfl⟩
    · cases hleft.symm.trans hon
    · exact habs

/-- What one turn does to the controller and, if it is quiet, to the
accounting. -/
theorem upLoop_step {x x' : Timed UpTest} {t : UpTurn}
    (h : (upLoop srv s).step slack x t = some x') :
    x'.state.rc = (if x.state.reports t.now then x.state.rc.adjust x.state.a.trialInput
      else x.state.rc) ∧
      (t.quiet s = true → x'.state.a = if x.state.reports t.now
        then (x.state.rolledUp s t.now).resetTrial else x.state.a) := by
  obtain ⟨hrc, hacc⟩ := UpTest.prepared_parts s x.state t.now
  rcases upLoop_turn h with ⟨-, rfl⟩ | ⟨-, habs⟩
  · exact ⟨hrc, fun _ => hacc⟩
  · exact ⟨(UpTest.absorb_rc habs).trans hrc,
      fun hq => (UpTurn.accounting_of_quiet hq habs).trans hacc⟩

theorem steered_step (hs : Activated srv s) {x x' : Timed UpTest} {t : UpTurn}
    (hx : x.state.Steered srv s)
    (h : (upLoop srv s).step slack x t = some x') :
    x'.state.Steered srv s := by
  have hrc := (upLoop_step h).1
  by_cases hrep : x.state.reports t.now = true
  · rw [if_pos hrep] at hrc
    refine ⟨?_, ?_⟩ <;> rw [hrc, RateController.adjust_params]
    · exact hx.params
    · exact RateController.adjust_hasRow (hx.policed hs).sound hx.row _
  · rw [if_neg hrep] at hrc
    refine ⟨?_, ?_⟩ <;> rw [hrc]
    · exact hx.params
    · exact hx.row

theorem steered_run (hs : Activated srv s) {x y : Timed UpTest} {ts : List UpTurn}
    (hx : x.state.Steered srv s) (hrun : run ((upLoop srv s).step slack) x ts = some y) :
    y.state.Steered srv s :=
  run_preserves (I := fun x => x.state.Steered srv s)
    (fun _ _ _ hx hstep => steered_step hs hx hstep) hx hrun

/-- A quiet turn leaves cleared trial counters cleared; one that reports
clears them. -/
theorem cleared_step {x x' : Timed UpTest} {t : UpTurn}
    (h : (upLoop srv s).step slack x t = some x') (hq : t.quiet s = true)
    (hx : x.state.reports t.now = true ∨ x.state.a.toTrialCounters = {}) :
    x'.state.a.toTrialCounters = {} := by
  rw [(upLoop_step h).2 hq]
  split
  · rfl
  · exact hx.resolve_left ‹_›

theorem cleared_run {x y : Timed UpTest} {ts : List UpTurn}
    (hrun : run ((upLoop srv s).step slack) x ts = some y) (hq : ∀ t ∈ ts, t.quiet s = true)
    (hx : x.state.a.toTrialCounters = {}) : y.state.a.toTrialCounters = {} :=
  run_preserves_of_meets (fun _ _ _ hx hq hs => cleared_step hs hq (.inr hx)) hx
    (meets_of_forall (P := fun _ t => t.quiet s = true) (fun t ht _ => hq t ht) x) hrun

/-! ## The loop never panics -/

theorem UpTest.Steered.prepare_eq {u : UpTest} (h : u.Steered srv s) (hs : Activated srv s)
    (now wall : Time) :
    ∃ sent, u.prepare srv s now wall = .ok (u.prepared s now, sent) := by
  unfold UpTest.prepare UpTest.prepared
  split
  · exact ⟨none, rfl⟩
  · split
    · have htable : u.rc.table = srv.table :=
        congrArg RateParams.table h.params
      have hrow : srv.table.HasRow (u.rc.adjust u.a.trialInput).index := by
        rw [← htable]
        exact RateController.adjust_hasRow (h.policed hs).sound h.row _
      obtain ⟨row, -, hget⟩ := element_ok hrow.1 hrow.2
      obtain ⟨pdu, hpdu, -⟩ := statusPDU_marshal_ok
        ((u.mark now).status s ((u.mark now).rolledUp s now) row now wall)
      refine ⟨some pdu, ?_⟩
      have hget' : element srv.table.rows
          ((u.mark now).rc.adjust (u.mark now).a.trialInput).index = .ok row := hget
      rw [UpTest.report, hget', ok_bind, hpdu]
      rfl
    · exact ⟨none, rfl⟩

/-- The upstream loop without its table lookups. -/
def upLoopPure (srv : Server) (s : Session) : TimedLoop Panic UpTest UpTurn :=
  { upLoop srv s with prepare := fun u t => .ok (u.prepared s t.now) }

theorem upLoop_step_pure (hs : Activated srv s) {x : Timed UpTest}
    (hx : x.state.Steered srv s) (t : UpTurn) :
    (upLoop srv s).step slack x t =
      (upLoopPure srv s).step slack x t := by
  obtain ⟨sent, hp⟩ := hx.prepare_eq hs t.now t.wall
  have hprep : (upLoop srv s).prepare x.state t =
      (upLoopPure srv s).prepare x.state t := by
    show Prod.fst <$> x.state.prepare srv _ t.now t.wall = _
    rw [hp]
    rfl
  rw [TimedLoop.step, hprep]
  rfl

/-- **An upstream test never panics**, whatever arrives: its turns are those
of the loop that cannot. -/
theorem upLoop_run_pure (hs : Activated srv s) {x : Timed UpTest}
    (hx : x.state.Steered srv s) (ts : List UpTurn) :
    run ((upLoop srv s).step slack) x ts =
      run ((upLoopPure srv s).step slack) x ts := by
  induction ts generalizing x with
  | nil => rfl
  | cons t ts ih =>
      rw [run, run, ← upLoop_step_pure hs hx]
      rcases hstep : (upLoop srv s).step slack x t with _ | x'
      · rfl
      · exact ih (steered_step hs hx hstep)

/-! ## Intervals without data -/

/-- **No data means no change, exactly when `Settled`.** From any state an
upstream test in search mode can reach, turn `t₀` reports and so clears the
trial counters, it and the turns `ts` read no load PDU, and turn `t` reports
again: the index it leaves is the one it found if and only if the old
round-trip sample does not call for another. -/
theorem quiet_interval_iff (hs : Activated srv s) {start : Time} {x x₁ x₂ x₃ : Timed UpTest}
    {t₀ t : UpTurn} {ts : List UpTurn}
    (hsearch : s.p.srIndexConf < 0 ∨
      s.p.indexIsStart = true)
    (hreach : Transition.Reachable ((upLoop srv s).step slack)
      ⟨s.newUpTest srv start, start⟩ x)
    (hclear : (upLoop srv s).step slack x t₀ = some x₁)
    (hclears : x.state.reports t₀.now = true)
    (hrun : run ((upLoop srv s).step slack) x₁ ts = some x₂)
    (hquiet : ∀ t' ∈ t₀ :: ts, t'.quiet s = true)
    (hstep : (upLoop srv s).step slack x₂ t = some x₃)
    (hreports : x₂.state.reports t.now = true) :
    x₃.state.rc.index = x₂.state.rc.index ↔ x₂.state.rc.Settled x₂.state.a.trialInput := by
  have hsteered : x₂.state.Steered srv s := by
    obtain ⟨ls, hls⟩ := hreach.run (run_cons.mpr ⟨x₁, hclear, hrun⟩)
    exact steered_run hs (newUpTest_steered hs start) hls
  have hcleared : x₂.state.a.toTrialCounters = {} :=
    cleared_run hrun (fun t' ht' => hquiet t' (List.mem_cons_of_mem _ ht'))
      (cleared_step hclear (hquiet t₀ List.mem_cons_self) (.inl hclears))
  have hnodata : RateController.NoData x₂.state.a.trialInput := by
    refine ⟨?_, ?_, ?_, ?_, ?_⟩ <;> simp only [RxAccounting.trialInput, hcleared]
  have hstatic : x₂.state.rc.isStatic = false := by
    have hconf : x₂.state.rc.srIndexConf = s.p.srIndexConf :=
      congrArg RateParams.srIndexConf hsteered.params
    have hstart : x₂.state.rc.indexIsStart = s.p.indexIsStart :=
      congrArg RateParams.indexIsStart hsteered.params
    unfold RateController.isStatic
    rw [hconf, hstart]
    rcases hsearch with hneg | hst
    · rw [decide_eq_false (Int.not_le.mpr hneg), Bool.false_and]
    · rw [hst, Bool.not_true, Bool.and_false]
  rw [(upLoop_step hstep).1, if_pos hreports]
  exact RateController.adjust_noData_iff hnodata (hsteered.policed hs) hsteered.row hstatic

/-! ### A client that falls silent -/

def searchServer : Server := newServer {}

/-- An activation request for a search by round-trip time, with rate changes
suppressed during the first sub-interval of 100 ms. -/
def searchRequest : TestActPDU where
  cmdRequest := cmdTestActUpstream
  srIndexConf := srIndexAuto
  subIntPeriod := 100
  srAdjSuppCount := 1

/-- The session before its activation. -/
def waitingSession : Session where
  port := 5000
  setupPeer := testPeer
  pver := protocolVer
  authMode := 0
  keys := none
  legacyKey := none
  bwMbps := 0
  bwUpstream := true

def searchSession : Session :=
  waitingSession.activate searchServer searchRequest { peer := testPeer, data := [] }

theorem searchSession_activated : Activated searchServer searchSession := ⟨_, _, _, rfl⟩

def searchStart : Timed UpTest := ⟨searchSession.newUpTest searchServer 0, 0⟩

/-- A load PDU that echoes the status message sent at 50 ms. -/
def echoingLoad : Msg where
  addr := some testPeer
  data := encodeBE 2 pduIDLoad.toNat ++ [testActionTest, 0] ++ encodeBE 4 1 ++
    encodeBE 2 1000 ++ encodeBE 2 0 ++ encodeBE 4 0 ++ encodeBE 4 50000000 ++
    encodeBE 4 0 ++ encodeBE 4 60000000 ++ encodeBE 2 0 ++ [0, 0]

/-- A turn that ends in a timeout, times in milliseconds. -/
def timeoutTurn (now until_ : Int) : UpTurn where
  now := now * millisecond
  wall := now * millisecond
  read := .timeout (until_ * millisecond)

/-- The only load PDU is read at 60 ms. -/
def silentRun : List UpTurn :=
  [timeoutTurn 0 50,
    { now := 50 * millisecond
      wall := 50 * millisecond
      read := .batch (60 * millisecond) [echoingLoad] },
    timeoutTurn 60 100]

/-- The states around the interval from 100 ms to 150 ms. -/
theorem silentRun_reaches : ∃ x x₁ x₂,
    run ((upLoop searchServer searchSession).step 0) searchStart silentRun = some x ∧
      (upLoop searchServer searchSession).step 0 x (timeoutTurn 100 150) = some x₁ ∧
      x.state.reports (timeoutTurn 100 150).now = true ∧
      (upLoop searchServer searchSession).step 0 x₁ (timeoutTurn 150 200) = some x₂ ∧
      x₁.state.reports (timeoutTurn 150 200).now = true ∧
      x₁.state.rc = searchSession.newRateController searchServer ∧
      x₁.state.a.trialInput = { rttVarSample := 0, subIntSeqNo := 1 } := by
  have hs := searchSession_activated
  have hsteered : searchStart.state.Steered searchServer searchSession :=
    newUpTest_steered hs 0
  have heval : ((run ((upLoopPure searchServer searchSession).step 0) searchStart
      silentRun).bind fun x =>
        ((upLoopPure searchServer searchSession).step 0 x (timeoutTurn 100 150)).bind fun x₁ =>
          ((upLoopPure searchServer searchSession).step 0 x₁ (timeoutTurn 150 200)).map fun _ =>
            decide (x.state.reports (timeoutTurn 100 150).now = true ∧
              x₁.state.reports (timeoutTurn 150 200).now = true ∧
              x₁.state.rc.index = 0 ∧ x₁.state.rc.slowAdjCount = 0 ∧
              x₁.state.rc.retryCount = 0 ∧ x₁.state.rc.retryThresh = 0 ∧
              x₁.state.rc.update = false ∧
              x₁.state.a.trialInput = { rttVarSample := 0, subIntSeqNo := 1 }))
        = some true := by
    decide +kernel
  obtain ⟨x, hx, heval⟩ := Option.bind_eq_some_iff.mp heval
  obtain ⟨x₁, hx₁, heval⟩ := Option.bind_eq_some_iff.mp heval
  obtain ⟨x₂, hx₂, heval⟩ := Option.map_eq_some_iff.mp heval
  obtain ⟨hrep, hrep₁, hindex, hslow, hretry, hthresh, hupdate, hinput⟩ :=
    of_decide_eq_true heval
  -- the run without lookups is the run of the server
  have hrun : run ((upLoop searchServer searchSession).step 0) searchStart silentRun = some x :=
    (upLoop_run_pure hs hsteered silentRun).trans hx
  have hx' : x.state.Steered searchServer searchSession := steered_run hs hsteered hrun
  have hstep : (upLoop searchServer searchSession).step 0 x (timeoutTurn 100 150) = some x₁ :=
    (upLoop_step_pure hs hx' _).trans hx₁
  have hstep₁ : (upLoop searchServer searchSession).step 0 x₁ (timeoutTurn 150 200) = some x₂ :=
    (upLoop_step_pure hs (steered_step hs hx' hstep) _).trans hx₂
  have hrc : x₁.state.rc = searchSession.newRateController searchServer := by
    have hparams := (steered_step hs hx' hstep).params
    generalize x₁.state.rc = rc at hindex hslow hretry hthresh hupdate hparams
    obtain ⟨p, i, c, r, t, b⟩ := rc
    simp only at hindex hslow hretry hthresh hupdate hparams
    subst hindex hslow hretry hthresh hupdate hparams
    rfl
  exact ⟨x, x₁, x₂, hrun, hstep, hrep, hstep₁, hrep₁, hrc, hinput⟩

theorem quiet_interval_silentRun : ∃ x₁ x₂ : Timed UpTest,
    Transition.Reachable ((upLoop searchServer searchSession).step 0) searchStart x₁ ∧
      (x₂.state.rc.index = x₁.state.rc.index ↔
        x₁.state.rc.Settled x₁.state.a.trialInput) := by
  obtain ⟨x, x₁, x₂, hrun, hstep, hrep, hstep₁, hrep₁, -⟩ := silentRun_reaches
  have hclear : run ((upLoop searchServer searchSession).step 0) x [timeoutTurn 100 150] =
      some x₁ := run_cons.mpr ⟨x₁, hstep, rfl⟩
  have hnone : run ((upLoop searchServer searchSession).step 0) x₁ [] = some x₁ := rfl
  exact ⟨x₁, x₂, Transition.Reachable.run ⟨_, hrun⟩ hclear,
    quiet_interval_iff searchSession_activated (.inl (by decide)) ⟨_, hrun⟩ hstep hrep hnone
      (by decide) hstep₁ hrep₁⟩

/-- **The index rises while the client is silent.** Nothing is read after
60 ms. The report at 150 ms closes an interval without data, and its adjust
leaves row 0 because the sample of 60 ms is still below the threshold. -/
theorem quiet_interval_moves : ∃ x x₁ x₂ : Timed UpTest,
    searchSession.p.srIndexConf < 0 ∧
      Transition.Reachable ((upLoop searchServer searchSession).step 0) searchStart x ∧
      (upLoop searchServer searchSession).step 0 x (timeoutTurn 100 150) = some x₁ ∧
      x.state.reports (timeoutTurn 100 150).now = true ∧
      (timeoutTurn 100 150).quiet searchSession = true ∧
      (upLoop searchServer searchSession).step 0 x₁ (timeoutTurn 150 200) = some x₂ ∧
      x₁.state.reports (timeoutTurn 150 200).now = true ∧
      x₁.state.rc.index = 0 ∧ x₂.state.rc.index = 10 := by
  obtain ⟨x, x₁, x₂, hrun, hstep, hrep, hstep₁, hrep₁, hrc, hinput⟩ := silentRun_reaches
  have hindex : x₁.state.rc.index = 0 := by
    rw [hrc]
    decide
  refine ⟨x, x₁, x₂, by decide, ⟨_, hrun⟩, hstep, hrep, rfl, hstep₁, hrep₁, hindex, ?_⟩
  have hhst : (searchSession.newRateController searchServer).table.highSpeedThresh = 1000 :=
    searchServer.highSpeedThresh_eq
  -- neither suppressed nor static, algorithm B, and judged good by the old sample
  rw [(upLoop_step hstep₁).1, if_pos hrep₁, hrc, hinput, RateController.adjust,
    if_neg (by decide +kernel), if_neg (by decide +kernel), if_neg (by decide +kernel),
    RateController.adjustAlgoB, if_pos (by decide +kernel), hhst]
  decide +kernel

end Diagd.Udpst
