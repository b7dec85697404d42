import Diagd.Udpst.Policing
import Diagd.Udpst.RoundTrip
import Diagd.Udpst.Totals

/-!
# The status messages of an upstream test

What `runUpstream` puts on the wire, over the whole test: the state of the
loop with the datagrams it has sent (`UpStream`). The other level is a reader
of those messages (`StatusReader`), who knows how the test was set up and
nothing else. It checks number, time, action and rate row of each message and
repeats the search from the figures the messages carry. Every run of the loop
sends what the reader expects, and the reader ends with the loop's controller
and totals: the messages tell everything the test decides.
-/

namespace Diagd.Udpst

open GoSlice GoStd Transition

/-! ## The loop and its messages -/

/-- The loop, the time its last read returned, and the datagrams sent, each
with the time at the top of its turn. -/
structure UpStream where
  u : UpTest
  clock : Time
  sent : List (Time × Bytes) := []
  crashed : Option Panic := none
  deriving DecidableEq, Repr

namespace UpStream

def init (srv : Server) (s : Session) (start : Time) : UpStream where
  u := s.newUpTest srv start
  clock := start

def step (srv : Server) (s : Session) (x : UpStream) (t : UpTurn) : Option UpStream :=
  if x.crashed = none ∧ x.u.looping = true ∧ x.clock ≤ t.now ∧ t.now ≤ t.read.returns then
    match x.u.turn srv s t with
    | .error e => some { x with crashed := some e }
    | .ok (u, sent) =>
        some { u := u, clock := t.read.returns
               sent := x.sent ++ (sent.map fun b => (t.now, b)).toList }
  else none

end UpStream

/-! ## The reader -/

/-- What can be told from the messages so far: the search they repeat, the
numbers of the last message and of its sub-interval, its time, the earliest
time of the next one, and the totals. -/
structure StatusReader where
  rc : RateController
  seqNo : UInt32 := 0
  subIntSeqNo : UInt32 := 0
  last : Time
  due : Time
  stopAt : Time
  totalLoss : UInt64 := 0
  totalDG : UInt64 := 0

namespace StatusReader

def init (srv : Server) (s : Session) (start : Time) : StatusReader where
  rc := s.newRateController srv
  last := start
  due := start + s.p.trialInt
  stopAt := start + (s.p.duration + 500 * millisecond)

/-- The search goes by the sub-interval the PREVIOUS message named: the loop
adjusts before it rolls. -/
def input (r : StatusReader) (st : StatusPDU) : TrialInput :=
  { st.trialInput with subIntSeqNo := r.subIntSeqNo }

/-- The message at time `m.1` is the one to be expected. -/
def expects (r : StatusReader) (m : Time × StatusPDU) : Prop :=
  r.due ≤ m.1 ∧ m.2.seqNo = r.seqNo + 1 ∧
    m.2.testAction = (if r.stopAt < m.1 then testActionStop2 else testActionTest) ∧
    m.2.tiDeltaTime = UInt32.ofInt (Duration.microseconds (m.1 - r.last)) ∧
    0 ≤ (r.rc.adjust (r.input m.2)).index ∧
    r.rc.table.rows[(r.rc.adjust (r.input m.2)).index.toNat]? = some m.2.sr

instance (r : StatusReader) (m : Time × StatusPDU) : Decidable (r.expects m) :=
  inferInstanceAs (Decidable (_ ∧ _ ∧ _ ∧ _ ∧ _ ∧ _))

def read (r : StatusReader) (trialInt : Duration) (m : Time × StatusPDU) : StatusReader :=
  { r with
    rc := r.rc.adjust (r.input m.2)
    seqNo := m.2.seqNo
    subIntSeqNo := m.2.subIntSeqNo
    last := m.1
    due := r.due + trialInt
    totalLoss := r.totalLoss + m.2.seqErrLoss.toUInt64
    totalDG := r.totalDG + m.2.tiRxDatagrams.toUInt64 }

def step (trialInt : Duration) (r : StatusReader) (m : Time × StatusPDU) : Option StatusReader :=
  if r.expects m then some (r.read trialInt m) else none

end StatusReader

/-- A datagram is the message, at its time. -/
def Decodes (p : Time × Bytes) (m : Time × StatusPDU) : Prop :=
  p.1 = m.1 ∧ parseStatus p.2 = .ok (.ok m.2)

/-! ## What a read leaves alone -/

namespace UpTest

/-- Reading load PDUs changes neither the schedule, the totals nor what the
next message is made of besides the counters. -/
structure Quiet (u u' : UpTest) : Prop where
  rc : u'.rc = u.rc
  statusSeq : u'.statusSeq = u.statusSeq
  subIntSeq : u'.a.subIntSeq = u.a.subIntSeq
  lastStatus : u'.lastStatus = u.lastStatus
  nextStatus : u'.nextStatus = u.nextStatus
  stopAt : u'.stopAt = u.stopAt
  stopping : u'.stopping = u.stopping
  totalLoss : u'.totalLoss = u.totalLoss
  totalDG : u'.totalDG = u.totalDG
  ce : u'.a.tCE = u.a.tCE

theorem Quiet.refl (u : UpTest) : u.Quiet u := ⟨rfl, rfl, rfl, rfl, rfl, rfl, rfl, rfl, rfl, rfl⟩

/-- Leaving the loop. -/
theorem quiet_leave (u : UpTest) : u.Quiet { u with running := false } :=
  ⟨rfl, rfl, rfl, rfl, rfl, rfl, rfl, rfl, rfl, rfl⟩

theorem Quiet.trans {u u₁ u₂ : UpTest} (h : u.Quiet u₁) (h' : u₁.Quiet u₂) : u.Quiet u₂ where
  rc := h'.rc.trans h.rc
  statusSeq := h'.statusSeq.trans h.statusSeq
  subIntSeq := h'.subIntSeq.trans h.subIntSeq
  lastStatus := h'.lastStatus.trans h.lastStatus
  nextStatus := h'.nextStatus.trans h.nextStatus
  stopAt := h'.stopAt.trans h.stopAt
  stopping := h'.stopping.trans h.stopping
  totalLoss := h'.totalLoss.trans h.totalLoss
  totalDG := h'.totalDG.trans h.totalDG
  ce := h'.ce.trans h.ce

/-- No load PDU is counted as marked. -/
theorem recordLoad_ce (a : RxAccounting) (rxNow : Time) (hdr : LoadPDU) :
    (a.recordLoad rxNow hdr).tCE = a.tCE := by
  unfold RxAccounting.recordLoad RxAccounting.recordSeq
  split_ifs
  · show (RxAccounting.recordRtt _ rxNow hdr).tCE = _
    unfold RxAccounting.recordRtt RxAccounting.recordClockDelta
    split_ifs <;> rfl
  · rfl
  · rfl

theorem accept_quiet (u : UpTest) (rxNow : Time) (hdr : LoadPDU) : u.Quiet (u.accept rxNow hdr) := by
  obtain ⟨k, hgains⟩ := u.a.recordLoad_gains rxNow hdr
  exact ⟨rfl, rfl, hgains.subIntSeq, rfl, rfl, rfl, rfl, rfl, rfl, recordLoad_ce u.a rxNow hdr⟩

theorem foldl_accept_quiet (rxNow : Time) (hdrs : List LoadPDU) (u : UpTest) :
    u.Quiet (hdrs.foldl (fun u hdr => u.accept rxNow hdr) u) := by
  induction hdrs generalizing u with
  | nil => exact .refl u
  | cons hdr hdrs ih => exact (u.accept_quiet rxNow hdr).trans (ih _)

theorem absorb_quiet (s : Session) (u : UpTest) (r : BatchRead) :
    ∃ u', u.absorb s r = .ok u' ∧ u.Quiet u' := by
  cases r with
  | timeout t => exact ⟨u, rfl, .refl u⟩
  | failed t => exact ⟨_, rfl, u.quiet_leave⟩
  | batch rxNow msgs => exact ⟨_, receive_eq s rxNow msgs u, foldl_accept_quiet rxNow _ u⟩

end UpTest

/-! ## One message -/

variable {srv : Server} {s : Session} {u u' : UpTest} {now wall : Time}

/-- Closing a sub-interval leaves the trial alone. -/
theorem rolledUp_trial (s : Session) (u : UpTest) (now : Time) :
    (u.rolledUp s now).toTrialCounters = u.a.toTrialCounters ∧
      (u.rolledUp s now).rttVarSample = u.a.rttVarSample := by
  unfold UpTest.rolledUp RxAccounting.maybeRoll
  split <;> exact ⟨rfl, rfl⟩

/-- The message of a trial, as it is looked up and marshalled. -/
theorem UpTest.Steered.report_eq (h : u.Steered srv s) (hs : Activated srv s) (now wall : Time) :
    ∃ row b, 0 ≤ (u.rc.adjust u.a.trialInput).index ∧
      u.rc.table.rows[(u.rc.adjust u.a.trialInput).index.toNat]? = some row ∧
      (u.status s (u.rolledUp s now) row now wall).marshal = .ok b ∧
      u.report srv s now wall = .ok (u.reported s now, b) := by
  have htable : u.rc.table = srv.table := congrArg RateParams.table h.params
  have hrow := RateController.adjust_hasRow (h.policed hs).sound h.row u.a.trialInput
  obtain ⟨row, -, hget⟩ := element_ok hrow.1 hrow.2
  obtain ⟨b, hb, -⟩ := statusPDU_marshal_ok (u.status s (u.rolledUp s now) row now wall)
  obtain ⟨hlow, hsome⟩ := getElem?_of_element hget
  refine ⟨row, b, hlow, hsome, hb, ?_⟩
  rw [UpTest.report, ← htable, hget, ok_bind, hb]
  rfl

/-- What is on the wire decodes to the message, in the legacy layout without
the fields of version 20. -/
theorem status_decodes {st : StatusPDU} (h : st.InRange) {b : Bytes} (hb : st.marshal = .ok b) :
    ∃ st', parseStatus b = .ok (.ok st') ∧ (st' = st ∨ st' = st.toLegacy) := by
  cases hl : st.legacy with
  | true =>
      have hsame : { st with legacy := true } = st := by rw [← hl]
      have hdec := legacy_status_decodes h
      rw [hsame, hb] at hdec
      exact ⟨_, hdec, .inr rfl⟩
  | false =>
      have hdec := status_inverse.decode_encode st ⟨h, hl⟩
      rw [hb] at hdec
      exact ⟨_, hdec, .inl rfl⟩

/-- The reader is where the loop is. -/
structure StatusReader.Matches (r : StatusReader) (u : UpTest) (clock : Time) : Prop where
  rc : r.rc = u.rc
  seqNo : r.seqNo = u.statusSeq
  subIntSeqNo : r.subIntSeqNo = u.a.subIntSeq
  last : r.last = u.lastStatus
  due : r.due ≤ u.nextStatus
  stopAt : r.stopAt = u.stopAt
  stopping : u.stopping = true → u.stopAt < clock
  totalLoss : r.totalLoss = u.totalLoss
  totalDG : r.totalDG = u.totalDG
  ce : u.a.tCE = 0

namespace StatusReader.Matches

variable {r : StatusReader} {clock : Time}

theorem quiet (h : r.Matches u clock) (hq : u.Quiet u') {clock' : Time} (hle : clock ≤ clock') :
    r.Matches u' clock' where
  rc := h.rc.trans hq.rc.symm
  seqNo := h.seqNo.trans hq.statusSeq.symm
  subIntSeqNo := h.subIntSeqNo.trans hq.subIntSeq.symm
  last := h.last.trans hq.lastStatus.symm
  due := h.due.trans_eq hq.nextStatus.symm
  stopAt := h.stopAt.trans hq.stopAt.symm
  stopping := by
    rw [hq.stopping, hq.stopAt]
    exact fun hstop => (h.stopping hstop).trans_le hle
  totalLoss := h.totalLoss.trans hq.totalLoss.symm
  totalDG := h.totalDG.trans hq.totalDG.symm
  ce := hq.ce.trans h.ce

/-- `if !stopping && now.After(stopAt)`: past the end of the test, and never
before it. -/
theorem mark (h : r.Matches u clock) (hle : clock ≤ now) :
    r.Matches (u.mark now) now ∧ (u.mark now).stopping = decide (u.stopAt < now) := by
  have hstop : (u.mark now).stopping = decide (u.stopAt < now) := by
    show (u.stopping || decide (u.stopAt < now)) = _
    cases hs : u.stopping with
    | false => exact Bool.false_or _
    | true => rw [Bool.true_or, decide_eq_true ((h.stopping hs).trans_le hle)]
  refine ⟨⟨h.rc, h.seqNo, h.subIntSeqNo, h.last, h.due, h.stopAt, ?_, h.totalLoss, h.totalDG,
    h.ce⟩, hstop⟩
  rw [hstop]
  exact of_decide_eq_true

/-- The figures of a message are those the loop went by. -/
theorem input_eq (h : r.Matches u clock) {st : StatusPDU} {row : Rate}
    (hst : st = u.status s (u.rolledUp s now) row now wall ∨
      st = (u.status s (u.rolledUp s now) row now wall).toLegacy) :
    r.input st = u.a.trialInput := by
  obtain ⟨htrial, hrtt⟩ := rolledUp_trial s u now
  have hce : u.a.tCE = 0 := h.ce
  rcases hst with rfl | rfl <;>
    simp only [StatusReader.input, StatusPDU.trialInput, StatusPDU.toLegacy, UpTest.status,
      RxAccounting.buildStatus, RxAccounting.trialInput, htrial, hrtt, h.subIntSeqNo, hce]

/-- The message of a trial is the one the reader expects, and both go on. -/
theorem report (h : r.Matches u now) (hstop : u.stopping = decide (u.stopAt < now))
    (hdue : u.nextStatus ≤ now) {st : StatusPDU} {row : Rate}
    (hlow : 0 ≤ (u.rc.adjust u.a.trialInput).index)
    (hrow : u.rc.table.rows[(u.rc.adjust u.a.trialInput).index.toNat]? = some row)
    (hst : st = u.status s (u.rolledUp s now) row now wall ∨
      st = (u.status s (u.rolledUp s now) row now wall).toLegacy) :
    r.expects (now, st) ∧ (r.read s.p.trialInt (now, st)).Matches (u.reported s now) now := by
  have hinput := h.input_eq hst
  have hsame : st.seqNo = u.statusSeq + 1 ∧ st.sr = row ∧
      st.testAction = (if u.stopping then testActionStop2 else testActionTest) ∧
      st.tiDeltaTime = UInt32.ofInt (Duration.microseconds (now - u.lastStatus)) ∧
      st.subIntSeqNo = (u.rolledUp s now).subIntSeq ∧
      st.seqErrLoss = (u.rolledUp s now).tLoss ∧
      st.tiRxDatagrams = (u.rolledUp s now).tRxDatagrams := by
    rcases hst with rfl | rfl <;> exact ⟨rfl, rfl, rfl, rfl, rfl, rfl, rfl⟩
  obtain ⟨hseq, hsr, haction, hdelta, hsub, hloss, hdg⟩ := hsame
  refine ⟨⟨h.due.trans hdue, ?_, ?_, ?_, ?_, ?_⟩, ?_, ?_, hsub, rfl, ?_, h.stopAt, h.stopping, ?_, ?_,
    rfl⟩
  · rw [hseq, h.seqNo]
  · rw [haction, hstop, h.stopAt]
    simp only [decide_eq_true_eq]
  · rw [hdelta, h.last]
  · rw [hinput, h.rc]
    exact hlow
  · rw [hinput, h.rc, hsr]
    exact hrow
  · show r.rc.adjust (r.input st) = u.rc.adjust u.a.trialInput
    rw [hinput, h.rc]
  · exact hseq
  · -- late messages move the schedule on, never back
    have hnext : (r.due + s.p.trialInt : Int) ≤ u.nextStatus + s.p.trialInt :=
      Int.add_le_add_right h.due _
    show (r.due + s.p.trialInt : Int) ≤
      if u.nextStatus + s.p.trialInt < now then now + s.p.trialInt else u.nextStatus + s.p.trialInt
    split
    · exact hnext.trans (Int.add_le_add_right hdue _)
    · exact hnext
  · show r.totalLoss + st.seqErrLoss.toUInt64 = u.totalLoss + _
    rw [h.totalLoss, hloss]
  · show r.totalDG + st.tiRxDatagrams.toUInt64 = u.totalDG + _
    rw [h.totalDG, hdg]

end StatusReader.Matches

/-! ## Whole tests -/

theorem status_inRange (s : Session) (u : UpTest) (a : RxAccounting) (row : Rate) (now wall : Time) :
    (u.status s a row now wall).InRange := by
  refine ⟨?_, ?_⟩
  · show (if u.stopping then testActionStop2 else testActionTest) ≤ testActionStop2
    split <;> decide
  · show boolByte _ ≤ 1
    unfold boolByte
    split <;> decide

/-- The reader has read the messages sent, and is where the loop is. -/
structure Told (srv : Server) (s : Session) (start : Time) (x : UpStream) : Prop where
  safe : x.crashed = none
  steered : x.u.Steered srv s
  told : ∃ msgs r, List.Forall₂ Decodes x.sent msgs ∧
    run (StatusReader.step s.p.trialInt) (StatusReader.init srv s start) msgs = some r ∧
    r.Matches x.u x.clock

theorem told_init (hs : Activated srv s) (start : Time) :
    Told srv s start (UpStream.init srv s start) where
  safe := rfl
  steered := newUpTest_steered hs start
  told := ⟨[], _, .nil, rfl, rfl, rfl, rfl, rfl, le_refl _, rfl, nofun, rfl, rfl, rfl⟩

/-- From the top of the loop to the end of the turn. -/
theorem turn_of_prepare {v : UpTest} {sent : Option Bytes} {t : UpTurn}
    (hp : u.prepare srv s t.now t.wall = .ok (v, sent)) :
    ∃ u', v.Quiet u' ∧ u.turn srv s t = .ok (u', sent) := by
  unfold UpTest.turn
  rw [hp, ok_bind]
  by_cases hrun : v.running = true
  · obtain ⟨u', habs, hquiet⟩ := v.absorb_quiet s t.read
    exact ⟨u', hquiet, by simp only [hrun, if_true, habs, ok_bind]; rfl⟩
  · exact ⟨v, .refl v, by simp only [hrun]; rfl⟩

theorem UpTest.Steered.congr (h : u.Steered srv s) (hrc : u'.rc = u.rc) : u'.Steered srv s := by
  refine ⟨?_, ?_⟩ <;> rw [hrc]
  · exact h.params
  · exact h.row

theorem UpTest.Steered.adjusted (h : u.Steered srv s) (hs : Activated srv s) {inp : TrialInput}
    (hrc : u'.rc = u.rc.adjust inp) : u'.Steered srv s := by
  refine ⟨?_, ?_⟩ <;> rw [hrc, RateController.adjust_params]
  · exact h.params
  · exact RateController.adjust_hasRow (h.policed hs).sound h.row _

/-- The top of a turn: with a message that the reader expects, or without
one. -/
theorem prepare_told (hs : Activated srv s) (hu : u.Steered srv s) {r : StatusReader} {clock : Time}
    (h : r.Matches u clock) (hclock : clock ≤ now) (wall : Time) :
    ∃ v, v.Steered srv s ∧
      ((u.prepare srv s now wall = .ok (v, none) ∧ r.Matches v now) ∨
        ∃ b st, u.prepare srv s now wall = .ok (v, some b) ∧ parseStatus b = .ok (.ok st) ∧
          r.expects (now, st) ∧ (r.read s.p.trialInt (now, st)).Matches v now) := by
  obtain ⟨hmark, hstop⟩ := h.mark hclock
  unfold UpTest.prepare
  by_cases hdog : u.watchdog < now
  · exact ⟨{ u with running := false }, hu.congr rfl,
      .inl ⟨if_pos hdog, h.quiet u.quiet_leave hclock⟩⟩
  · rw [if_neg hdog]
    by_cases hdue : u.nextStatus ≤ now
    · rw [if_pos hdue]
      have hmarked : (u.mark now).Steered srv s := hu.congr rfl
      obtain ⟨row, b, hlow, hrow, hb, hreport⟩ := hmarked.report_eq hs now wall
      obtain ⟨st, hparse, hst⟩ := status_decodes (status_inRange s _ _ row now wall) hb
      obtain ⟨hexpects, hmatches⟩ := hmark.report hstop hdue hlow hrow hst
      refine ⟨_, hmarked.adjusted hs rfl, .inr ⟨b, st, ?_, hparse, hexpects, hmatches⟩⟩
      rw [hreport]
      rfl
    · rw [if_neg hdue]
      exact ⟨u.mark now, hu.congr rfl, .inl ⟨rfl, hmark⟩⟩

theorem Told.step (hs : Activated srv s) {start : Time} {x x' : UpStream} {t : UpTurn}
    (h : Told srv s start x) (hstep : x.step srv s t = some x') : Told srv s start x' := by
  obtain ⟨-, hsteered, msgs, r, hdecodes, hrun, hmatches⟩ := h
  unfold UpStream.step at hstep
  split at hstep
  · next hguard =>
      obtain ⟨-, -, hclock, hreturns⟩ := hguard
      obtain ⟨v, hv, hprep⟩ := prepare_told hs hsteered hmatches hclock t.wall
      rcases hprep with ⟨hp, hmatches'⟩ | ⟨b, st, hp, hparse, hexpects, hmatches'⟩
      · obtain ⟨u', hquiet, hturn⟩ := turn_of_prepare hp
        rw [hturn] at hstep
        cases hstep
        refine ⟨rfl, hv.congr hquiet.rc, msgs, r, ?_, hrun, hmatches'.quiet hquiet hreturns⟩
        rwa [Option.map_none, Option.toList_none, List.append_nil]
      · obtain ⟨u', hquiet, hturn⟩ := turn_of_prepare hp
        rw [hturn] at hstep
        cases hstep
        refine ⟨rfl, hv.congr hquiet.rc, msgs ++ [(t.now, st)], r.read s.p.trialInt (t.now, st),
          ?_, ?_,
          hmatches'.quiet hquiet hreturns⟩
        · exact List.rel_append hdecodes (.cons ⟨rfl, hparse⟩ .nil)
        · exact run_append.mpr ⟨r, hrun, run_cons.mpr ⟨_, if_pos hexpects, rfl⟩⟩
  · cases hstep

theorem told_of_reachable (hs : Activated srv s) {start : Time} {x : UpStream}
    (hreach : Transition.Reachable (UpStream.step srv s) (UpStream.init srv s start) x) :
    Told srv s start x :=
  hreach.invariant (told_init hs start) fun _ _ _ h hstep => h.step hs hstep

/-- A turn that finds a message due sends it. -/
theorem Told.sends (hs : Activated srv s) {start : Time} {x : UpStream} {t : UpTurn}
    (h : Told srv s start x) (hloop : x.u.looping = true) (hclock : x.clock ≤ t.now)
    (hreturns : t.now ≤ t.read.returns) (hdue : x.u.reports t.now = true) :
    ∃ x', x.step srv s t = some x' ∧ x'.sent.length = x.sent.length + 1 ∧
      x'.u.totalDG = x.u.totalDG + x.u.a.tRxDatagrams.toUInt64 := by
  obtain ⟨hnext, hdog⟩ := Bool.and_eq_true_iff.mp hdue
  have hmarked : (x.u.mark t.now).Steered srv s := h.steered.congr rfl
  obtain ⟨row, b, -, -, -, hreport⟩ := hmarked.report_eq hs t.now t.wall
  have hprep : x.u.prepare srv s t.now t.wall =
      .ok ((x.u.mark t.now).reported s t.now, some b) := by
    unfold UpTest.prepare
    rw [if_neg (Int.not_lt.mpr (of_decide_eq_true hdog)), if_pos (of_decide_eq_true hnext), hreport]
    rfl
  obtain ⟨u', hquiet, hturn⟩ := turn_of_prepare hprep
  refine ⟨_, (if_pos ⟨h.safe, hloop, hclock, hreturns⟩).trans (by rw [hturn]), ?_, ?_⟩
  · rw [List.length_append]
    rfl
  · show u'.totalDG = _
    rw [hquiet.totalDG]
    show x.u.totalDG + ((x.u.mark t.now).rolledUp s t.now).tRxDatagrams.toUInt64 = _
    rw [(rolledUp_trial s (x.u.mark t.now) t.now).1]
    rfl

/-! ## What the reader has seen -/

section Reader

variable {trialInt : Duration} {r₀ r : StatusReader} {msgs : List (Time × StatusPDU)}

/-- Numbers from the first, and each message not before its time. -/
structure StatusReader.Seen (r₀ : StatusReader) (trialInt : Duration)
    (msgs : List (Time × StatusPDU)) (r : StatusReader) : Prop where
  numbers : msgs.map (fun m => m.2.seqNo) =
    (List.range' 1 msgs.length).map fun k => r₀.seqNo + UInt32.ofNat k
  seqNo : r.seqNo = r₀.seqNo + UInt32.ofNat msgs.length
  due : (r.due : Int) = r₀.due + msgs.length * trialInt
  stopAt : r.stopAt = r₀.stopAt
  times : ∀ (k : Nat) (m : Time × StatusPDU), msgs[k]? = some m →
    (r₀.due : Int) + k * trialInt ≤ m.1 ∧ m.2.testAction =
      if r₀.stopAt < m.1 then testActionStop2 else testActionTest

theorem seen_of_run (hrun : run (StatusReader.step trialInt) r₀ msgs = some r) :
    r₀.Seen trialInt msgs r := by
  refine run_induction (P := fun msgs r => r₀.Seen trialInt msgs r) ?_ ?_ hrun
  · exact ⟨rfl, (UInt32.add_zero _).symm, by simp, rfl, by simp⟩
  · intro msgs r m r' _ h hstep
    obtain ⟨hexpects, hread⟩ := Option.ite_none_right_eq_some.mp hstep
    cases hread
    obtain ⟨hdue, hseq, haction, -⟩ := hexpects
    have hnumber : m.2.seqNo = r₀.seqNo + UInt32.ofNat (msgs.length + 1) := by
      rw [hseq, h.seqNo, UInt32.ofNat_add, UInt32.add_assoc]
      rfl
    refine ⟨?_, ?_, ?_, h.stopAt, ?_⟩
    · rw [List.map_append, h.numbers, List.length_append, List.length_singleton,
        List.range'_1_concat, List.map_append, List.map_singleton, List.map_singleton, hnumber,
        Nat.add_comm 1]
    · rw [List.length_append]
      exact hnumber
    · show (r.due + trialInt : Int) = _
      rw [h.due, List.length_append, List.length_singleton]
      push_cast
      ring
    · intro k m' hm'
      rw [List.getElem?_append] at hm'
      split at hm'
      · exact h.times k m' hm'
      · next hge =>
          obtain ⟨hk, rfl⟩ : k = msgs.length ∧ m = m' := by
            have hlast := List.mem_singleton.mp (List.mem_of_getElem? hm')
            have hlt := (List.getElem?_eq_some_iff.mp hm').1
            rw [List.length_singleton] at hlt
            exact ⟨by omega, hlast.symm⟩
          rw [hk, ← h.due, ← h.stopAt]
          exact ⟨hdue, haction⟩

end Reader

/-! ## Results -/

/-- **The status messages of an upstream test.** Whatever arrives, and
whenever: the loop never panics, and every datagram it sends is a status
message. They are numbered 1, 2, 3, ...; the k-th is not sent before k trial
intervals have passed; and a message asks the client to stop exactly if it is
sent after the end of the test. -/
theorem status_stream (srv : Server) (s₀ : Session) (req : TestActPDU) (d : Rx) (start : Time)
    {x : UpStream}
    (hreach : Transition.Reachable (UpStream.step srv (s₀.activate srv req d))
      (UpStream.init srv (s₀.activate srv req d) start) x) :
    let s := s₀.activate srv req d
    x.crashed = none ∧ ∃ msgs, List.Forall₂ Decodes x.sent msgs ∧
      msgs.map (fun m => m.2.seqNo) = (List.range' 1 x.sent.length).map UInt32.ofNat ∧
      ∀ (k : Nat) (m : Time × StatusPDU), msgs[k]? = some m →
        (start : Int) + (k + 1) * s.p.trialInt ≤ m.1 ∧
        m.2.testAction = if start + (s.p.duration + 500 * millisecond) < m.1
          then testActionStop2 else testActionTest := by
  intro s
  obtain ⟨hsafe, -, msgs, r, hdecodes, hrun, -⟩ := told_of_reachable ⟨s₀, req, d, rfl⟩ hreach
  have hseen := seen_of_run hrun
  refine ⟨hsafe, msgs, hdecodes, ?_, fun k m hm => ?_⟩
  · rw [hseen.numbers, hdecodes.length_eq]
    simp [StatusReader.init]
  · obtain ⟨htime, haction⟩ := hseen.times k m hm
    refine ⟨?_, haction⟩
    have hsum : (start : Int) + (k + 1) * s.p.trialInt = start + s.p.trialInt + k * s.p.trialInt := by
      ring
    rw [hsum]
    exact htime

/-- `reportedRun` sends one message, about one datagram. -/
theorem reportedRun_sends : ∃ x, run (UpStream.step briefServer briefUpSession)
      (UpStream.init briefServer briefUpSession 0) reportedRun = some x ∧
    x.sent.length = 1 ∧ x.u.totalDG = 1 := by
  have hs : Activated briefServer briefUpSession := ⟨_, _, _, rfl⟩
  have hfirst : ((UpStream.init briefServer briefUpSession 0).step briefServer briefUpSession
      (loadTurn [testActionTest])).map (fun x => (x.u.looping, x.clock, x.u.reports (50 * millisecond),
        x.sent.length, x.u.totalDG, x.u.a.tRxDatagrams)) =
        some (true, 10 * millisecond, true, 0, 0, 1) := by
    decide +kernel
  obtain ⟨x₁, hstep, hfacts⟩ := Option.map_eq_some_iff.mp hfirst
  simp only [Prod.mk.injEq] at hfacts
  obtain ⟨hloop, hclock, hdue, hlen, hdg, hrx⟩ := hfacts
  obtain ⟨x, hx, hlen', hdg'⟩ := ((told_init hs 0).step hs hstep).sends hs (t := timeoutTurn 50 100)
    hloop (by rw [hclock]; decide) (by decide) hdue
  refine ⟨x, run_cons.mpr ⟨x₁, hstep, run_cons.mpr ⟨x, hx, rfl⟩⟩, ?_, ?_⟩
  · rw [hlen', hlen]
  · rw [hdg', hdg, hrx]
    rfl

theorem status_stream_reportedRun : ∃ x msgs,
    run (UpStream.step briefServer briefUpSession) (UpStream.init briefServer briefUpSession 0)
        reportedRun = some x ∧
      List.Forall₂ Decodes x.sent msgs ∧ msgs.map (fun m => m.2.seqNo) = [1] := by
  obtain ⟨x, hx, hlen, -⟩ := reportedRun_sends
  obtain ⟨-, msgs, hdecodes, hnumbers, -⟩ := status_stream briefServer waitingSession _ _ 0 ⟨_, hx⟩
  rw [hlen] at hnumbers
  exact ⟨x, msgs, hx, hdecodes, hnumbers⟩

/-- **The messages tell everything the test decides.** The reader accepts the
messages of every run; from the figures they carry it arrives at the
controller of the loop, so at the row each message names, and at the totals
of the completion record. -/
theorem status_replay (srv : Server) (s₀ : Session) (req : TestActPDU) (d : Rx) (start : Time)
    {x : UpStream}
    (hreach : Transition.Reachable (UpStream.step srv (s₀.activate srv req d))
      (UpStream.init srv (s₀.activate srv req d) start) x)
    {msgs : List (Time × StatusPDU)} (hmsgs : List.Forall₂ Decodes x.sent msgs) :
    let s := s₀.activate srv req d
    ∃ r, run (StatusReader.step s.p.trialInt) (StatusReader.init srv s start) msgs = some r ∧
      r.rc = x.u.rc ∧ r.totalDG = x.u.totalDG ∧ r.totalLoss = x.u.totalLoss := by
  intro s
  obtain ⟨-, -, msgs', r, hdecodes, hrun, hmatches⟩ := told_of_reachable ⟨s₀, req, d, rfl⟩ hreach
  -- a datagram decodes to one message only
  have hsame : msgs = msgs' := by
    refine List.right_unique_forall₂' ?_ hmsgs hdecodes
    rintro p m m' ⟨htime, hparse⟩ ⟨htime', hparse'⟩
    have heq := Except.ok.inj (Except.ok.inj (hparse.symm.trans hparse'))
    exact Prod.ext (htime.symm.trans htime') heq
  subst hsame
  exact ⟨r, hrun, hmatches.rc, hmatches.totalDG, hmatches.totalLoss⟩

/-- From the one message of `reportedRun`, the reader knows of its datagram. -/
theorem status_replay_reportedRun : ∃ msgs r,
    run (StatusReader.step briefUpSession.p.trialInt)
        (StatusReader.init briefServer briefUpSession 0) msgs = some r ∧
      msgs.length = 1 ∧ r.totalDG = 1 := by
  have hs : Activated briefServer briefUpSession := ⟨_, _, _, rfl⟩
  obtain ⟨x, hx, hlen, hdg⟩ := reportedRun_sends
  obtain ⟨-, -, msgs, -, hdecodes, -⟩ := told_of_reachable hs ⟨_, hx⟩
  obtain ⟨r, hrun, -, htotal, -⟩ := status_replay briefServer waitingSession _ _ 0 ⟨_, hx⟩ hdecodes
  exact ⟨msgs, r, hrun, hdecodes.length_eq.symm.trans hlen, htotal.trans hdg⟩

end Diagd.Udpst
