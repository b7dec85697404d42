import Diagd.Udpst.TestDuration

/-!
# What status feedback does to a downstream test

The downstream loop seen as a consumer of reads (`feed`): the network
decides which status PDUs arrive, in which order and how often. The loop
keeps no record of the sequence numbers it has seen, so it applies every
COPY that arrives, up to and including the first that is not a plain test
message: its figures are the fold of the arrivals.
-/

namespace Diagd.Udpst

open GoSlice GoStd Transition

/-! ## Reads and arrivals -/

/-- The loop takes one read, while it is running. -/
def DownTest.feed (s : Session) (d : DownTest) (r : ConnRead) : Option DownTest :=
  if d.running then (d.absorb s r).toOption else none

/-- The status PDU a read brings, if it brings one. -/
def arrival (s : Session) : ConnRead → Option StatusPDU
  | .datagram rx => ((DownTest.statusOf s rx).toOption).join
  | _ => none

def arrivals (s : Session) (rs : List ConnRead) : List StatusPDU := rs.filterMap (arrival s)

/-- What a delivery ends in: the controller and the two totals. -/
structure Figures where
  rc : RateController
  totalLoss : UInt64
  totalDG : UInt64

def DownTest.figures (d : DownTest) : Figures := ⟨d.rc, d.totalLoss, d.totalDG⟩

/-- One status PDU: a contribution to the totals, and a step of the search
unless it ends the test. -/
def Figures.add (g : Figures) (st : StatusPDU) : Figures where
  rc := if st.testAction = testActionTest then g.rc.adjust st.trialInput else g.rc
  totalLoss := g.totalLoss + st.seqErrLoss.toUInt64
  totalDG := g.totalDG + st.tiRxDatagrams.toUInt64

/-- The part of a delivery the loop gets to see. -/
def upToStop : List StatusPDU → List StatusPDU
  | [] => []
  | st :: sts => if st.testAction = testActionTest then st :: upToStop sts else [st]

/-- The figures after a delivery of status PDUs, in this order. -/
def Figures.deliver (g : Figures) (sts : List StatusPDU) : Figures := (upToStop sts).foldl add g

variable {s : Session} {d d' : DownTest}

theorem DownTest.apply_figures (d : DownTest) (rxNow : Time) (st : StatusPDU) :
    (d.apply rxNow st).figures = d.figures.add st := by
  unfold DownTest.apply Figures.add
  by_cases h : st.testAction = testActionTest
  · rw [if_neg (not_not.mpr h), if_pos h]
    rfl
  · rw [if_pos h, if_neg h]
    rfl

/-- The loop goes on after a status PDU exactly if it is a test message. -/
theorem DownTest.apply_running (d : DownTest) (hd : d.running = true) (rxNow : Time)
    (st : StatusPDU) :
    (d.apply rxNow st).running = decide (st.testAction = testActionTest) := by
  unfold DownTest.apply
  by_cases h : st.testAction = testActionTest
  · rw [if_neg (not_not.mpr h), decide_eq_true h]
    exact hd
  · rw [if_pos h, decide_eq_false h]

/-- One read. -/
theorem feed_cases {r : ConnRead} (h : d.feed s r = some d') : d.running = true ∧
    ((arrival s r = none ∧ d'.figures = d.figures) ∨
      ∃ st, arrival s r = some st ∧ d'.figures = d.figures.add st ∧
        d'.running = decide (st.testAction = testActionTest)) := by
  unfold DownTest.feed at h
  split at h
  · rename_i hrun
    refine ⟨hrun, ?_⟩
    rcases DownTest.absorb_cases s d r with ⟨t, rfl, ha⟩ | ⟨t, rfl, ha⟩ | ⟨rx, rfl, hst, ha⟩ |
      ⟨rx, st, rfl, hst, ha⟩ <;> rw [ha] at h <;> cases h
    · exact .inl ⟨rfl, rfl⟩
    · exact .inl ⟨rfl, rfl⟩
    · exact .inl ⟨by rw [arrival, hst]; rfl, rfl⟩
    · exact .inr ⟨st, by rw [arrival, hst]; rfl, d.apply_figures rx.now st,
        d.apply_running hrun rx.now st⟩
  · cases h

/-- **The figures are the fold of the arrivals**, every copy of them, and the
arrivals end with the stop if there is one. -/
theorem feed_figures {rs : List ConnRead} (hrun : run (DownTest.feed s) d rs = some d') :
    d'.figures = d.figures.deliver (arrivals s rs) ∧
      upToStop (arrivals s rs) = arrivals s rs := by
  induction rs generalizing d with
  | nil =>
      cases hrun
      exact ⟨rfl, rfl⟩
  | cons r rs ih =>
      obtain ⟨d₁, hfeed, hrest⟩ := run_cons.mp hrun
      obtain ⟨-, ⟨hnone, hfig⟩ | ⟨st, hsome, hfig, hgoes⟩⟩ := feed_cases hfeed
      · rw [arrivals, List.filterMap_cons_none hnone, ← hfig]
        exact ih hrest
      · rw [arrivals, List.filterMap_cons_some hsome]
        by_cases htest : st.testAction = testActionTest
        · obtain ⟨hrec, hcut⟩ := ih hrest
          refine ⟨?_, ?_⟩
          · rw [hrec, hfig, Figures.deliver, Figures.deliver, upToStop, if_pos htest]
            rfl
          · rw [upToStop, if_pos htest]
            exact congrArg (st :: ·) hcut
        · -- the loop is left, so nothing can have been read after the stop
          rw [decide_eq_false htest] at hgoes
          cases rs with
          | nil =>
              cases hrest
              rw [Figures.deliver, List.filterMap_nil, upToStop, if_neg htest]
              exact ⟨hfig, rfl⟩
          | cons r' rs =>
              obtain ⟨d₂, hfeed', -⟩ := run_cons.mp hrest
              rw [(feed_cases hfeed').1] at hgoes
              cases hgoes

/-- The row in use is always that of the controller. -/
theorem feed_index {rs : List ConnRead} (hrun : run (DownTest.feed s) d rs = some d')
    (hd : d.index = d.rc.index) : d'.index = d'.rc.index := by
  refine run_preserves (I := fun d => d.index = d.rc.index) ?_ hd hrun
  intro d r d' hd hfeed
  unfold DownTest.feed at hfeed
  split at hfeed
  · rcases DownTest.absorb_cases s d r with ⟨t, rfl, ha⟩ | ⟨t, rfl, ha⟩ | ⟨rx, rfl, -, ha⟩ |
      ⟨rx, st, rfl, -, ha⟩ <;> rw [ha] at hfeed <;> cases hfeed
    · exact hd
    · exact hd
    · exact hd
    · unfold DownTest.apply
      split
      · exact hd
      · rfl
  · cases hfeed

/-- A run of the loop in time is a run of its reads; the turn that finds the
watchdog expired reads nothing. -/
theorem downLoop_feeds {slack : Duration} {x y : Timed DownTest} {ts : List DownTurn}
    (hrun : run ((downLoop s).step slack) x ts = some y) :
    ∃ rs d, rs <+: ts.map DownTurn.read ∧ run (DownTest.feed s) x.state rs = some d ∧
      y.state.figures = d.figures := by
  induction ts generalizing x with
  | nil =>
      cases hrun
      exact ⟨[], _, List.nil_prefix, rfl, rfl⟩
  | cons t ts ih =>
      obtain ⟨x', hstep, hrest⟩ := run_cons.mp hrun
      obtain ⟨hloop, -, -, u, hprep, hcases⟩ := TimedLoop.step_cases hstep
      obtain rfl : x.state.prepare t.now = u := Except.ok.inj hprep
      rcases hcases with ⟨hleft, rfl⟩ | ⟨hon, -, -, u', habs, rfl⟩
      · -- the loop is left, so this was its last turn
        cases ts with
        | nil =>
            cases hrest
            refine ⟨[], x.state, List.nil_prefix, rfl, ?_⟩
            show (x.state.prepare t.now).figures = _
            unfold DownTest.prepare
            split <;> rfl
        | cons t' ts =>
            obtain ⟨x'', hstep', -⟩ := run_cons.mp hrest
            rw [(TimedLoop.step_cases hstep').1] at hleft
            cases hleft
      · have hsame : x.state.prepare t.now = x.state := by
          change (x.state.prepare t.now).running = true at hon
          unfold DownTest.prepare at hon ⊢
          split at hon
          · cases hon
          · rw [if_neg ‹_›]
        obtain ⟨rs, d, hsub, hfeed, hfig⟩ := ih hrest
        refine ⟨t.read :: rs, d, List.cons_prefix_cons.mpr ⟨rfl, hsub⟩, ?_, hfig⟩
        change (x.state.prepare t.now).absorb s t.read = .ok u' at habs
        rw [hsame] at habs
        have hrunning : x.state.running = true := hloop
        refine run_cons.mpr ⟨u', ?_, hfeed⟩
        rw [DownTest.feed, if_pos hrunning, habs]
        rfl

/-! ## One contribution per copy -/

/-- **Status feedback is applied once per copy.** Whatever the network does
to the status PDUs, the figures are those of the sequence that arrived; and
if it repeats none, every sequence number contributes at most once and the
figures are those of a delivery without duplicates. -/
theorem feedback_per_copy (srv : Server) (s : Session) (start : Time) {rs : List ConnRead}
    {d : DownTest} (hrun : run (DownTest.feed s) (s.newDownTest srv start) rs = some d) :
    d.figures = (arrivals s rs).foldl Figures.add (s.newDownTest srv start).figures ∧
      d.index = d.rc.index ∧
      (((arrivals s rs).map StatusPDU.seqNo).Nodup →
        (∀ n, (arrivals s rs).countP (fun st => st.seqNo == n) ≤ 1) ∧
          ∃ del, (del.map StatusPDU.seqNo).Nodup ∧ (∀ st ∈ del, st ∈ arrivals s rs) ∧
            d.figures = (s.newDownTest srv start).figures.deliver del) := by
  obtain ⟨hfig, hcut⟩ := feed_figures hrun
  refine ⟨?_, feed_index hrun rfl, fun hnodup => ⟨fun n => ?_, arrivals s rs, hnodup,
    fun _ h => h, hfig⟩⟩
  · rw [hfig, Figures.deliver, hcut]
  · have hcount := List.nodup_iff_count_le_one.mp hnodup n
    rw [List.count, List.countP_map] at hcount
    exact hcount

/-! ### One message, twice -/

def repeatedStatus : StatusPDU := { seqNo := 1, tiRxDatagrams := 5 }

/-- Its datagram. -/
def repeatedRx : Rx where
  peer := testPeer
  data := encodeBE 2 pduIDStatus.toNat ++ [testActionTest, 0] ++ encodeBE 4 1 ++
    List.replicate 136 0 ++ encodeBE 4 5 ++ List.replicate 56 0

/-- The next message of the client. -/
def laterStatus : StatusPDU := { seqNo := 2, tiRxDatagrams := 7 }

def laterRx : Rx where
  peer := testPeer
  data := encodeBE 2 pduIDStatus.toNat ++ [testActionTest, 0] ++ encodeBE 4 2 ++
    List.replicate 136 0 ++ encodeBE 4 7 ++ List.replicate 56 0

/-- Two messages out of order, each once; and the same with the later one
repeated. -/
theorem feedback_per_copy_once :
    (∃ d, run (DownTest.feed briefSession) (briefSession.newDownTest briefServer 0)
        [.datagram laterRx, .datagram repeatedRx] = some d ∧
      d.figures = [laterStatus, repeatedStatus].foldl Figures.add
        (briefSession.newDownTest briefServer 0).figures ∧
      ∃ del, (del.map StatusPDU.seqNo).Nodup ∧ (∀ st ∈ del, st ∈ [laterStatus, repeatedStatus]) ∧
        d.figures = (briefSession.newDownTest briefServer 0).figures.deliver del) ∧
    ∃ d, run (DownTest.feed briefSession) (briefSession.newDownTest briefServer 0)
        [.datagram laterRx, .datagram repeatedRx, .datagram laterRx] = some d ∧
      d.figures = [laterStatus, repeatedStatus, laterStatus].foldl Figures.add
        (briefSession.newDownTest briefServer 0).figures := by
  have hrun : (run (DownTest.feed briefSession) (briefSession.newDownTest briefServer 0)
      [.datagram laterRx, .datagram repeatedRx]).isSome = true := by
    decide +kernel
  have hrun' : (run (DownTest.feed briefSession) (briefSession.newDownTest briefServer 0)
      [.datagram laterRx, .datagram repeatedRx, .datagram laterRx]).isSome = true := by
    decide +kernel
  have harr : arrivals briefSession [.datagram laterRx, .datagram repeatedRx] =
      [laterStatus, repeatedStatus] := by
    decide +kernel
  have harr' : arrivals briefSession [.datagram laterRx, .datagram repeatedRx, .datagram laterRx] =
      [laterStatus, repeatedStatus, laterStatus] := by
    decide +kernel
  obtain ⟨d, hd⟩ := Option.isSome_iff_exists.mp hrun
  obtain ⟨d', hd'⟩ := Option.isSome_iff_exists.mp hrun'
  obtain ⟨hfig, -, honce⟩ := feedback_per_copy briefServer briefSession 0 hd
  obtain ⟨hfig', -⟩ := feedback_per_copy briefServer briefSession 0 hd'
  rw [harr] at hfig honce
  rw [harr'] at hfig'
  exact ⟨⟨d, hd, hfig, (honce (by decide)).2⟩, d', hd', hfig'⟩

/-- The client reports five datagrams once and the network delivers the
message twice: ten are counted, which no delivery without duplicates gives. -/
theorem feedback_repeated : ∃ d,
    run (DownTest.feed briefSession) (briefSession.newDownTest briefServer 0)
        [.datagram repeatedRx, .datagram repeatedRx] = some d ∧
      arrivals briefSession [.datagram repeatedRx, .datagram repeatedRx] =
        [repeatedStatus, repeatedStatus] ∧
      d.totalDG = 10 ∧
      ∀ del : List StatusPDU, (del.map StatusPDU.seqNo).Nodup →
        (∀ st ∈ del, st = repeatedStatus) →
        ((briefSession.newDownTest briefServer 0).figures.deliver del).totalDG ≠ d.totalDG := by
  have hrun : (run (DownTest.feed briefSession) (briefSession.newDownTest briefServer 0)
      [.datagram repeatedRx, .datagram repeatedRx]).map (fun d => d.totalDG) = some 10 := by
    decide +kernel
  obtain ⟨d, hd, htotal⟩ := Option.map_eq_some_iff.mp hrun
  refine ⟨d, hd, by decide +kernel, htotal, fun del hnodup hall => ?_⟩
  rw [htotal]
  match del, hnodup, hall with
  | [], _, _ => decide
  | [st], _, hall =>
      rw [hall st List.mem_cons_self]
      decide
  | st :: st' :: sts, hnodup, hall =>
      -- two messages of the only kind have one number
      rw [hall st List.mem_cons_self, hall st' (by simp)] at hnodup
      simp at hnodup

end Diagd.Udpst
