import Diagd.Udpst.Conservation
import Diagd.Udpst.Idle

/-!
# What the completion record counts

`runUpstream` adds to its totals when it builds a status message, and only
then: the load PDUs read after the LAST status message are recorded, folded
into the final sub-interval, and missing from the count that goes to
`logSummary`. A test that the client stops always ends that way, since the
loop is left with the read that brings the stop.
-/

namespace Diagd.Udpst

open GoSlice GoStd Transition

/-! ## One turn -/

/-- The load PDUs of a read. -/
def BatchRead.loads (s : Session) : BatchRead → List LoadPDU
  | .batch _ msgs => UpTest.loads s msgs
  | .timeout _ | .failed _ => []

namespace UpTest

/-- What reading `n` load PDUs does to the totals, the schedule and the
accounting of trials and sub-intervals. -/
structure Reads (u u' : UpTest) (n : Nat) : Prop where
  datagrams : u'.a.tRxDatagrams = u.a.tRxDatagrams + UInt32.ofNat n
  subStart : u'.a.subStart = u.a.subStart
  subIntSeq : u'.a.subIntSeq = u.a.subIntSeq
  totalDG : u'.totalDG = u.totalDG
  nextStatus : u'.nextStatus = u.nextStatus
  stopAt : u'.stopAt = u.stopAt

theorem Reads.refl (u : UpTest) : u.Reads u 0 :=
  ⟨(UInt32.add_zero _).symm, rfl, rfl, rfl, rfl, rfl⟩

theorem Reads.trans {u u₁ u₂ : UpTest} {m n : Nat} (h : u.Reads u₁ m) (h' : u₁.Reads u₂ n) :
    u.Reads u₂ (m + n) where
  datagrams := by rw [h'.datagrams, h.datagrams, UInt32.ofNat_add, UInt32.add_assoc]
  subStart := h'.subStart.trans h.subStart
  subIntSeq := h'.subIntSeq.trans h.subIntSeq
  totalDG := h'.totalDG.trans h.totalDG
  nextStatus := h'.nextStatus.trans h.nextStatus
  stopAt := h'.stopAt.trans h.stopAt

theorem accept_reads (u : UpTest) (rxNow : Time) (hdr : LoadPDU) :
    u.Reads (u.accept rxNow hdr) 1 := by
  obtain ⟨k, hgains⟩ := u.a.recordLoad_gains rxNow hdr
  exact ⟨congrFun hgains.trial .datagrams, hgains.subStart, hgains.subIntSeq, rfl, rfl, rfl⟩

theorem foldl_accept_reads (rxNow : Time) (hdrs : List LoadPDU) (u : UpTest) :
    u.Reads (hdrs.foldl (fun u hdr => u.accept rxNow hdr) u) hdrs.length := by
  induction hdrs generalizing u with
  | nil => exact .refl u
  | cons hdr hdrs ih =>
      rw [List.length_cons, Nat.add_comm]
      exact (u.accept_reads rxNow hdr).trans (ih _)

theorem absorb_reads {s : Session} {u u' : UpTest} {r : BatchRead} (h : u.absorb s r = .ok u') :
    u.Reads u' (r.loads s).length := by
  cases r with
  | timeout t => cases h; exact .refl u
  | failed t => cases h; exact ⟨(UInt32.add_zero _).symm, rfl, rfl, rfl, rfl, rfl⟩
  | batch rxNow msgs =>
      rw [absorb, receive_eq] at h
      cases h
      exact foldl_accept_reads rxNow _ u

end UpTest

variable {srv : Server} {s : Session} {slack : Duration}

/-! ## The load PDUs of a run -/

/-- The load PDUs handed to `recordLoad`: how many each status message found
since the one before it, and how many have come since the last. -/
structure Received where
  reported : List Nat := []
  pending : Nat := 0
  deriving DecidableEq, Repr

namespace Received

def total (c : Received) : Nat := c.reported.sum + c.pending

def report (c : Received) : Received := ⟨c.reported ++ [c.pending], 0⟩

/-- A turn of the loop in state `u`: it may send a status message, then it
reads, unless the watchdog ends the test first. -/
def turn (s : Session) (c : Received) (u : UpTest) (t : UpTurn) : Received :=
  if u.watchdog < t.now then c
  else
    let c := if u.nextStatus ≤ t.now then c.report else c
    { c with pending := c.pending + (t.read.loads s).length }

end Received

/-- The load PDUs of the run from `x`, after those of `c`. -/
def received (L : TimedLoop Panic UpTest UpTurn) (s : Session) (slack : Duration) (c : Received)
    (x : Timed UpTest) : List UpTurn → Received
  | [] => c
  | t :: ts =>
      match L.step slack x t with
      | none => c
      | some x' => received L s slack (c.turn s x.state t) x' ts

theorem received_pure (hs : Activated srv s) {x : Timed UpTest} (hx : x.state.Steered srv s)
    (c : Received) (ts : List UpTurn) :
    received (upLoop srv s) s slack c x ts = received (upLoopPure srv s) s slack c x ts := by
  induction ts generalizing c x with
  | nil => rfl
  | cons t ts ih =>
      rw [received, received, ← upLoop_step_pure hs hx]
      rcases hstep : (upLoop srv s).step slack x t with _ | x'
      · rfl
      · exact ih (steered_step hs hx hstep) _

/-- What the loop's counters make of them: a trial is counted modulo 2^32. -/
structure Received.Counted (c : Received) (u : UpTest) : Prop where
  pending : u.a.tRxDatagrams = UInt32.ofNat c.pending
  reported : u.totalDG = UInt64.ofNat ((c.reported.map (· % 2 ^ 32)).sum)

namespace Received

variable {c : Received} {u u' : UpTest}

theorem counted_new (srv : Server) (s : Session) (start : Time) :
    Counted {} (s.newUpTest srv start) := ⟨rfl, rfl⟩

theorem Counted.reads {n : Nat} (h : c.Counted u) (hr : u.Reads u' n) :
    Counted { c with pending := c.pending + n } u' where
  pending := by rw [hr.datagrams, h.pending, UInt32.ofNat_add]
  reported := hr.totalDG.trans h.reported

/-- `totalDG += uint64(st.TIRxDatagrams)` and `resetTrial`. -/
theorem Counted.report (h : c.Counted u) (s : Session) (now : Time) :
    c.report.Counted (u.reported s now) where
  pending := rfl
  reported := by
    have hsame : (u.rolledUp s now).tRxDatagrams = u.a.tRxDatagrams := by
      show (u.a.maybeRoll now s.p.subInt s.p.trialInt).tRxDatagrams = _
      unfold RxAccounting.maybeRoll
      split <;> rfl
    show u.totalDG + (u.rolledUp s now).tRxDatagrams.toUInt64 = _
    rw [hsame, h.reported, h.pending, Received.report, List.map_append, List.sum_append,
      UInt64.ofNat_add]
    congr 1
    apply UInt64.toNat_inj.mp
    simp
    omega

theorem Counted.step {x x' : Timed UpTest} {t : UpTurn} (h : c.Counted x.state)
    (hstep : (upLoop srv s).step slack x t = some x') :
    (c.turn s x.state t).Counted x'.state := by
  unfold Received.turn
  rcases upLoop_turn hstep with ⟨hdog, rfl⟩ | ⟨hdog, habs⟩
  · rw [if_pos hdog, UpTest.prepared, if_pos hdog]
    exact ⟨h.pending, h.reported⟩
  · rw [if_neg (Int.not_lt.mpr hdog)]
    refine Counted.reads ?_ (UpTest.absorb_reads habs)
    rw [UpTest.prepared, if_neg (Int.not_lt.mpr hdog)]
    have hmark : c.Counted (x.state.mark t.now) := ⟨h.pending, h.reported⟩
    split
    · exact hmark.report s t.now
    · exact hmark

theorem Counted.run {x y : Timed UpTest} {ts : List UpTurn} (h : c.Counted x.state)
    (hrun : run ((upLoop srv s).step slack) x ts = some y) :
    (received (upLoop srv s) s slack c x ts).Counted y.state := by
  induction ts generalizing c x with
  | nil =>
      cases hrun
      exact h
  | cons t ts ih =>
      obtain ⟨x', hstep, hrest⟩ := run_cons.mp hrun
      rw [received, hstep]
      exact ih (h.step hstep) hrest

end Received

/-! ## The completion record -/

/-- The figures `logSummary` is given, the rate apart. -/
structure Summary where
  datagrams : UInt64
  loss : UInt64
  deriving DecidableEq, Repr

/-- The end of `runUpstream`: the final partial sub-interval is folded in,
for the rate, and the totals go to `logSummary` as they are. -/
def UpTest.finish (u : UpTest) (now : Time) : RxAccounting × Summary :=
  (u.a.maybeRoll now 0 0, ⟨u.totalDG, u.totalLoss⟩)

theorem sum_mod_le (m : Nat) (ns : List Nat) : (ns.map (· % m)).sum ≤ ns.sum := by
  induction ns with
  | nil => exact Nat.le_refl _
  | cons n ns ih =>
      have hn := Nat.mod_le n m
      simp only [List.map_cons, List.sum_cons]
      omega

theorem sum_mod_eq_iff {m : Nat} (hm : 0 < m) (ns : List Nat) :
    (ns.map (· % m)).sum = ns.sum ↔ ∀ n ∈ ns, n < m := by
  induction ns with
  | nil => simp
  | cons n ns ih =>
      have hn := Nat.mod_le n m
      have hns := sum_mod_le m ns
      simp only [List.map_cons, List.sum_cons, List.forall_mem_cons, ← ih]
      constructor
      · intro h
        exact ⟨Nat.mod_lt n hm |> fun hlt => by omega, by omega⟩
      · rintro ⟨hlt, heq⟩
        rw [Nat.mod_eq_of_lt hlt, heq]

/-- Wrapping only ever loses datagrams, so nothing makes up for a loss. -/
theorem Received.Counted.datagrams_iff {c : Received} {u : UpTest} (h : c.Counted u)
    (now : Time) :
    (u.finish now).2.datagrams.toNat = c.total ↔
      c.pending = 0 ∧ (∀ n ∈ c.reported, n < 2 ^ 32) ∧ c.reported.sum < 2 ^ 64 := by
  have hle := sum_mod_le (2 ^ 32) c.reported
  have hwrap := Nat.mod_le (c.reported.map (· % 2 ^ 32)).sum (2 ^ 64)
  have hlt := Nat.mod_lt (c.reported.map (· % 2 ^ 32)).sum (show 0 < 2 ^ 64 by decide)
  have hval : (u.finish now).2.datagrams.toNat =
      (c.reported.map (· % 2 ^ 32)).sum % 2 ^ 64 := by
    show u.totalDG.toNat = _
    rw [h.reported, UInt64.toNat_ofNat']
  rw [hval, ← sum_mod_eq_iff (by decide), Received.total]
  constructor
  · intro heq
    exact ⟨by omega, by omega, by omega⟩
  · rintro ⟨hp, hs, hb⟩
    rw [hp, hs, Nat.mod_eq_of_lt hb, Nat.add_zero]

/-- **The completion record counts what the status messages reported.** In
every run, whatever ends it, the datagram count is the number of load PDUs
recorded exactly if none came after the last status message, and no counter
wrapped: fewer than 2^32 in each trial, fewer than 2^64 in all. -/
theorem summary_counts_iff (srv : Server) (s : Session) (start : Time) (slack : Duration)
    {ts : List UpTurn} {y : Timed UpTest}
    (hrun : run ((upLoop srv s).step slack) ⟨s.newUpTest srv start, start⟩ ts = some y)
    (now : Time) :
    let c := received (upLoop srv s) s slack {} ⟨s.newUpTest srv start, start⟩ ts
    (y.state.finish now).2.datagrams.toNat = c.total ↔
      c.pending = 0 ∧ (∀ n ∈ c.reported, n < 2 ^ 32) ∧ c.reported.sum < 2 ^ 64 :=
  ((Received.counted_new srv s start).run hrun).datagrams_iff now

/-- An upstream test of one second. -/
def briefUpSession : Session :=
  waitingSession.activate briefServer
    { cmdRequest := cmdTestActUpstream, srIndexConf := srIndexAuto }
    { peer := testPeer, data := [] }

/-- A load PDU with its action. -/
def loadMsg (action : UInt8) : Msg where
  addr := some testPeer
  data := encodeBE 2 pduIDLoad.toNat ++ [action, 0] ++ encodeBE 4 1 ++ List.replicate 24 0

/-- A turn at the start that reads the load PDUs of a batch at 10 ms. -/
def loadTurn (actions : List UInt8) : UpTurn where
  now := 0
  read := .batch (10 * millisecond) (actions.map loadMsg)

/-- A load PDU, then a turn at 50 ms that reports it and reads nothing. -/
def reportedRun : List UpTurn := [loadTurn [testActionTest], timeoutTurn 50 100]

def briefUpStart : Timed UpTest := ⟨briefUpSession.newUpTest briefServer 0, 0⟩

theorem summary_counts_iff_reportedRun : ∃ y,
    run ((upLoop briefServer briefUpSession).step (50 * millisecond)) briefUpStart reportedRun =
        some y ∧
      (y.state.finish 0).2.datagrams.toNat = 1 := by
  have hs : Activated briefServer briefUpSession := ⟨_, _, _, rfl⟩
  have hsteered : briefUpStart.state.Steered briefServer briefUpSession := newUpTest_steered hs 0
  have hsome : (run ((upLoop briefServer briefUpSession).step (50 * millisecond)) briefUpStart
      reportedRun).isSome = true := by
    rw [upLoop_run_pure hs hsteered]
    decide +kernel
  obtain ⟨y, hy⟩ := Option.isSome_iff_exists.mp hsome
  refine ⟨y, hy, ?_⟩
  have hc : received (upLoop briefServer briefUpSession) briefUpSession (50 * millisecond) {}
      briefUpStart reportedRun = ⟨[1], 0⟩ := by
    rw [received_pure hs hsteered]
    decide +kernel
  have h := (summary_counts_iff briefServer briefUpSession 0 (50 * millisecond) hy 0).mpr
  simp only [briefUpStart] at hc
  rw [hc] at h
  exact h ⟨rfl, by decide, by decide⟩

/-- **A client that stops at once.** Two load PDUs are recorded, the second
ends the test, and the completion record says 0. -/
theorem stopped_test_uncounted :
    (run ((upLoop briefServer briefUpSession).step 0) briefUpStart
        [loadTurn [testActionTest, testActionStop2]]).map
          (fun y => (y.state.looping, y.state.a.tRxDatagrams, (y.state.finish 0).2.datagrams))
        = some (false, 2, 0) ∧
      (received (upLoop briefServer briefUpSession) briefUpSession 0 {} briefUpStart
        [loadTurn [testActionTest, testActionStop2]]).total = 2 := by
  exact ⟨by decide +kernel, by decide +kernel⟩

/-! ### Tests that the client stops -/

theorem UpTest.absorb_clientDone {u u' : UpTest} {r : BatchRead} (h : u.absorb s r = .ok u')
    (hno : u.clientDone = false) (hdone : u'.clientDone = true) : 0 < (r.loads s).length := by
  cases r with
  | timeout t => cases h; cases hno.symm.trans hdone
  | failed t => cases h; cases hno.symm.trans hdone
  | batch rxNow msgs =>
      rw [UpTest.absorb, UpTest.receive_eq] at h
      cases h
      rw [(UpTest.foldl_accept rxNow _ u).2, hno, Bool.false_or] at hdone
      obtain ⟨hdr, hmem, -⟩ := List.any_eq_true.mp hdone
      exact List.length_pos_of_mem hmem

/-- The read that ends the test comes after the last status message, so some
load PDUs are always left out. -/
theorem received_pending_of_clientDone {x y : Timed UpTest} {ts : List UpTurn} {c : Received}
    (hrun : run ((upLoop srv s).step slack) x ts = some y) (hno : x.state.clientDone = false)
    (hdone : y.state.clientDone = true) : 0 < (received (upLoop srv s) s slack c x ts).pending := by
  induction ts generalizing c x with
  | nil =>
      cases hrun
      cases hno.symm.trans hdone
  | cons t ts ih =>
      obtain ⟨x', hstep, hrest⟩ := run_cons.mp hrun
      rw [received, hstep]
      by_cases hx' : x'.state.clientDone = true
      · -- the loop has been left, so this turn was the last
        cases ts with
        | cons t' ts =>
            obtain ⟨x₂, hstep₂, -⟩ := run_cons.mp hrest
            have hloop := (TimedLoop.step_cases hstep₂).1
            have hleft : x'.state.looping = false := by
              rw [UpTest.looping, hx', Bool.not_true, Bool.and_false]
            cases hleft.symm.trans hloop
        | nil =>
            show 0 < (c.turn s x.state t).pending
            have hprep : (x.state.prepared s t.now).clientDone = false := by
              unfold UpTest.prepared
              split_ifs <;> exact hno
            unfold Received.turn
            rcases upLoop_turn hstep with ⟨-, rfl⟩ | ⟨hdog, habs⟩
            · cases hprep.symm.trans hx'
            · rw [if_neg (Int.not_lt.mpr hdog)]
              exact Nat.add_pos_right _ (UpTest.absorb_clientDone habs hprep hx')
      · exact ih hrest (Bool.not_eq_true _ ▸ hx')

end Diagd.Udpst
