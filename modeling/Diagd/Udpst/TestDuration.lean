import Diagd.Lib.TimedLoop
import Diagd.Udpst.Downstream
import Diagd.Udpst.Nominal

/-!
# How long a test can last

Both main loops leave at the top of a turn once their watchdog has expired,
and every PDU they accept pushes the watchdog forward. Neither looks at the
end of the test there: the upstream loop only asks the client to stop, the
downstream loop only tells its sender. The bound therefore holds against a
client that STOPS (`stopsBy`) and fails against one that does not.
-/

namespace Diagd.Udpst

open GoSlice GoStd Transition

/-! ## The loops in time -/

def upLoop (srv : Server) (s : Session) : TimedLoop Panic UpTest UpTurn where
  now := UpTurn.now
  returns := fun t => t.read.returns
  looping := UpTest.looping
  prepare := fun u t => Prod.fst <$> u.prepare srv s t.now t.wall
  deadline := UpTest.deadline
  absorb := fun u t => u.absorb s t.read

def downLoop (s : Session) : TimedLoop Panic DownTest DownTurn where
  now := DownTurn.now
  returns := fun t => t.read.returns
  looping := DownTest.running
  prepare := fun d t => .ok (d.prepare t.now)
  deadline := DownTest.watchdog
  absorb := fun d t => d.absorb s t.read

variable {srv : Server} {s : Session}

theorem upLoop_prepare {u u' : UpTest} {t : UpTurn} (h : (upLoop srv s).prepare u t = .ok u') :
    ∃ sent, u.prepare srv s t.now t.wall = .ok (u', sent) := by
  change Prod.fst <$> u.prepare srv s t.now t.wall = .ok u' at h
  rcases hp : u.prepare srv s t.now t.wall with e | ⟨u₁, sent⟩
  · rw [hp] at h
    cases h
  · rw [hp] at h
    cases h
    exact ⟨sent, rfl⟩

theorem upLoop_watched : (upLoop srv s).Watched UpTest.watchdog watchdogTimeout where
  keeps := by
    intro u t u' h
    obtain ⟨sent, hp⟩ := upLoop_prepare h
    rcases UpTest.prepare_cases hp with ⟨-, rfl, -⟩ | ⟨-, -, rfl, -⟩ | ⟨-, -, rfl, -⟩ <;> rfl
  expires := by
    intro u t u' h hloop
    obtain ⟨sent, hp⟩ := upLoop_prepare h
    rcases UpTest.prepare_cases hp with ⟨-, rfl, -⟩ | ⟨hle, -⟩ | ⟨hle, -⟩
    · cases hloop
    · exact hle
    · exact hle
  deadline_le := by
    intro u
    show (if u.watchdog < u.nextStatus then u.watchdog else u.nextStatus) ≤ u.watchdog
    split
    · exact Int.le_refl _
    · exact Int.not_lt.mp ‹_›
  feeds := by
    intro u t u' h
    change u.absorb s t.read = .ok u' at h
    show _ ∨ u'.watchdog = t.read.returns + watchdogTimeout
    cases hr : t.read with
    | timeout r =>
        rw [hr] at h
        cases h
        exact .inl rfl
    | failed r =>
        rw [hr] at h
        cases h
        exact .inl rfl
    | batch rxNow msgs =>
        rw [hr, UpTest.absorb, UpTest.receive_eq] at h
        cases h
        rw [(UpTest.foldl_accept rxNow _ u).1]
        split
        · exact .inl rfl
        · exact .inr rfl
  period_nonneg := by decide

theorem downLoop_watched : (downLoop s).Watched DownTest.watchdog watchdogTimeout where
  keeps := by
    intro d t d' h
    cases h
    show (d.prepare t.now).watchdog = d.watchdog
    unfold DownTest.prepare
    split <;> rfl
  expires := by
    intro d t d' h hloop
    cases h
    change (d.prepare t.now).running = true at hloop
    unfold DownTest.prepare at hloop
    split at hloop
    · cases hloop
    · exact Int.not_lt.mp ‹_›
  deadline_le := fun d => Int.le_refl _
  feeds := by
    intro d t d' h
    change d.absorb s t.read = .ok d' at h
    show _ ∨ d'.watchdog = t.read.returns + watchdogTimeout
    rcases DownTest.absorb_cases s d t.read with ⟨r, hr, ha⟩ | ⟨r, hr, ha⟩ | ⟨rx, hr, -, ha⟩ |
      ⟨rx, st, hr, -, ha⟩ <;> rw [ha] at h <;> cases h
    · exact .inl rfl
    · exact .inl rfl
    · exact .inl rfl
    · refine .inr ?_
      rw [hr]
      unfold DownTest.apply
      split <;> rfl
  period_nonneg := by decide

/-! ## Clients that stop -/

/-- Load PDUs read after `cutoff` come with a stop among them. -/
def UpTurn.stopsBy (s : Session) (cutoff : Time) (t : UpTurn) : Bool :=
  match t.read with
  | .batch rxNow msgs => (UpTest.loads s msgs).isEmpty || decide (rxNow ≤ cutoff) ||
      (UpTest.loads s msgs).any fun hdr => decide (hdr.testAction ≠ testActionTest)
  | _ => true

/-- A status PDU read after `cutoff` is a stop. -/
def DownTurn.stopsBy (s : Session) (cutoff : Time) (t : DownTurn) : Bool :=
  match t.read with
  | .datagram rx =>
      match DownTest.statusOf s rx with
      | .ok (some st) => decide (rx.now ≤ cutoff) || decide (st.testAction ≠ testActionTest)
      | _ => true
  | _ => true

theorem UpTurn.watchdog_le_of_stopsBy {cutoff : Time} {t : UpTurn} (h : t.stopsBy s cutoff = true)
    {u u' : UpTest} (habs : u.absorb s t.read = .ok u') (hloop : u'.looping = true)
    (hle : u.watchdog ≤ cutoff + watchdogTimeout) : u'.watchdog ≤ cutoff + watchdogTimeout := by
  unfold UpTurn.stopsBy at h
  cases hr : t.read with
  | timeout r =>
      rw [hr] at habs
      cases habs
      exact hle
  | failed r =>
      rw [hr] at habs
      cases habs
      exact hle
  | batch rxNow msgs =>
      simp only [hr, Bool.or_eq_true, List.isEmpty_iff, decide_eq_true_eq, or_assoc] at h
      rw [hr, UpTest.absorb, UpTest.receive_eq] at habs
      cases habs
      obtain ⟨hdog, hdone⟩ := UpTest.foldl_accept rxNow (UpTest.loads s msgs) u
      rw [hdog]
      rcases h with hnone | hearly | hany
      · rw [if_pos hnone]
        exact hle
      · split
        · exact hle
        · exact Int.add_le_add_right hearly _
      · -- the stop ends the loop, whatever it does to the watchdog
        rw [UpTest.looping, hdone, hany, Bool.or_true, Bool.not_true, Bool.and_false] at hloop
        cases hloop

theorem DownTurn.watchdog_le_of_stopsBy {cutoff : Time} {t : DownTurn} (h : t.stopsBy s cutoff = true)
    {d d' : DownTest} (habs : d.absorb s t.read = .ok d') (hloop : d'.running = true)
    (hle : d.watchdog ≤ cutoff + watchdogTimeout) : d'.watchdog ≤ cutoff + watchdogTimeout := by
  unfold DownTurn.stopsBy at h
  rcases DownTest.absorb_cases s d t.read with ⟨r, hr, ha⟩ | ⟨r, hr, ha⟩ | ⟨rx, hr, -, ha⟩ |
    ⟨rx, st, hr, hst, ha⟩ <;> rw [ha] at habs <;> cases habs
  · exact hle
  · exact hle
  · exact hle
  · simp only [hr, hst, Bool.or_eq_true, decide_eq_true_eq] at h
    unfold DownTest.apply at hloop ⊢
    rcases h with hearly | hstop
    · have hfed : rx.now + watchdogTimeout ≤ cutoff + watchdogTimeout :=
        Int.add_le_add_right hearly _
      split <;> exact hfed
    · rw [if_pos hstop] at hloop
      cases hloop

/-- **Test duration against a client that stops.** `slack` is the time the
server needs from the return of a read to the next turn. A client whose last
PDU without a stop is read by `D` + 500 ms + one watchdog period (less
`slack`) sees no turn begin after `D` + 500 ms + two periods, in either
direction. -/
theorem test_duration_bounded (srv : Server) (s₀ : Session) (req : TestActPDU) (d : Rx)
    (start : Time) (slack : Duration) (hslack : slack ≤ watchdogTimeout) :
    let s := s₀.activate srv req d
    let cutoff := start + s.p.duration + 500 * millisecond + watchdogTimeout - slack
    let bound := start + s.p.duration + 500 * millisecond + 2 * watchdogTimeout
    (∀ ts, (run ((upLoop srv s).step slack) ⟨s.newUpTest srv start, start⟩ ts).isSome = true →
        (∀ t ∈ ts, t.stopsBy s cutoff = true) → ∀ t ∈ ts, t.now ≤ bound) ∧
      ∀ ts, (run ((downLoop s).step slack) ⟨s.newDownTest srv start, start⟩ ts).isSome = true →
        (∀ t ∈ ts, t.stopsBy s cutoff = true) → ∀ t ∈ ts, t.now ≤ bound := by
  intro s cutoff bound
  have hpos : (0 : Int) ≤ s.p.duration := by
    have hdur := (policeDuration_range srv.cfg req).1
    show (0 : Int) ≤ policeDuration srv.cfg req * 1000000000
    omega
  have hbound : (cutoff + watchdogTimeout : Int) + slack = bound := by
    show (_ : Int) = _
    simp only [cutoff, bound]
    ring
  -- the first watchdog is within the limit because the test lasts
  have hfirst : (start : Int) ≤ start + watchdogTimeout ∧
      (start + watchdogTimeout : Int) ≤ cutoff + watchdogTimeout := by
    have hroom : ∀ a b c : Int, 0 ≤ b → c ≤ 3 * 1000000000 →
        a ≤ a + b + 500 * 1000000 + 3 * 1000000000 - c := by
      intro a b c hb hc
      omega
    have hcut : (start : Int) ≤ cutoff := hroom start s.p.duration slack hpos hslack
    exact ⟨Int.le_add_of_nonneg_right (by decide), Int.add_le_add_right hcut _⟩
  constructor
  · intro ts hrun hstops t ht
    obtain ⟨y, hy⟩ := Option.isSome_iff_exists.mp hrun
    have hle := upLoop_watched.begins_le
      (fun t ht u u' habs hloop hle => UpTurn.watchdog_le_of_stopsBy (hstops t ht) habs hloop hle)
      hy (fun _ => hfirst) t ht
    rw [hbound] at hle
    exact hle
  · intro ts hrun hstops t ht
    obtain ⟨y, hy⟩ := Option.isSome_iff_exists.mp hrun
    have hle := downLoop_watched.begins_le
      (fun t ht d d' habs hloop hle =>
        DownTurn.watchdog_le_of_stopsBy (hstops t ht) habs hloop hle)
      hy (fun _ => hfirst) t ht
    rw [hbound] at hle
    exact hle

/-! ### A test of one second -/

def briefServer : Server := (newServer { maxTestSeconds := 1 }).indexed

/-- The client of the test. -/
def testPeer : AddrPort := { addr := .v4 0, port := 40000 }

def briefSession : Session :=
  Session.activate briefServer
    { port := 5000
      setupPeer := testPeer
      pver := protocolVer
      authMode := 0
      keys := none
      legacyKey := none
      bwMbps := 0
      bwUpstream := false }
    { cmdRequest := cmdTestActDownstream, srIndexConf := srIndexAuto }
    { peer := testPeer, data := [] }

/-- A turn at `now` seconds that reads status message `n`, with its action,
two seconds later. -/
def statusTurn (now : Int) (n : Nat) (action : UInt8) : DownTurn where
  now := now * second
  read := .datagram {
    peer := testPeer
    data := encodeBE 2 pduIDStatus.toNat ++ [action, 0] ++ encodeBE 4 n ++ List.replicate 196 0
    now := (now + 2) * second }

theorem test_duration_bounded_brief :
    (∀ t ∈ [({ now := 0, read := .timeout (50 * millisecond) } : UpTurn)],
        t.now ≤ 0 + briefSession.p.duration + 500 * millisecond + 2 * watchdogTimeout) ∧
      ∀ t ∈ [statusTurn 0 1 testActionTest, statusTurn 2 2 testActionStop2],
        t.now ≤ 0 + briefSession.p.duration + 500 * millisecond + 2 * watchdogTimeout := by
  obtain ⟨hup, hdown⟩ := test_duration_bounded briefServer _ _ _ 0 0 (by decide)
  exact ⟨hup _ (by decide +kernel) (by decide +kernel),
    hdown _ (by decide +kernel) (by decide +kernel)⟩

/-- A client that keeps sending status messages without a stop, every two
seconds, is still served after the bound of 7.5 seconds. -/
theorem test_duration_exceeded :
    briefSession.p.duration = second ∧
      (run ((downLoop briefSession).step 0) ⟨briefSession.newDownTest briefServer 0, 0⟩
        [statusTurn 0 1 testActionTest, statusTurn 2 2 testActionTest,
          statusTurn 4 3 testActionTest, statusTurn 6 4 testActionTest,
          statusTurn 8 5 testActionTest]).isSome = true ∧
      0 + briefSession.p.duration + 500 * millisecond + 2 * watchdogTimeout <
        (statusTurn 8 5 testActionTest).now := by
  exact ⟨by decide +kernel, by decide +kernel, by decide +kernel⟩

end Diagd.Udpst
