import Diagd.Udpst.Ledger

/-!
# Shutdown

`Close` sets the flag that `newSessionSocket` checks, closes the control
socket and waits for the wait group. A request is counted at the check but
joins the group only after its response is sent, so a request between the
two is invisible to the wait: `Close` can return before its session starts.

When no session is counted at the moment the wait ends, nothing is in that
window. The server is then `Drained`: every session goroutine has ended, and
the flag keeps every later request from being counted, so that none starts.
-/

namespace Diagd.Udpst

open GoSlice GoStd Resumption Account

/-- The step with which `Close` returns is taken only when no session is
counted. -/
def ReturnsIdle (s : System) : Label → Prop
  | .close => s.closer = .socketClosed → s.shared.sessions = 0
  | _ => True

instance ReturnsIdle.decidable (s : System) : (l : Label) → Decidable (ReturnsIdle s l)
  | .close =>
      inferInstanceAs (Decidable (s.closer = .socketClosed → s.shared.sessions = 0))
  | .recv _ _ | .setup _ | .finish | .thread _ _ => .isTrue trivial

/-- Every session has ended and no request can be counted any more. -/
structure Drained (s : System) : Prop where
  closed : s.shared.closed = true
  idle : s.shared.sessions = 0
  ended : ∀ th ∈ s.threads, th.phase = .ended

/-- A reservation touches neither the flag nor the count. -/
theorem Shared.reserve_frame (sh : Shared) (limit : Int) (upstream : Bool) (mbw : Int) :
    (sh.reserve limit upstream mbw).2.closed = sh.closed ∧
      (sh.reserve limit upstream mbw).2.sessions = sh.sessions := by
  unfold Shared.reserve
  by_cases hlimit : limit < (if upstream then sh.usedUS else sh.usedDS) + mbw
  · simp only [if_pos hlimit, and_self]
  · simp only [if_neg hlimit]
    cases upstream <;> exact ⟨rfl, rfl⟩

section Operations

variable {hmac : HMAC} {cfg : Config} {req : SetupPDU} {raw : Bytes} {peer : AddrPort}
variable {st : Progress} {o : SetupOp}

theorem exec_closed (o : SetupOp) (env : Env) (sh : Shared) :
    (SetupOp.exec cfg o env sh).2.closed = sh.closed := by
  cases o with
  | reserveBandwidth upstream mbw => exact (sh.reserve_frame _ upstream mbw).1
  | releaseBandwidth upstream mbw => cases upstream <;> rfl
  | countSession =>
      rcases sh.countSession_cases cfg.maxSessions with ⟨err, hno⟩ | ⟨-, hyes⟩
      · simp only [SetupOp.exec, hno]
      · simp only [SetupOp.exec, hyes]
  | countResponse code =>
      simp only [SetupOp.exec]
      split <;> rfl
  | _ => rfl

/-- Once the flag is set, a request that is not counted starts nothing and
leaves the count alone. -/
theorem exec_of_closed (ha : st.Allowed hmac cfg req raw peer o) (hslot : st.slot = false)
    (env : Env) {sh : Shared} (hclosed : sh.closed = true) :
    (SetupOp.exec cfg o env sh).2.sessions = sh.sessions ∧ SetupOp.spawned o = none := by
  cases o with
  | start sess =>
      have hcounted : st.slot = true := ha.2.1
      rw [hslot] at hcounted
      cases hcounted
  | sessionDone =>
      have hcounted : st.slot = true := ha.2.1
      rw [hslot] at hcounted
      cases hcounted
  | countSession =>
      refine ⟨?_, rfl⟩
      simp only [SetupOp.exec, Shared.countSession, if_pos hclosed]
  | reserveBandwidth upstream mbw => exact ⟨(sh.reserve_frame _ upstream mbw).2, rfl⟩
  | releaseBandwidth upstream mbw => cases upstream <;> exact ⟨rfl, rfl⟩
  | countResponse code =>
      refine ⟨?_, rfl⟩
      simp only [SetupOp.exec]
      split <;> rfl
  | _ => exact ⟨rfl, rfl⟩

end Operations

section Runs

variable {hmac : HMAC} {srv : Server} {s s' : System} {st : Progress} {l : Label}

/-- With no session counted, the request being handled is not counted. -/
theorem Balanced.slot_free (h : Balanced hmac srv s st) (hidle : s.shared.sessions = 0) :
    st.slot = false := by
  have hsum : s.shared.sessions
      = total (Thread.holds .session) s.threads + if st.slot then 1 else 0 := h.sum .session
  have hthreads : 0 ≤ total (Thread.holds .session) s.threads := by
    apply total_nonneg
    intro th _
    simp only [Thread.holds]
    split <;> decide
  cases hslot : st.slot with
  | false => rfl
  | true =>
      rw [hslot, if_pos rfl] at hsum
      omega

/-- With the wait group empty, every session goroutine has ended. -/
theorem Balanced.ended_of_wg (h : Balanced hmac srv s st) (hwg : s.shared.wg = 0) :
    ∀ th ∈ s.threads, th.phase = .ended := by
  have hmember : ∀ th : Thread, 0 ≤ th.holds .member := by
    intro th
    simp only [Thread.holds]
    split <;> decide
  have hsum : s.shared.wg = total (Thread.holds .member) s.threads
      + if st.stage = .registered then 1 else 0 := h.sum .member
  have htotal : total (Thread.holds .member) s.threads ≤ 0 := by
    split at hsum <;> omega
  intro th hth
  have hle : th.holds .member ≤ total (Thread.holds .member) s.threads := by
    refine List.single_le_sum ?_ _ (List.mem_map_of_mem hth)
    intro x hx
    obtain ⟨th', -, rfl⟩ := List.mem_map.mp hx
    exact hmember th'
  by_contra hphase
  rw [Thread.holds, if_neg hphase] at hle
  omega

/-- A drained server stays as it is: no step starts a session. -/
theorem Drained.step (hb : Balanced hmac srv s st) (hd : Drained s)
    (hstep : s.step hmac srv l = some s') : Drained s' ∧ s'.threads = s.threads := by
  cases (moves_of_step hstep).2 with
  | ignore _ => exact ⟨hd, rfl⟩
  | arrive _ _ => exact ⟨⟨hd.closed, hd.idle, hd.ended⟩, rfl⟩
  | @op env origin o k hprog =>
      have hhand := hb.hand
      rw [hprog] at hhand
      obtain ⟨hcount, hspawn⟩ :=
        exec_of_closed (inHand_allowed hhand) (hb.slot_free hd.idle) env hd.closed
      have hthreads : s.threads ++ (SetupOp.spawned o).toList.map (fun sess =>
          ({ origin := origin.record o env, sess := sess } : Thread)) = s.threads := by
        rw [hspawn, Option.toList_none, List.map_nil, List.append_nil]
      refine ⟨⟨(exec_closed o env s.shared).trans hd.closed, hcount.trans hd.idle, ?_⟩, hthreads⟩
      intro th hth
      exact hd.ended th (hthreads ▸ hth)
  | crash _ => exact ⟨⟨hd.closed, hd.idle, hd.ended⟩, rfl⟩
  | finish _ => exact ⟨⟨hd.closed, hd.idle, hd.ended⟩, rfl⟩
  | @thread i ev th th' sh hth hmove =>
      -- a goroutine that has ended does not move
      have hend := hd.ended th (List.mem_of_getElem? hth)
      cases hmove with
      | skip hphase _ => cases hend.symm.trans hphase
      | activate hphase _ => cases hend.symm.trans hphase
      | exit hphase => rcases hphase with hphase | hphase <;> cases hend.symm.trans hphase
      | release hphase => cases hend.symm.trans hphase
      | uncount hphase => cases hend.symm.trans hphase
      | done hphase => cases hend.symm.trans hphase
  | panic _ _ _ => exact ⟨⟨hd.closed, hd.idle, hd.ended⟩, rfl⟩
  | @close c sh hclose =>
      obtain ⟨shared, handling, threads, closer, crashed⟩ := s
      cases closer with
      | idle => cases hclose; exact ⟨⟨rfl, hd.idle, hd.ended⟩, rfl⟩
      | flagged => cases hclose; exact ⟨⟨hd.closed, hd.idle, hd.ended⟩, rfl⟩
      | socketClosed =>
          cases (Option.ite_none_right_eq_some.mp hclose).2
          exact ⟨⟨hd.closed, hd.idle, hd.ended⟩, rfl⟩
      | returned => cases hclose

/-- What is known at each point of `Close`. -/
structure Closing (hmac : HMAC) (srv : Server) (s : System) : Prop where
  balanced : ∃ st, Balanced hmac srv s st
  flagged : s.closer ≠ .idle → s.shared.closed = true
  drained : s.closer = .returned → Drained s

theorem closing_init : Closing hmac srv (System.init srv) :=
  ⟨⟨{}, balanced_init⟩, fun h => absurd rfl h, fun h => by cases h⟩

/-- No step clears the flag. -/
theorem closed_step (hclosed : s.shared.closed = true) (hstep : s.step hmac srv l = some s') :
    s'.shared.closed = true := by
  cases (moves_of_step hstep).2 with
  | op _ => exact (exec_closed _ _ _).trans hclosed
  | @thread i ev th th' sh hth hmove =>
      cases hmove with
      | release _ =>
          show (if 0 < th.sess.bwMbps then _ else s.shared).closed = true
          split
          · unfold Shared.release
            split <;> exact hclosed
          · exact hclosed
      | _ => exact hclosed
  | close hclose =>
      obtain ⟨shared, handling, threads, closer, crashed⟩ := s
      cases closer with
      | idle => cases hclose; rfl
      | flagged => cases hclose; exact hclosed
      | socketClosed => cases (Option.ite_none_right_eq_some.mp hclose).2; exact hclosed
      | returned => cases hclose
  | _ => exact hclosed

theorem closing_step (h : Closing hmac srv s) (hl : ReturnsIdle s l)
    (hstep : s.step hmac srv l = some s') : Closing hmac srv s' := by
  obtain ⟨st, hb⟩ := h.balanced
  refine ⟨balanced_step hb hstep, ?_, ?_⟩
  · intro hne
    by_cases hold : s.closer = .idle
    · -- only the first step of `Close` leaves `idle`, and it sets the flag
      cases (moves_of_step hstep).2 with
      | close hclose =>
          rw [hold] at hclose
          cases hclose
          rfl
      | _ => exact absurd hold hne
    · exact closed_step (h.flagged hold) hstep
  · intro hret
    by_cases hold : s.closer = .returned
    · exact (Drained.step hb (h.drained hold) hstep).1
    · cases (moves_of_step hstep).2 with
      | @close c sh hclose =>
          cases hc : s.closer with
          | idle => rw [hc] at hclose; cases hclose; cases hret
          | flagged => rw [hc] at hclose; cases hclose; cases hret
          | socketClosed =>
              rw [hc] at hclose
              obtain ⟨hwg, hsame⟩ := Option.ite_none_right_eq_some.mp hclose
              cases hsame
              exact ⟨h.flagged (by simp [hc]), hl hc, hb.ended_of_wg hwg⟩
          | returned => exact absurd hc hold
      | _ => exact absurd hret hold

/-- **`Close` drains the server**, in every run in which no session is counted
when its wait ends: once it has returned no session is running, and none
starts in whatever follows. -/
theorem close_drains {ls : List Label}
    (hidle : Transition.Meets (System.step hmac srv) ReturnsIdle (System.init srv) ls)
    (hrun : Transition.run (System.step hmac srv) (System.init srv) ls = some s)
    (hret : s.closer = .returned) :
    (∀ th ∈ s.threads, th.phase = .ended) ∧
      ∀ later s', Transition.run (System.step hmac srv) s later = some s' →
        s'.threads = s.threads := by
  have hclosing : Closing hmac srv s :=
    Transition.run_preserves_of_meets (fun _ _ _ hi hp hs => closing_step hi hp hs) closing_init
      hidle hrun
  have hdrained := hclosing.drained hret
  refine ⟨hdrained.ended, ?_⟩
  intro later s' hlater
  have hkept : (∃ st, Balanced hmac srv s' st) ∧ Drained s' ∧ s'.threads = s.threads := by
    refine Transition.run_preserves
      (I := fun t => (∃ st, Balanced hmac srv t st) ∧ Drained t ∧ t.threads = s.threads) ?_
      ⟨hclosing.balanced, hdrained, rfl⟩ hlater
    rintro t l t' ⟨⟨st, hb⟩, hd, heq⟩ hs
    obtain ⟨hd', hsame⟩ := hd.step hb hs
    exact ⟨balanced_step hb hs, hd', hsame.trans heq⟩
  exact hkept.2.2

end Runs

/-! ### A server without keys -/

def plainServer : Server := newServer {}

def plainRequest : SetupPDU where
  protocolVer := protocolVer
  mcCount := 1
  cmdRequest := cmdSetupRequest

/-- A whole session, and `Close` after it. -/
def orderlyRun : List Label :=
  .recv clientAddr plainRequest.layout :: (List.replicate 8 (.setup freePorts) ++
    [.finish, .thread 0 .exit, .thread 0 .teardown, .thread 0 .teardown, .thread 0 .teardown,
      .close, .close, .close])

theorem close_drains_orderlyRun : ∃ s, Reachable zeroHMAC plainServer s ∧
    s.closer = .returned ∧ s.threads.length = 1 ∧ ∀ th ∈ s.threads, th.phase = .ended := by
  have hrun : (Transition.run (System.step zeroHMAC plainServer) (System.init plainServer)
      orderlyRun).map (fun s => (s.closer, s.threads.length)) = some (.returned, 1) := by
    decide +kernel
  have hidle : Transition.Meets (System.step zeroHMAC plainServer) ReturnsIdle
      (System.init plainServer) orderlyRun := by
    decide +kernel
  obtain ⟨s, hs, hfacts⟩ := Option.map_eq_some_iff.mp hrun
  obtain ⟨hret, hlen⟩ := Prod.mk.inj hfacts
  refine ⟨s, ⟨orderlyRun, hs⟩, hret, hlen, (close_drains hidle hs hret).1⟩

/-- `Close` runs between the check of the flag and the registration of the
session. -/
def racingRun : List Label :=
  .recv clientAddr plainRequest.layout :: .setup freePorts ::
    ([.close, .close, .close] ++ List.replicate 7 (.setup freePorts))

/-- `Close` has returned and a session waits for its activation. -/
theorem close_returns_early : ∃ s, Reachable zeroHMAC plainServer s ∧ s.closer = .returned ∧
    s.threads.map (fun th => th.phase) = [.awaiting] := by
  have hrun : (Transition.run (System.step zeroHMAC plainServer) (System.init plainServer)
      racingRun).map (fun s => (s.closer, s.threads.map fun th => th.phase))
        = some (.returned, [.awaiting]) := by
    decide +kernel
  obtain ⟨s, hs, hfacts⟩ := Option.map_eq_some_iff.mp hrun
  obtain ⟨hret, hphase⟩ := Prod.mk.inj hfacts
  exact ⟨s, ⟨racingRun, hs⟩, hret, hphase⟩

end Diagd.Udpst
