import Diagd.Lib.Account
import Diagd.Udpst.Lineage

/-!
# The admission ledger

`usedUS`, `usedDS`, `sessions` and the wait group are the entries of one
ledger. Each is a sum: over what the session goroutines hold in their
phases, plus what the request being handled has in hand. `Balanced` states
this for all entries at once and is preserved by every step of every
goroutine, because the protocol of `Handler` lets a request reserve, release
and pass on only what is in hand.

The bounds follow, and the comparison of two runs: a request that is refused
leaves the server as the run without it does.
-/

namespace Diagd.Udpst

open GoSlice GoStd Resumption Account

/-! ## Entries -/

inductive Entry where
  /-- Mbps allocated in one direction -/
  | bandwidth (upstream : Bool)
  | session
  /-- the wait group -/
  | member
  deriving DecidableEq, Repr

/-- The server's own figures. -/
def Shared.balance (sh : Shared) : Entry → Int
  | .bandwidth true => sh.usedUS
  | .bandwidth false => sh.usedDS
  | .session => sh.sessions
  | .member => sh.wg

/-- What a session goroutine holds. -/
def Thread.holds (e : Entry) (th : Thread) : Int :=
  match e with
  | .bandwidth upstream =>
      if th.phase.holdsBandwidth ∧ th.sess.bwUpstream = upstream then th.sess.bwMbps else 0
  | .session => if th.phase.holdsSlot then 1 else 0
  | .member => if th.phase = .ended then 0 else 1

/-- What a request in the direction `upstream` has in hand. -/
def Progress.holds (st : Progress) (upstream : Bool) : Entry → Int
  | .bandwidth dir => if upstream = dir then st.reserved else 0
  | .session => if st.slot then 1 else 0
  | .member => if st.stage = .registered then 1 else 0

/-- The direction of the request being handled. -/
def wantsUpstream : Option Handling → Bool
  | none => false
  | some h => h.origin.req.wantsUpstream

/-! ## Single updates -/

namespace Shared

variable (sh : Shared)

theorem balance_release (upstream : Bool) (mbw : Int) (e : Entry) :
    (sh.release upstream mbw).balance e
      = sh.balance e - if e = .bandwidth upstream then mbw else 0 := by
  cases upstream <;> rcases e with (_ | _) | _ | _ <;> simp [release, balance]

theorem balance_uncountSession (e : Entry) :
    sh.uncountSession.balance e = sh.balance e - if e = .session then 1 else 0 := by
  rcases e with (_ | _) | _ | _ <;> simp [uncountSession, balance]

/-- A reservation is refused, or stays within the limit. -/
theorem reserve_cases (limit : Int) (upstream : Bool) (mbw : Int) :
    sh.reserve limit upstream mbw = (false, sh) ∨
      sh.balance (.bandwidth upstream) + mbw ≤ limit ∧
        (sh.reserve limit upstream mbw).1 = true ∧
        (sh.reserve limit upstream mbw).2.nextPort = sh.nextPort ∧
        ∀ e, (sh.reserve limit upstream mbw).2.balance e
          = sh.balance e + if e = .bandwidth upstream then mbw else 0 := by
  unfold reserve
  by_cases hlimit : limit < (if upstream then sh.usedUS else sh.usedDS) + mbw
  · exact .inl (if_pos hlimit)
  · simp only [if_neg hlimit]
    refine .inr ⟨?_, trivial, ?_, ?_⟩
    · cases upstream <;> simpa [balance] using hlimit
    · cases upstream <;> rfl
    · intro e
      cases upstream <;> rcases e with (_ | _) | _ | _ <;> simp [balance]

theorem countSession_cases (maxSessions : Int) :
    (∃ err, sh.countSession maxSessions = (some err, sh)) ∨
      sh.sessions < maxSessions ∧
        sh.countSession maxSessions = (none, { sh with sessions := sh.sessions + 1 }) := by
  unfold countSession
  by_cases hclosed : sh.closed
  · exact .inl ⟨_, if_pos hclosed⟩
  · rw [if_neg hclosed]
    by_cases hmax : maxSessions ≤ sh.sessions
    · exact .inl ⟨_, if_pos hmax⟩
    · exact .inr ⟨not_le.mp hmax, if_neg hmax⟩

end Shared

/-! ## One operation of the handler -/

section Exec

variable {hmac : HMAC} {cfg : Config} {req : SetupPDU} {raw : Bytes} {peer : AddrPort}
variable {st : Progress} {o : SetupOp}

/-- The goroutines an operation starts. -/
def spawnedThreads (o : SetupOp) (origin : Origin) : List Thread :=
  (SetupOp.spawned o).toList.map fun sess => { origin := origin, sess := sess }

/-- **The handler conserves every entry**: what an operation adds to the
server's figures is in hand afterwards, or held by the session it starts. -/
theorem exec_balance (ha : st.Allowed hmac cfg req raw peer o) (env : Env) (sh : Shared)
    (origin : Origin) (e : Entry) :
    (SetupOp.exec cfg o env sh).2.balance e + st.holds req.wantsUpstream e
      = sh.balance e + (st.next o (SetupOp.exec cfg o env sh).1).holds req.wantsUpstream e
        + total (Thread.holds e) (spawnedThreads o origin) := by
  have hsame : ∀ st' : Progress, st'.holds req.wantsUpstream e = st.holds req.wantsUpstream e →
      sh.balance e + st.holds req.wantsUpstream e
        = sh.balance e + st'.holds req.wantsUpstream e + 0 := by
    intro st' h
    rw [h, add_zero]
  cases o with
  | now => exact hsame _ rfl
  | readNextPort => exact hsame _ rfl
  | listenUDP port => exact hsame _ rfl
  | reserveBandwidth upstream mbw =>
      obtain ⟨-, hres, -, rfl, -⟩ := ha
      rcases sh.reserve_cases cfg.maxBandwidthMbps req.wantsUpstream mbw with
        hno | ⟨-, hyes, -, hbal⟩
      · simp only [SetupOp.exec, hno]
        exact hsame _ rfl
      · simp only [SetupOp.exec, hbal, hyes, Progress.next, if_true]
        rcases e with dir | _ | _
        · simp [Progress.holds, spawnedThreads, SetupOp.spawned, hres, eq_comm]
        · simp [Progress.holds, spawnedThreads, SetupOp.spawned]
        · simp [Progress.holds, spawnedThreads, SetupOp.spawned]
  | releaseBandwidth upstream mbw =>
      obtain ⟨-, rfl, rfl⟩ := ha
      simp only [SetupOp.exec, Shared.balance_release, Progress.next]
      rcases e with dir | _ | _
      · simp [Progress.holds, spawnedThreads, SetupOp.spawned, eq_comm]
      · simp [Progress.holds, spawnedThreads, SetupOp.spawned]
      · simp [Progress.holds, spawnedThreads, SetupOp.spawned]
  | countSession =>
      obtain ⟨-, hslot⟩ := ha
      rcases sh.countSession_cases cfg.maxSessions with ⟨err, hno⟩ | ⟨-, hyes⟩
      · simp only [SetupOp.exec, hno]
        exact hsame _ rfl
      · simp only [SetupOp.exec, hyes, Progress.next, Option.isNone_none, if_true]
        rcases e with (_ | _) | _ | _ <;>
          simp [Shared.balance, Progress.holds, spawnedThreads, SetupOp.spawned, hslot]
  | sessionDone =>
      obtain ⟨-, hslot, -⟩ := ha
      simp only [SetupOp.exec, Shared.balance_uncountSession, Progress.next]
      rcases e with dir | _ | _ <;>
        simp [Progress.holds, spawnedThreads, SetupOp.spawned, hslot]
  | advanceNextPort port =>
      rcases e with (_ | _) | _ | _ <;> exact hsame _ rfl
  | countResponse code =>
      obtain ⟨hstage, -⟩ := ha
      have hbal : (SetupOp.exec cfg (.countResponse code) env sh).2.balance e = sh.balance e := by
        simp only [SetupOp.exec]
        split <;> rcases e with (_ | _) | _ | _ <;> rfl
      rw [hbal]
      refine hsame { st with stage := .counted code } ?_
      rcases e with dir | _ | _ <;> simp [Progress.holds, hstage]
  | sendResponse pdu dst =>
      obtain ⟨hstage, -⟩ := ha
      have hbal : (SetupOp.exec cfg (.sendResponse pdu dst) env sh).2.balance e = sh.balance e := by
        rcases e with (_ | _) | _ | _ <;> rfl
      rw [hbal]
      refine hsame { st with stage := .answered (pdu.getD 9 0) } ?_
      rcases e with dir | _ | _ <;> simp [Progress.holds, hstage]
  | sendNull pdu dst =>
      rcases e with (_ | _) | _ | _ <;> exact hsame _ rfl
  | wgAdd =>
      have hstage : st.stage = .answered setupRespACKOK := ha
      rcases e with (_ | _) | _ | _
      · exact hsame _ rfl
      · exact hsame _ rfl
      · exact hsame _ rfl
      · simp [SetupOp.exec, Shared.balance, Progress.next, Progress.holds, spawnedThreads,
          SetupOp.spawned, hstage]
  | start sess =>
      obtain ⟨hstage, hslot, hmbw, hup, -⟩ := ha
      rcases e with dir | _ | _ <;>
        simp [SetupOp.exec, Progress.next, Progress.holds, spawnedThreads, SetupOp.spawned,
          Thread.holds, Phase.holdsBandwidth, Phase.holdsSlot, hstage, hslot, hmbw, hup]

/-- Reservations are positive, and made only with admission control on. -/
structure Progress.Sound (cfg : Config) (st : Progress) : Prop where
  nonneg : 0 ≤ st.reserved
  off : cfg.maxBandwidthMbps ≤ 0 → st.reserved = 0

theorem Progress.Sound.next (h : st.Sound cfg) (ha : st.Allowed hmac cfg req raw peer o)
    (r : o.Res) : (st.next o r).Sound cfg := by
  cases o with
  | reserveBandwidth upstream mbw =>
      obtain ⟨-, -, hon, -, hpos⟩ := ha
      simp only [Progress.next]
      split
      · exact ⟨le_of_lt hpos, fun hoff => absurd hon (not_lt.mpr hoff)⟩
      · exact h
  | releaseBandwidth upstream mbw => exact ⟨le_refl 0, fun _ => rfl⟩
  | start sess => exact ⟨le_refl 0, fun _ => rfl⟩
  | countSession =>
      simp only [Progress.next]
      split
      · exact ⟨h.nonneg, h.off⟩
      · exact h
  | _ => exact ⟨h.nonneg, h.off⟩

/-- Only a reservation within the limit raises a bandwidth entry. -/
theorem exec_bandwidth_le (ha : st.Allowed hmac cfg req raw peer o) (hst : st.Sound cfg)
    (env : Env) (sh : Shared) (dir : Bool) :
    (SetupOp.exec cfg o env sh).2.balance (.bandwidth dir)
      ≤ max (sh.balance (.bandwidth dir)) cfg.maxBandwidthMbps := by
  have hsame : sh.balance (.bandwidth dir)
      ≤ max (sh.balance (.bandwidth dir)) cfg.maxBandwidthMbps := le_max_left _ _
  cases o with
  | reserveBandwidth upstream mbw =>
      rcases sh.reserve_cases cfg.maxBandwidthMbps upstream mbw with hno | ⟨hle, -, -, hbal⟩
      · simpa only [SetupOp.exec, hno] using hsame
      · simp only [SetupOp.exec, hbal]
        by_cases hdir : dir = upstream
        · subst hdir
          simpa using .inr hle
        · simp [hdir]
  | releaseBandwidth upstream mbw =>
      obtain ⟨-, -, rfl⟩ := ha
      have := hst.nonneg
      simp only [SetupOp.exec, Shared.balance_release]
      refine le_trans ?_ hsame
      split <;> omega
  | countSession =>
      rcases sh.countSession_cases cfg.maxSessions with ⟨err, hno⟩ | ⟨-, hyes⟩
      · simpa only [SetupOp.exec, hno] using hsame
      · simp only [SetupOp.exec, hyes]
        cases dir <;> exact hsame
  | countResponse code =>
      simp only [SetupOp.exec]
      split <;> cases dir <;> exact hsame
  | _ => cases dir <;> exact hsame

/-- Only a count below the limit raises the number of sessions. -/
theorem exec_sessions_le (env : Env) (sh : Shared) :
    (SetupOp.exec cfg o env sh).2.sessions ≤ max sh.sessions cfg.maxSessions := by
  have hsame : sh.sessions ≤ max sh.sessions cfg.maxSessions := le_max_left _ _
  cases o with
  | reserveBandwidth upstream mbw =>
      rcases sh.reserve_cases cfg.maxBandwidthMbps upstream mbw with hno | ⟨-, -, -, hbal⟩
      · simpa only [SetupOp.exec, hno] using hsame
      · have hsess := hbal .session
        simp only [SetupOp.exec]
        exact le_trans (le_of_eq (by simpa [Shared.balance] using hsess)) hsame
  | releaseBandwidth upstream mbw =>
      have hsess := sh.balance_release upstream mbw .session
      simp only [SetupOp.exec]
      exact le_trans (le_of_eq (by simpa [Shared.balance] using hsess)) hsame
  | countSession =>
      rcases sh.countSession_cases cfg.maxSessions with ⟨err, hno⟩ | ⟨hlt, hyes⟩
      · simpa only [SetupOp.exec, hno] using hsame
      · simp only [SetupOp.exec, hyes]
        exact le_trans (Int.add_one_le_of_lt hlt) (le_max_right _ _)
  | sessionDone => exact le_trans (Int.sub_le_self _ (by decide)) hsame
  | countResponse code =>
      simp only [SetupOp.exec]
      split <;> exact hsame
  | _ => exact hsame

end Exec

/-! ## One step of a session goroutine -/

section Threads

variable {hmac : HMAC} {srv : Server} {th th' : Thread} {sh sh' : Shared} {ev : ThreadEvent}

/-- A session is charged what its request asked for, before and after
activation. -/
theorem Lineage.bandwidth (h : Lineage hmac srv th) :
    th.sess.bwMbps = th.origin.req.charge srv.cfg ∧
      th.sess.bwUpstream = th.origin.req.wantsUpstream := by
  obtain ⟨sess, hgrant, hact⟩ := h.granted
  obtain ⟨cred, port, rfl, -⟩ := hgrant.created
  cases ha : th.activation with
  | none =>
      simp only [ha] at hact
      rw [hact.1]
      exact ⟨rfl, rfl⟩
  | some d =>
      simp only [ha] at hact
      rw [hact.2.2.2]
      exact ⟨rfl, rfl⟩

theorem charge_nonneg (cfg : Config) (req : SetupPDU) : 0 ≤ req.charge cfg := by
  unfold SetupPDU.charge
  split
  · exact mbw_nonneg req
  · exact le_refl 0

theorem ThreadMoves.origin (h : ThreadMoves hmac srv th sh ev th' sh') :
    th'.origin = th.origin := by
  cases h <;> rfl

/-- **A session goroutine gives back what it holds, entry by entry.** -/
theorem ThreadMoves.balance (h : ThreadMoves hmac srv th sh ev th' sh')
    (hlin : Lineage hmac srv th) (e : Entry) :
    sh'.balance e + th.holds e = sh.balance e + th'.holds e := by
  have hbw := hlin.bandwidth
  have hbw' := (hlin.moves h).bandwidth
  rw [h.origin, ← hbw.1, ← hbw.2] at hbw'
  cases h with
  | @skip d sess hphase hstep =>
      obtain ⟨hmbps, hup⟩ : sess.bwMbps = th.sess.bwMbps ∧ sess.bwUpstream = th.sess.bwUpstream :=
        hbw'
      rcases e with dir | _ | _ <;> simp only [Thread.holds, hmbps, hup]
  | @activate d sess pdu hphase hstep =>
      obtain ⟨hmbps, hup⟩ : sess.bwMbps = th.sess.bwMbps ∧ sess.bwUpstream = th.sess.bwUpstream :=
        hbw'
      rcases e with dir | _ | _ <;>
        simp [Thread.holds, hphase, hmbps, hup, Phase.holdsBandwidth, Phase.holdsSlot]
  | exit hphase =>
      rcases hphase with hphase | hphase <;> rcases e with dir | _ | _ <;>
        simp [Thread.holds, hphase, Phase.holdsBandwidth, Phase.holdsSlot]
  | release hphase =>
      have hnonneg : 0 ≤ th.sess.bwMbps := hbw.1 ▸ charge_nonneg _ _
      by_cases hpos : 0 < th.sess.bwMbps
      · rw [if_pos hpos, Shared.balance_release]
        rcases e with dir | _ | _ <;>
          simp [Thread.holds, hphase, Phase.holdsBandwidth, Phase.holdsSlot, eq_comm]
      · have hzero : th.sess.bwMbps = 0 := le_antisymm (not_lt.mp hpos) hnonneg
        rw [if_neg hpos]
        rcases e with dir | _ | _ <;>
          simp [Thread.holds, hphase, hzero, Phase.holdsBandwidth, Phase.holdsSlot]
  | uncount hphase =>
      rw [Shared.balance_uncountSession]
      rcases e with dir | _ | _ <;>
        simp [Thread.holds, hphase, Phase.holdsBandwidth, Phase.holdsSlot]
  | done hphase =>
      rcases e with (_ | _) | _ | _ <;>
        simp [Thread.holds, hphase, Phase.holdsBandwidth, Phase.holdsSlot, Shared.balance]

/-- Sessions only give back. -/
theorem ThreadMoves.balance_le (h : ThreadMoves hmac srv th sh ev th' sh')
    (hlin : Lineage hmac srv th) (e : Entry) : sh'.balance e ≤ sh.balance e := by
  have hnonneg : 0 ≤ th.sess.bwMbps := hlin.bandwidth.1 ▸ charge_nonneg _ _
  cases h with
  | release _ =>
      split
      · rw [Shared.balance_release]
        split <;> omega
      · exact le_refl _
  | uncount _ =>
      rw [Shared.balance_uncountSession]
      split <;> omega
  | done _ => rcases e with (_ | _) | _ | _ <;> simp [Shared.balance]
  | _ => exact le_refl _

theorem Closer.balance {c c' : Closer} (h : Closer.step sh c = some (c', sh')) (e : Entry) :
    sh'.balance e = sh.balance e := by
  cases c with
  | idle => cases h; rcases e with (_ | _) | _ | _ <;> rfl
  | flagged => cases h; rfl
  | socketClosed => cases (Option.ite_none_right_eq_some.mp h).2; rfl
  | returned => cases h

end Threads

/-! ## The invariant -/

/-- **The books balance**, and stay within the limits. -/
structure Balanced (hmac : HMAC) (srv : Server) (s : System) (st : Progress) : Prop where
  hand : InHand hmac srv.cfg s.handling st
  threads : ∀ th ∈ s.threads, Lineage hmac srv th
  sum : ∀ e, s.shared.balance e
    = total (Thread.holds e) s.threads + st.holds (wantsUpstream s.handling) e
  sound : st.Sound srv.cfg
  bandwidth_le : 0 < srv.cfg.maxBandwidthMbps →
    ∀ dir, s.shared.balance (.bandwidth dir) ≤ srv.cfg.maxBandwidthMbps
  sessions_le : 0 ≤ srv.cfg.maxSessions → s.shared.sessions ≤ srv.cfg.maxSessions

section Invariant

variable {hmac : HMAC} {srv : Server} {s s' : System} {st : Progress} {l : Label}

theorem balanced_init : Balanced hmac srv (System.init srv) {} where
  hand := rfl
  threads := by simp [System.init]
  sum e := by rcases e with (_ | _) | _ | _ <;> rfl
  sound := ⟨le_refl 0, fun _ => rfl⟩
  bandwidth_le h dir := by cases dir <;> exact le_of_lt h
  sessions_le h := h

theorem Progress.Done.holds (h : st.Done) (upstream : Bool) (e : Entry) :
    st.holds upstream e = 0 := by
  obtain ⟨hstage, hres, hslot⟩ | ⟨code, -, hstage, hempty⟩ := h
  · rcases e with dir | _ | _ <;> simp [Progress.holds, hstage, hres, hslot]
  · rcases e with dir | _ | _ <;>
      simp [Progress.holds, hstage, hempty.reserved, hempty.slot]

theorem Progress.holds_initial (upstream : Bool) (e : Entry) :
    ({} : Progress).holds upstream e = 0 := by
  rcases e with dir | _ | _ <;> simp [Progress.holds]

/-- Balance is preserved by every step. -/
theorem balanced_step (h : Balanced hmac srv s st) (hstep : s.step hmac srv l = some s') :
    ∃ st', Balanced hmac srv s' st' := by
  have hthreads := (descended_step ⟨⟨st, h.hand⟩, h.threads⟩ hstep).threads
  have hhand := h.hand
  have hsum := h.sum
  cases (moves_of_step hstep).2 with
  | ignore _ => exact ⟨st, h⟩
  | arrive hidle hraw =>
      rw [hidle] at hhand hsum
      obtain rfl : st = {} := hhand
      refine ⟨{}, inHand_arrive hraw, hthreads, fun e => ?_, h.sound, h.bandwidth_le,
        h.sessions_le⟩
      rw [hsum e, Progress.holds_initial, Progress.holds_initial]
  | @op env origin o k hprog =>
      rw [hprog] at hhand hsum
      have ha := inHand_allowed hhand
      refine ⟨_, inHand_op env s.shared hhand, hthreads, fun e => ?_, h.sound.next ha _,
        fun hon dir => ?_, fun hmax => ?_⟩
      · have hcons := exec_balance ha env s.shared (origin.record o env) e
        have hold : s.shared.balance e
            = total (Thread.holds e) s.threads + st.holds origin.req.wantsUpstream e := hsum e
        show (SetupOp.exec srv.cfg o env s.shared).2.balance e
          = total (Thread.holds e) (s.threads ++ spawnedThreads o (origin.record o env))
            + Progress.holds _ (origin.record o env).req.wantsUpstream e
        rw [total_append, (record_same origin o env).2.2]
        linarith
      · exact le_trans (exec_bandwidth_le ha h.sound env s.shared dir)
          (max_le (h.bandwidth_le hon dir) (le_refl _))
      · exact le_trans (exec_sessions_le env s.shared) (max_le (h.sessions_le hmax) (le_refl _))
  | crash hprog =>
      rw [hprog] at hhand
      exact absurd hhand not_inHand_crash
  | finish hprog =>
      rw [hprog] at hhand hsum
      refine ⟨{}, rfl, hthreads, fun e => ?_, ⟨le_refl 0, fun _ => rfl⟩, h.bandwidth_le,
        h.sessions_le⟩
      rw [hsum e, (inHand_finish hhand).holds, Progress.holds_initial]
  | @thread i ev th th' sh hth hmove =>
      have hlin := h.threads th (List.mem_of_getElem? hth)
      have hle := hmove.balance_le hlin
      refine ⟨st, hhand, hthreads, fun e => ?_, h.sound,
        fun hon dir => le_trans (hle _) (h.bandwidth_le hon dir),
        fun hmax => le_trans (hle .session) (h.sessions_le hmax)⟩
      have hbal := hmove.balance hlin e
      have hset := total_set (f := Thread.holds e) th' hth
      have hold := hsum e
      show sh.balance e = total (Thread.holds e) (s.threads.set i th') + _
      linarith
  | panic _ _ _ => exact ⟨st, hhand, hthreads, hsum, h.sound, h.bandwidth_le, h.sessions_le⟩
  | close hclose =>
      have hbal := Closer.balance hclose
      refine ⟨st, hhand, hthreads, fun e => (hbal e).trans (hsum e), h.sound,
        fun hon dir => (hbal _).trans_le (h.bandwidth_le hon dir),
        fun hmax => le_trans (le_of_eq (hbal .session)) (h.sessions_le hmax)⟩

theorem Reachable.balanced (h : Reachable hmac srv s) : ∃ st, Balanced hmac srv s st :=
  Transition.Reachable.invariant (I := fun s => ∃ st, Balanced hmac srv s st) h
    ⟨{}, balanced_init⟩ fun _ _ _ ⟨_, hi⟩ hs => balanced_step hi hs

end Invariant

end Diagd.Udpst
