import Diagd.Lib.Transition
import Diagd.Udpst.Activation
import Diagd.Udpst.Handler

/-!
# The running server

The `Serve` goroutine, the session goroutines and the goroutine that calls
`Close`, interleaved at their atomic steps. A label says which of them moves
and what the world hands it: a datagram on the control socket, the answer to
the handler's pending operation, a datagram on a session socket, the end of
a test. `Serve` handles one request at a time, so there is at most one
`Handling`; a session goroutine goes through `awaitActivation`, the test,
and the three steps of its teardown.

Threads are never removed: one that has ended stays as its own record, with
the request it came from (`Origin`) and the datagram that activated it.
-/

namespace Diagd.Udpst

open GoSlice GoStd Resumption

/-! ## State -/

/-- A setup request as it arrived, and the clock readings made for it. -/
structure Origin where
  raw : Bytes
  peer : AddrPort
  clocks : List Time := []
  deriving DecidableEq, Repr

def Origin.req (o : Origin) : SetupPDU := SetupPDU.ofBytes o.raw

/-- `handleSetup` between two of its steps. -/
structure Handling where
  origin : Origin
  prog : SetupProg Unit

inductive Phase where
  /-- in `awaitActivation` -/
  | awaiting
  /-- in `runUpstream` or `runDownstream` -/
  | running
  /-- the deferred function has closed the socket -/
  | closing
  /-- and released the bandwidth -/
  | released
  /-- and called `sessionDone` -/
  | uncounted
  /-- `wg.Done()` -/
  | ended
  deriving DecidableEq, Repr

namespace Phase

/-- The session counts as running to its client. -/
def live : Phase → Bool
  | awaiting | running => true
  | closing | released | uncounted | ended => false

def holdsBandwidth : Phase → Bool
  | awaiting | running | closing => true
  | released | uncounted | ended => false

def holdsSlot : Phase → Bool
  | awaiting | running | closing | released => true
  | uncounted | ended => false

/-- Part-way through the teardown. -/
def inTeardown : Phase → Bool
  | closing | released | uncounted => true
  | awaiting | running | ended => false

end Phase

/-- A session goroutine. -/
structure Thread where
  origin : Origin
  sess : Session
  phase : Phase := .awaiting
  activation : Option Rx := none
  deriving DecidableEq, Repr

/-- How far `Close` has come. -/
inductive Closer where
  | idle
  | flagged
  | socketClosed
  | returned
  deriving DecidableEq, Repr

structure System where
  shared : Shared
  handling : Option Handling := none
  threads : List Thread := []
  closer : Closer := .idle
  /-- a panic in any goroutine ends the process -/
  crashed : Option Panic := none

/-- `NewServer`: the mutable fields are zero but for `nextPort`. -/
def System.init (srv : Server) : System where
  shared := { nextPort := srv.cfg.testPortMin }

/-! ## Steps -/

inductive ThreadEvent where
  /-- a datagram read by `awaitActivation` -/
  | rx (d : Rx)
  /-- the activation timeout, or the end of the test -/
  | exit
  /-- the next step of the deferred function -/
  | teardown

inductive Label where
  /-- `Serve` reads a datagram -/
  | recv (peer : AddrPort) (data : Bytes)
  /-- the handler's pending operation is performed -/
  | setup (env : Env)
  /-- `handleSetup` returns to the `Serve` loop -/
  | finish
  | thread (i : Nat) (ev : ThreadEvent)
  /-- the next step of `Close` -/
  | close

/-- The clock reading an operation adds to the record of its request. -/
def Origin.record (o : Origin) : SetupOp → Env → Origin
  | .now, env => { o with clocks := o.clocks ++ [env.now] }
  | _, _ => o

/-- One session goroutine moves; `none` when it cannot. -/
def Thread.step (hmac : HMAC) (srv : Server) (th : Thread) :
    ThreadEvent → Option (Except Panic Thread)
  | .rx d =>
      if th.phase = .awaiting then
        some (do
          match ← activationStep hmac srv th.sess d with
          | (sess, some _) =>
              return { th with sess := sess, phase := .running, activation := some d }
          | (sess, none) => return { th with sess := sess })
      else none
  | .exit => if th.phase.live then some (.ok { th with phase := .closing }) else none
  | .teardown =>
      match th.phase with
      | .closing => some (.ok { th with phase := .released })
      | .released => some (.ok { th with phase := .uncounted })
      | .uncounted => some (.ok { th with phase := .ended })
      | .awaiting | .running | .ended => none

/-- What the move does to the server: the deferred function releases the
bandwidth, calls `sessionDone`, and leaves the wait group. -/
def Thread.effect (th : Thread) : ThreadEvent → Shared → Shared
  | .rx _, sh | .exit, sh => sh
  | .teardown, sh =>
      match th.phase with
      | .closing =>
          if 0 < th.sess.bwMbps then sh.release th.sess.bwUpstream th.sess.bwMbps else sh
      | .released => sh.uncountSession
      | .uncounted => { sh with wg := sh.wg - 1 }
      | .awaiting | .running | .ended => sh

/-- `Close`: set the flag, close the control socket, wait for the group. -/
def Closer.step (sh : Shared) : Closer → Option (Closer × Shared)
  | .idle => some (.flagged, { sh with closed := true })
  | .flagged => some (.socketClosed, sh)
  | .socketClosed => if sh.wg = 0 then some (.returned, sh) else none
  | .returned => none

/-- The control socket can still be read. -/
def Closer.listening : Closer → Bool
  | .idle | .flagged => true
  | .socketClosed | .returned => false

namespace System

/-- The handler's pending operation. -/
def stepHandler (cfg : Config) (s : System) (h : Handling) (env : Env) : Option System :=
  match h.prog with
  | .ret _ => none
  | .crash p => some { s with crashed := some p }
  | .op o k =>
      let origin := h.origin.record o env
      let (r, sh) := SetupOp.exec cfg o env s.shared
      some { s with
        shared := sh
        handling := some { origin := origin, prog := k r }
        threads := s.threads ++ (SetupOp.spawned o).toList.map fun sess =>
          { origin := origin, sess := sess } }

def stepFinish (s : System) (h : Handling) : Option System :=
  match h.prog with
  | .ret _ => some { s with handling := none }
  | .crash _ | .op _ _ => none

def stepThread (hmac : HMAC) (srv : Server) (s : System) (i : Nat) (ev : ThreadEvent) :
    Option System :=
  match s.threads[i]? with
  | none => none
  | some th =>
      match th.step hmac srv ev with
      | none => none
      | some (.error p) => some { s with crashed := some p }
      | some (.ok th') => some { s with
          shared := th.effect ev s.shared
          threads := s.threads.set i th' }

def stepRecv (hmac : HMAC) (srv : Server) (s : System) (peer : AddrPort) (data : Bytes) :
    Option System :=
  if s.closer.listening then
    match serveDatagram hmac srv.cfg peer data with
    | none => some s
    | some prog => some { s with
        handling := some { origin := { raw := data.take 512, peer := peer }, prog := prog } }
  else none

/-- The state after a label, `none` when it is not enabled. -/
def step (hmac : HMAC) (srv : Server) (s : System) (l : Label) : Option System :=
  match s.crashed with
  | some _ => none
  | none =>
      match l, s.handling with
      | .recv peer data, none => stepRecv hmac srv s peer data
      | .recv _ _, some _ => none
      | .setup env, some h => stepHandler srv.cfg s h env
      | .setup _, none => none
      | .finish, some h => stepFinish s h
      | .finish, none => none
      | .thread i ev, _ => stepThread hmac srv s i ev
      | .close, _ =>
          match Closer.step s.shared s.closer with
          | some (c, sh) => some { s with closer := c, shared := sh }
          | none => none

theorem step_thread {hmac : HMAC} {srv : Server} {s : System} (h : s.crashed = none) (i : Nat)
    (ev : ThreadEvent) : s.step hmac srv (.thread i ev) = s.stepThread hmac srv i ev := by
  simp only [step, h]

theorem step_close {hmac : HMAC} {srv : Server} {s : System} (h : s.crashed = none) {c : Closer}
    {sh : Shared} (hc : Closer.step s.shared s.closer = some (c, sh)) :
    s.step hmac srv .close = some { s with closer := c, shared := sh } := by
  simp only [step, h, hc]

end System

/-- The states of a server in operation, under any interleaving. -/
def Reachable (hmac : HMAC) (srv : Server) : System → Prop :=
  Transition.Reachable (System.step hmac srv) (System.init srv)

/-! ## What a step can do

The two relations list the steps of a session goroutine and of the system,
each with its guard; every invariant is proved by cases on them. -/

inductive ThreadMoves (hmac : HMAC) (srv : Server) (th : Thread) (sh : Shared) :
    ThreadEvent → Thread → Shared → Prop where
  | skip {d : Rx} {sess : Session} (hphase : th.phase = .awaiting)
      (hstep : activationStep hmac srv th.sess d = .ok (sess, none)) :
      ThreadMoves hmac srv th sh (.rx d) { th with sess := sess } sh
  | activate {d : Rx} {sess : Session} {pdu : Bytes} (hphase : th.phase = .awaiting)
      (hstep : activationStep hmac srv th.sess d = .ok (sess, some pdu)) :
      ThreadMoves hmac srv th sh (.rx d)
        { th with sess := sess, phase := .running, activation := some d } sh
  | exit (hphase : th.phase = .awaiting ∨ th.phase = .running) :
      ThreadMoves hmac srv th sh .exit { th with phase := .closing } sh
  | release (hphase : th.phase = .closing) :
      ThreadMoves hmac srv th sh .teardown { th with phase := .released }
        (if 0 < th.sess.bwMbps then sh.release th.sess.bwUpstream th.sess.bwMbps else sh)
  | uncount (hphase : th.phase = .released) :
      ThreadMoves hmac srv th sh .teardown { th with phase := .uncounted } sh.uncountSession
  | done (hphase : th.phase = .uncounted) :
      ThreadMoves hmac srv th sh .teardown { th with phase := .ended } { sh with wg := sh.wg - 1 }

inductive Moves (hmac : HMAC) (srv : Server) (s : System) : Label → System → Prop where
  | ignore {peer : AddrPort} {data : Bytes} (hidle : s.handling = none) :
      Moves hmac srv s (.recv peer data) s
  | arrive {peer : AddrPort} {data : Bytes} (hidle : s.handling = none)
      (hraw : IsSetup (data.take 512)) :
      Moves hmac srv s (.recv peer data) { s with
        handling := some {
          origin := { raw := data.take 512, peer := peer }
          prog := handleSetup hmac srv.cfg (SetupPDU.ofBytes (data.take 512)) (data.take 512)
            peer } }
  | op {env : Env} {origin : Origin} {o : SetupOp} {k : o.Res → SetupProg Unit}
      (hprog : s.handling = some { origin := origin, prog := .op o k }) :
      Moves hmac srv s (.setup env) { s with
        shared := (SetupOp.exec srv.cfg o env s.shared).2
        handling := some {
          origin := origin.record o env
          prog := k (SetupOp.exec srv.cfg o env s.shared).1 }
        threads := s.threads ++ (SetupOp.spawned o).toList.map fun sess =>
          { origin := origin.record o env, sess := sess } }
  | crash {env : Env} {origin : Origin} {p : Panic}
      (hprog : s.handling = some { origin := origin, prog := .crash p }) :
      Moves hmac srv s (.setup env) { s with crashed := some p }
  | finish {origin : Origin} (hprog : s.handling = some { origin := origin, prog := .ret () }) :
      Moves hmac srv s .finish { s with handling := none }
  | thread {i : Nat} {ev : ThreadEvent} {th th' : Thread} {sh : Shared}
      (hth : s.threads[i]? = some th) (hmove : ThreadMoves hmac srv th s.shared ev th' sh) :
      Moves hmac srv s (.thread i ev) { s with shared := sh, threads := s.threads.set i th' }
  | panic {i : Nat} {d : Rx} {th : Thread} {p : Panic} (hth : s.threads[i]? = some th)
      (hphase : th.phase = .awaiting) (hstep : activationStep hmac srv th.sess d = .error p) :
      Moves hmac srv s (.thread i (.rx d)) { s with crashed := some p }
  | close {c : Closer} {sh : Shared} (hstep : Closer.step s.shared s.closer = some (c, sh)) :
      Moves hmac srv s .close { s with closer := c, shared := sh }

section Inversion

variable {hmac : HMAC} {srv : Server} {s s' : System} {l : Label}

/-- A datagram that starts a handler is a setup request. -/
theorem serveDatagram_eq_some {cfg : Config} {peer : AddrPort} {data : Bytes}
    {prog : SetupProg Unit} (h : serveDatagram hmac cfg peer data = some prog) :
    IsSetup (data.take 512) ∧
      prog = handleSetup hmac cfg (SetupPDU.ofBytes (data.take 512)) (data.take 512) peer := by
  have hparsed : serveDatagram.serveParsed hmac cfg peer (data.take 512) = some prog := by
    unfold serveDatagram at h
    cases hallow : cfg.allow with
    | none => simpa only [hallow] using h
    | some allow =>
        simp only [hallow] at h
        exact (Option.ite_none_right_eq_some.mp h).2
  unfold serveDatagram.serveParsed at hparsed
  rcases parseSetup_cases (data.take 512) with ⟨hraw, hparse⟩ | ⟨-, msg, hparse⟩
  · rw [hparse] at hparsed
    exact ⟨hraw, (Option.some.inj (Option.ite_none_right_eq_some.mp hparsed).2).symm⟩
  · rw [hparse] at hparsed
    cases hparsed

theorem threadMoves_of_step {th th' : Thread} {ev : ThreadEvent}
    (h : th.step hmac srv ev = some (.ok th')) (sh : Shared) :
    ThreadMoves hmac srv th sh ev th' (th.effect ev sh) := by
  cases ev with
  | rx d =>
      obtain ⟨hphase, hbody⟩ := Option.ite_none_right_eq_some.mp h
      obtain ⟨⟨sess, resp⟩, hstep, hret⟩ := bind_eq_ok.mp (Option.some.inj hbody)
      cases resp with
      | none =>
          cases hret
          exact .skip hphase hstep
      | some pdu =>
          cases hret
          exact .activate hphase hstep
  | exit =>
      obtain ⟨hphase, hbody⟩ := Option.ite_none_right_eq_some.mp h
      cases hbody
      refine .exit ?_
      cases hp : th.phase <;> simp_all [Phase.live]
  | teardown =>
      unfold Thread.step at h
      unfold Thread.effect
      cases hp : th.phase <;> simp only [hp] at h <;> cases h
      · exact .release hp
      · exact .uncount hp
      · exact .done hp

/-- Only the processing of a datagram can panic. -/
theorem panic_of_step {th : Thread} {ev : ThreadEvent} {p : Panic}
    (h : th.step hmac srv ev = some (.error p)) :
    ∃ d, ev = .rx d ∧ th.phase = .awaiting ∧ activationStep hmac srv th.sess d = .error p := by
  cases ev with
  | rx d =>
      obtain ⟨hphase, hbody⟩ := Option.ite_none_right_eq_some.mp h
      refine ⟨d, rfl, hphase, ?_⟩
      cases hact : activationStep hmac srv th.sess d with
      | error q =>
          rw [hact] at hbody
          cases hbody
          rfl
      | ok r =>
          obtain ⟨sess, resp⟩ := r
          rw [hact] at hbody
          cases resp <;> cases hbody
  | exit => cases (Option.ite_none_right_eq_some.mp h).2
  | teardown =>
      unfold Thread.step at h
      cases hp : th.phase <;> simp [hp] at h

theorem moves_of_stepThread {i : Nat} {ev : ThreadEvent}
    (h : s.stepThread hmac srv i ev = some s') : Moves hmac srv s (.thread i ev) s' := by
  unfold System.stepThread at h
  cases hth : s.threads[i]? with
  | none => simp [hth] at h
  | some th =>
      simp only [hth] at h
      cases hstep : th.step hmac srv ev with
      | none => simp [hstep] at h
      | some r =>
          simp only [hstep] at h
          cases r with
          | ok th' =>
              cases h
              exact .thread hth (threadMoves_of_step hstep s.shared)
          | error p =>
              cases h
              obtain ⟨d, rfl, hphase, hact⟩ := panic_of_step hstep
              exact .panic hth hphase hact

/-- **Every step of the system is one of the moves**, made while no
goroutine has panicked. -/
theorem moves_of_step (h : s.step hmac srv l = some s') :
    s.crashed = none ∧ Moves hmac srv s l s' := by
  obtain ⟨shared, handling, threads, closer, crashed⟩ := s
  cases crashed with
  | some p => cases h
  | none =>
      refine ⟨rfl, ?_⟩
      cases l with
      | thread i ev => exact moves_of_stepThread h
      | close =>
          simp only [System.step] at h
          cases hstep : Closer.step shared closer with
          | none => simp [hstep] at h
          | some r =>
              simp only [hstep] at h
              cases h
              exact .close hstep
      | recv peer data =>
          cases handling with
          | some h' => cases h
          | none =>
              obtain ⟨-, hbody⟩ := Option.ite_none_right_eq_some.mp h
              cases hserve : serveDatagram hmac srv.cfg peer data with
              | none =>
                  rw [hserve] at hbody
                  cases hbody
                  exact .ignore rfl
              | some prog =>
                  obtain ⟨hraw, rfl⟩ := serveDatagram_eq_some hserve
                  rw [hserve] at hbody
                  cases hbody
                  exact .arrive rfl hraw
      | setup env =>
          cases handling with
          | none => cases h
          | some h' =>
              obtain ⟨origin, prog⟩ := h'
              cases prog with
              | ret _ => cases h
              | crash p =>
                  cases h
                  exact .crash rfl
              | op o k =>
                  cases h
                  exact .op rfl
      | finish =>
          cases handling with
          | none => cases h
          | some h' =>
              obtain ⟨origin, prog⟩ := h'
              cases prog with
              | ret _ =>
                  cases h
                  exact .finish rfl
              | crash p => cases h
              | op o k => cases h

end Inversion

end Diagd.Udpst
