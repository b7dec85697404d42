import Diagd.Udpst.Ledger

/-!
# Admission control over whole runs

What the ledger means for an operator: in a quiet state the figures are
exactly the sums over the live sessions, in every state they respect the
limits, and one request is answered once, counted once, and, when it is
refused, leaves no trace. The last is a comparison of runs: `Shadow` relates
a run to the one with the handler's steps left out.

The per-direction budget is then asked of the tests that actually run. It
does not hold: the ledger charges the direction of the SETUP request, the
test runs in the direction of the ACTIVATION request.
-/

namespace Diagd.Udpst

open GoSlice GoStd Resumption Account

/-! ## The answer to one request -/

namespace Stage

/-- The code the answer carries, once it is decided. -/
def code : Stage → Option UInt8
  | deciding => none
  | counted c | answered c => some c
  | registered | started => some setupRespACKOK

def sent : Stage → Bool
  | deciding | counted _ => false
  | answered _ | registered | started => true

/-- Still open, or a refusal. -/
def Refusable (stage : Stage) : Prop := stage.code ≠ some setupRespACKOK

end Stage

/-- `setupAccepts` and `setupRejects` after a code has been counted. -/
def tally (accepts rejects : Nat) : Option UInt8 → Nat × Nat
  | none => (accepts, rejects)
  | some c => if c = setupRespACKOK then (accepts + 1, rejects) else (accepts, rejects + 1)

/-- The counters and the control socket, as far as the answer has come since
the state `sh₀`. -/
structure Answering (sh₀ : Shared) (peer : AddrPort) (sh : Shared) (stage : Stage) : Prop where
  counted : (sh.setupAccepts, sh.setupRejects)
    = tally sh₀.setupAccepts sh₀.setupRejects stage.code
  unsent : stage.sent = false → sh.responses = sh₀.responses
  sent : stage.sent = true → ∃ pdu, sh.responses = sh₀.responses ++ [(pdu, peer)] ∧
    stage.code = some (pdu.getD 9 0)

section Answer

variable {hmac : HMAC} {cfg : Config} {req : SetupPDU} {raw : Bytes} {peer : AddrPort}
variable {st : Progress} {o : SetupOp} {sh₀ sh sh' : Shared}

/-- What leaves counters and socket alone leaves the answer where it is. -/
theorem Answering.same {stage : Stage} (h : Answering sh₀ peer sh stage)
    (ha : sh'.setupAccepts = sh.setupAccepts) (hr : sh'.setupRejects = sh.setupRejects)
    (hp : sh'.responses = sh.responses) : Answering sh₀ peer sh' stage :=
  ⟨by rw [ha, hr, h.counted], fun hs => by rw [hp, h.unsent hs], fun hs => by
    rw [hp]
    exact h.sent hs⟩

/-- **One operation brings the answer at most one stage further.** -/
theorem exec_answering (ha : st.Allowed hmac cfg req raw peer o)
    (h : Answering sh₀ peer sh st.stage) (env : Env) :
    Answering sh₀ peer (SetupOp.exec cfg o env sh).2
      (st.next o (SetupOp.exec cfg o env sh).1).stage := by
  cases o with
  | reserveBandwidth upstream mbw =>
      have hstage : (st.next (.reserveBandwidth upstream mbw)
          (SetupOp.exec cfg (.reserveBandwidth upstream mbw) env sh).1).stage = st.stage := by
        simp only [Progress.next]
        split <;> rfl
      rw [hstage]
      refine h.same ?_ ?_ ?_ <;> simp only [SetupOp.exec, Shared.reserve] <;> split_ifs <;> rfl
  | releaseBandwidth upstream mbw =>
      refine h.same ?_ ?_ ?_ <;> simp only [SetupOp.exec, Shared.release] <;> split_ifs <;> rfl
  | countSession =>
      have hstage : (st.next .countSession (SetupOp.exec cfg .countSession env sh).1).stage
          = st.stage := by
        simp only [Progress.next]
        split <;> rfl
      rw [hstage]
      rcases sh.countSession_cases cfg.maxSessions with ⟨err, hno⟩ | ⟨-, hyes⟩
      · simpa only [SetupOp.exec, hno] using h
      · simp only [SetupOp.exec, hyes]
        exact h.same rfl rfl rfl
  | countResponse code =>
      obtain ⟨hstage, -⟩ := ha
      rw [hstage] at h
      have hcounts := h.counted
      refine ⟨?_, fun _ => ?_, (fun hs => by cases hs)⟩
      · simp only [SetupOp.exec, Progress.next, Stage.code, tally] at hcounts ⊢
        obtain ⟨ha, hr⟩ := Prod.mk.inj hcounts
        by_cases hcode : code = setupRespACKOK <;> simp [hcode, ha, hr]
      · simp only [SetupOp.exec]
        split <;> exact h.unsent rfl
  | sendResponse pdu dst =>
      obtain ⟨hstage, rfl⟩ := ha
      rw [hstage] at h
      refine ⟨h.counted, (fun hs => by cases hs), fun _ => ⟨pdu, ?_, rfl⟩⟩
      exact congrArg (· ++ [(pdu, dst)]) (h.unsent rfl)
  | wgAdd =>
      have hstage : st.stage = .answered setupRespACKOK := ha
      rw [hstage] at h
      exact ⟨h.counted, (fun hs => by cases hs), h.sent⟩
  | start sess =>
      obtain ⟨hstage, -⟩ := ha
      rw [hstage] at h
      exact ⟨h.counted, (fun hs => by cases hs), h.sent⟩
  | _ => exact h.same rfl rfl rfl

theorem ThreadMoves.answering {srv : Server} {th th' : Thread} {ev : ThreadEvent} {stage : Stage}
    (hmv : ThreadMoves hmac srv th sh ev th' sh') (h : Answering sh₀ peer sh stage) :
    Answering sh₀ peer sh' stage := by
  cases hmv with
  | release _ =>
      refine h.same ?_ ?_ ?_ <;> simp only [Shared.release] <;> split_ifs <;> rfl
  | _ => exact h.same rfl rfl rfl

theorem Closer.answering {c c' : Closer} {stage : Stage}
    (hc : Closer.step sh c = some (c', sh')) (h : Answering sh₀ peer sh stage) :
    Answering sh₀ peer sh' stage := by
  cases c with
  | idle => cases hc; exact h.same rfl rfl rfl
  | flagged => cases hc; exact h
  | socketClosed => cases (Option.ite_none_right_eq_some.mp hc).2; exact h
  | returned => cases hc

/-- Once the accepting code is counted, the request is not refused any more. -/
theorem refusable_of_next (ha : st.Allowed hmac cfg req raw peer o) {r : o.Res}
    (h : (st.next o r).stage.Refusable) : st.stage.Refusable := by
  cases o with
  | reserveBandwidth upstream mbw =>
      simp only [Progress.next] at h
      split at h <;> exact h
  | countSession =>
      simp only [Progress.next] at h
      split at h <;> exact h
  | countResponse code =>
      rw [Stage.Refusable, ha.1]
      simp [Stage.code]
  | sendResponse pdu dst =>
      rw [Stage.Refusable, ha.1]
      exact h
  | wgAdd => exact absurd rfl h
  | start sess => exact absurd rfl h
  | _ => exact h

end Answer

/-! ## A request and the run without it -/

namespace Label

/-- The `Serve` loop itself: reading a datagram, going back to read the next. -/
def serves : Label → Bool
  | recv _ _ | finish => true
  | setup _ | thread _ _ | close => false

/-- A step of `handleSetup`. -/
def handles : Label → Bool
  | setup _ => true
  | recv _ _ | finish | thread _ _ | close => false

end Label

/-- `t` is `s` without the request: its figures lack what is in hand. -/
structure Shadow (upstream : Bool) (s t : System) (st : Progress) : Prop where
  idle : t.handling = none
  threads : t.threads = s.threads
  closer : t.closer = s.closer
  crashed : t.crashed = s.crashed
  balance : ∀ e, t.shared.balance e + st.holds upstream e = s.shared.balance e
  nextPort : st.portMoved = false → t.shared.nextPort = s.shared.nextPort

section Shadow

variable {hmac : HMAC} {srv : Server} {s s' t : System} {st : Progress} {upstream : Bool}

/-- A move of a session goroutine changes all figures alike. -/
theorem effect_balance (th : Thread) (ev : ThreadEvent) (sh sh' : Shared) (e : Entry) :
    (th.effect ev sh).balance e - sh.balance e = (th.effect ev sh').balance e - sh'.balance e := by
  cases ev with
  | rx d => simp [Thread.effect]
  | exit => simp [Thread.effect]
  | teardown =>
      cases hp : th.phase with
      | closing =>
          simp only [Thread.effect, hp]
          split
          · simp only [Shared.balance_release]
            omega
          · simp
      | released =>
          simp only [Thread.effect, hp, Shared.balance_uncountSession]
          omega
      | uncounted =>
          simp only [Thread.effect, hp]
          rcases e with (_ | _) | _ | _ <;> simp [Shared.balance]
      | _ => simp [Thread.effect, hp]

theorem Shared.release_nextPort (sh : Shared) (upstream : Bool) (mbw : Int) :
    (sh.release upstream mbw).nextPort = sh.nextPort := by
  unfold Shared.release
  split_ifs <;> rfl

theorem effect_nextPort (th : Thread) (ev : ThreadEvent) (sh : Shared) :
    (th.effect ev sh).nextPort = sh.nextPort := by
  cases ev with
  | rx d => rfl
  | exit => rfl
  | teardown =>
      cases hp : th.phase with
      | closing =>
          simp only [Thread.effect, hp]
          split_ifs
          · exact Shared.release_nextPort _ _ _
          · rfl
      | _ => simp [Thread.effect, hp, Shared.uncountSession]

/-- Session goroutines move in the shadow as they do in the run. -/
theorem shadow_thread (h : Shadow upstream s t st) {i : Nat} {ev : ThreadEvent}
    (hstep : s.stepThread hmac srv i ev = some s') :
    ∃ t', t.stepThread hmac srv i ev = some t' ∧ Shadow upstream s' t' st := by
  unfold System.stepThread at hstep ⊢
  rw [h.threads]
  cases hth : s.threads[i]? with
  | none => simp [hth] at hstep
  | some th =>
      simp only [hth] at hstep ⊢
      cases hmove : th.step hmac srv ev with
      | none => simp [hmove] at hstep
      | some r =>
          simp only [hmove] at hstep ⊢
          cases r with
          | error p =>
              cases hstep
              exact ⟨_, rfl, h.idle, rfl, h.closer, rfl, h.balance, h.nextPort⟩
          | ok th' =>
              cases hstep
              refine ⟨_, rfl, h.idle, rfl, h.closer, h.crashed, fun e => ?_, fun hport => ?_⟩
              · have hsame := effect_balance th ev s.shared t.shared e
                have hbal := h.balance e
                show (th.effect ev t.shared).balance e + _ = (th.effect ev s.shared).balance e
                omega
              · show (th.effect ev t.shared).nextPort = (th.effect ev s.shared).nextPort
                rw [effect_nextPort, effect_nextPort, h.nextPort hport]

/-- So does `Close`: until the request is registered, both wait groups are
the same. -/
theorem shadow_close (h : Shadow upstream s t st) (hstage : st.stage ≠ .registered) {c : Closer}
    {sh : Shared} (hstep : Closer.step s.shared s.closer = some (c, sh)) :
    ∃ sh', Closer.step t.shared t.closer = some (c, sh') ∧
      Shadow upstream { s with closer := c, shared := sh } { t with closer := c, shared := sh' }
        st := by
  have hwg : t.shared.wg = s.shared.wg := by
    have hmember := h.balance .member
    simpa [Progress.holds, hstage, Shared.balance] using hmember
  rw [h.closer]
  cases hc : s.closer with
  | idle =>
      rw [hc] at hstep
      cases hstep
      refine ⟨_, rfl, h.idle, h.threads, rfl, h.crashed, fun e => ?_, h.nextPort⟩
      have hbal := h.balance e
      rcases e with (_ | _) | _ | _ <;> exact hbal
  | flagged =>
      rw [hc] at hstep
      cases hstep
      exact ⟨_, rfl, h.idle, h.threads, rfl, h.crashed, h.balance, h.nextPort⟩
  | socketClosed =>
      rw [hc] at hstep
      obtain ⟨hzero, hret⟩ := Option.ite_none_right_eq_some.mp hstep
      cases hret
      exact ⟨_, if_pos (hwg.trans hzero), h.idle, h.threads, rfl, h.crashed, h.balance, h.nextPort⟩
  | returned =>
      rw [hc] at hstep
      cases hstep

/-- An operation of a request that can still be refused does not touch the
shadow. -/
theorem shadow_op {origin : Origin} {o : SetupOp} {k : o.Res → SetupProg Unit} {env : Env}
    (h : Shadow origin.req.wantsUpstream s t st)
    (ha : st.Allowed hmac srv.cfg origin.req origin.raw origin.peer o)
    (hopen : (st.next o (SetupOp.exec srv.cfg o env s.shared).1).stage.Refusable) :
    Shadow origin.req.wantsUpstream { s with
        shared := (SetupOp.exec srv.cfg o env s.shared).2
        handling := some {
          origin := origin.record o env
          prog := k (SetupOp.exec srv.cfg o env s.shared).1 }
        threads := s.threads ++ spawnedThreads o (origin.record o env) }
      t (st.next o (SetupOp.exec srv.cfg o env s.shared).1) := by
  have hnone : spawnedThreads o (origin.record o env) = [] := by
    cases o with
    | start sess => exact absurd rfl hopen
    | _ => rfl
  refine ⟨h.idle, ?_, h.closer, h.crashed, fun e => ?_, fun hport => ?_⟩
  · rw [hnone, List.append_nil]
    exact h.threads
  · have hbal := h.balance e
    have hcons := exec_balance ha env s.shared (origin.record o env) e
    rw [hnone, total_nil] at hcons
    show _ = (SetupOp.exec srv.cfg o env s.shared).2.balance e
    omega
  · have hsame : st.portMoved = false →
        (SetupOp.exec srv.cfg o env s.shared).2.nextPort = s.shared.nextPort →
        t.shared.nextPort = (SetupOp.exec srv.cfg o env s.shared).2.nextPort :=
      fun hp hn => (h.nextPort hp).trans hn.symm
    cases o with
    | reserveBandwidth upstream mbw =>
        have hp : st.portMoved = false := by
          simp only [Progress.next] at hport
          split at hport <;> exact hport
        refine hsame hp ?_
        simp only [SetupOp.exec, Shared.reserve]
        split_ifs <;> rfl
    | releaseBandwidth upstream mbw =>
        refine hsame hport ?_
        simp only [SetupOp.exec, Shared.release]
        split_ifs <;> rfl
    | countSession =>
        have hp : st.portMoved = false := by
          simp only [Progress.next] at hport
          split at hport <;> exact hport
        refine hsame hp ?_
        simp only [SetupOp.exec, Shared.countSession]
        split_ifs <;> rfl
    | advanceNextPort port => cases hport
    | countResponse code =>
        refine hsame hport ?_
        simp only [SetupOp.exec]
        split_ifs <;> rfl
    | _ => exact hsame hport rfl

end Shadow

/-- The request from `peer`, in the direction `upstream`, that arrived in the
state `sh₀`. -/
structure Tracks (hmac : HMAC) (srv : Server) (sh₀ : Shared) (peer : AddrPort) (upstream : Bool)
    (s : System) (st : Progress) : Prop where
  hand : InHand hmac srv.cfg s.handling st
  request : ∃ h, s.handling = some h ∧ h.origin.peer = peer ∧
    h.origin.req.wantsUpstream = upstream
  answer : Answering sh₀ peer s.shared st.stage

section Tracks

variable {hmac : HMAC} {srv : Server} {sh₀ : Shared} {peer : AddrPort} {upstream : Bool}
variable {s s' t : System} {st : Progress} {l : Label}

/-- What the shadow does while the run makes the step `l`. -/
def shadowLabels (l : Label) : List Label := if l.handles then [] else [l]

/-- **One step of the run**: the request is still tracked, and as long as it
can be refused the shadow follows. -/
theorem tracks_step (h : Tracks hmac srv sh₀ peer upstream s st) (hl : l.serves = false)
    (hstep : s.step hmac srv l = some s') :
    ∃ st', Tracks hmac srv sh₀ peer upstream s' st' ∧ (st'.stage.Refusable →
      st.stage.Refusable ∧ ∀ t, Shadow upstream s t st →
        ∃ t', Transition.run (System.step hmac srv) t (shadowLabels l) = some t' ∧
          Shadow upstream s' t' st') := by
  obtain ⟨hcrash, hmove⟩ := moves_of_step hstep
  have hhand := h.hand
  obtain ⟨hd, hhd, hpeer, hup⟩ := h.request
  cases hmove with
  | ignore _ => cases hl
  | arrive _ _ => cases hl
  | finish _ => cases hl
  | crash hprog =>
      rw [hprog] at hhand
      exact absurd hhand not_inHand_crash
  | @op env origin o k hprog =>
      rw [hprog] at hhand
      have ha := inHand_allowed hhand
      obtain rfl : { origin := origin, prog := .op o k } = hd := Option.some.inj (hprog.symm.trans hhd)
      obtain ⟨-, hrpeer, hrreq⟩ := record_same origin o env
      refine ⟨_, ⟨inHand_op env s.shared hhand, ⟨_, rfl, hrpeer.trans hpeer, ?_⟩, ?_⟩,
        fun hopen => ⟨refusable_of_next ha hopen, fun t ht => ⟨t, rfl, ?_⟩⟩⟩
      · exact (congrArg SetupPDU.wantsUpstream hrreq).trans hup
      · rw [← hpeer] at h ⊢
        exact exec_answering ha h.answer env
      · rw [← hup] at ht ⊢
        exact shadow_op ht ha hopen
  | @thread i ev th th' sh hth hmv =>
      refine ⟨st, ⟨hhand, h.request, hmv.answering h.answer⟩, fun hopen => ⟨hopen, fun t ht => ?_⟩⟩
      rw [System.step_thread hcrash] at hstep
      obtain ⟨t', ht', hshadow⟩ := shadow_thread ht hstep
      rw [← System.step_thread (ht.crashed.trans hcrash)] at ht'
      exact ⟨t', Transition.run_cons.mpr ⟨t', ht', rfl⟩, hshadow⟩
  | @panic i d th p hth hphase hact =>
      refine ⟨st, ⟨hhand, h.request, h.answer⟩, fun hopen => ⟨hopen, fun t ht => ?_⟩⟩
      rw [System.step_thread hcrash] at hstep
      obtain ⟨t', ht', hshadow⟩ := shadow_thread ht hstep
      rw [← System.step_thread (ht.crashed.trans hcrash)] at ht'
      exact ⟨t', Transition.run_cons.mpr ⟨t', ht', rfl⟩, hshadow⟩
  | @close c sh hclose =>
      refine ⟨st, ⟨hhand, h.request, Closer.answering hclose h.answer⟩,
        fun hopen => ⟨hopen, fun t ht => ?_⟩⟩
      have hstage : st.stage ≠ .registered := by
        intro hreg
        rw [Stage.Refusable, hreg] at hopen
        exact hopen rfl
      obtain ⟨sh', hsh', hshadow⟩ := shadow_close ht hstage hclose
      exact ⟨_, Transition.run_cons.mpr
        ⟨_, System.step_close (ht.crashed.trans hcrash) hsh', rfl⟩, hshadow⟩

theorem tracks_arrive {raw : Bytes} (hraw : IsSetup raw) :
    Tracks hmac srv s.shared peer (SetupPDU.ofBytes raw).wantsUpstream { s with
      handling := some {
        origin := { raw := raw, peer := peer }
        prog := handleSetup hmac srv.cfg (SetupPDU.ofBytes raw) raw peer } } {} where
  hand := inHand_arrive hraw
  request := ⟨_, rfl, rfl, rfl⟩
  answer := { counted := rfl, unsent := fun _ => rfl, sent := fun h => Bool.noConfusion h }

/-- **A run of steps** between the arrival of the request and its end. -/
theorem tracks_run {ls : List Label} (h : Tracks hmac srv sh₀ peer upstream s st)
    (hls : ∀ l ∈ ls, l.serves = false)
    (hrun : Transition.run (System.step hmac srv) s ls = some s') :
    ∃ st', Tracks hmac srv sh₀ peer upstream s' st' ∧ (st'.stage.Refusable →
      st.stage.Refusable ∧ ∀ t, Shadow upstream s t st →
        ∃ t', Transition.run (System.step hmac srv) t (ls.filter fun l => !l.handles) = some t' ∧
          Shadow upstream s' t' st') := by
  induction ls generalizing s st with
  | nil =>
      cases hrun
      exact ⟨st, h, fun hopen => ⟨hopen, fun t ht => ⟨t, rfl, ht⟩⟩⟩
  | cons l ls ih =>
      obtain ⟨m, hl, hrest⟩ := Transition.run_cons.mp hrun
      obtain ⟨st₁, h₁, hshadow₁⟩ := tracks_step h (hls l (by simp)) hl
      obtain ⟨st₂, h₂, hshadow₂⟩ := ih h₁ (fun l hl => hls l (List.mem_cons_of_mem _ hl)) hrest
      refine ⟨st₂, h₂, fun hopen => ?_⟩
      obtain ⟨hopen₁, hfollow₂⟩ := hshadow₂ hopen
      obtain ⟨hopen₀, hfollow₁⟩ := hshadow₁ hopen₁
      refine ⟨hopen₀, fun t ht => ?_⟩
      obtain ⟨t₁, hrun₁, ht₁⟩ := hfollow₁ t ht
      obtain ⟨t₂, hrun₂, ht₂⟩ := hfollow₂ t₁ ht₁
      have hlabels : (l :: ls).filter (fun l => !l.handles)
          = shadowLabels l ++ ls.filter fun l => !l.handles := by
        unfold shadowLabels
        cases hh : l.handles <;> simp [hh]
      rw [hlabels]
      exact ⟨t₂, Transition.run_append.mpr ⟨t₁, hrun₁, hrun₂⟩, ht₂⟩

end Tracks

/-! ## One request, from arrival to answer -/

section Request

variable {hmac : HMAC} {srv : Server} {s s' : System} {peer : AddrPort} {data : Bytes}
variable {mid : List Label}

/-- Without a handler, none appears until the next datagram is read. -/
theorem idle_step {l : Label} (h : s.handling = none) (hl : l.serves = false)
    (hstep : s.step hmac srv l = some s') : s'.handling = none := by
  cases (moves_of_step hstep).2 with
  | ignore _ => exact h
  | arrive _ _ => cases hl
  | op hprog => rw [h] at hprog; cases hprog
  | crash hprog => rw [h] at hprog; cases hprog
  | finish _ => rfl
  | thread _ _ => exact h
  | panic _ _ _ => exact h
  | close _ => exact h

theorem idle_run (h : s.handling = none) (hmid : ∀ l ∈ mid, l.serves = false)
    (hrun : Transition.run (System.step hmac srv) s mid = some s') : s'.handling = none := by
  induction mid generalizing s with
  | nil => cases hrun; exact h
  | cons l ls ih =>
      obtain ⟨m, hl, hrest⟩ := Transition.run_cons.mp hrun
      exact ih (idle_step h (hmid l (by simp)) hl)
        (fun l hl => hmid l (List.mem_cons_of_mem _ hl)) hrest

/-- How a handled request ends: one answer to its sender, one count, and,
if the answer is a refusal, the figures and goroutines of the run without
it. -/
structure Outcome (hmac : HMAC) (srv : Server) (s s' : System) (peer : AddrPort)
    (mid : List Label) (pdu : Bytes) : Prop where
  response : s'.shared.responses = s.shared.responses ++ [(pdu, peer)]
  counted : (s'.shared.setupAccepts, s'.shared.setupRejects)
    = tally s.shared.setupAccepts s.shared.setupRejects (some (pdu.getD 9 0))
  refused : pdu.getD 9 0 ≠ setupRespACKOK →
    ∃ t, Transition.run (System.step hmac srv) s (mid.filter fun l => !l.handles) = some t ∧
      s'.shared.usedUS = t.shared.usedUS ∧ s'.shared.usedDS = t.shared.usedDS ∧
      s'.shared.sessions = t.shared.sessions ∧ s'.shared.nextPort = t.shared.nextPort ∧
      s'.threads = t.threads

theorem request_outcome (hmid : ∀ l ∈ mid, l.serves = false)
    (hrun : Transition.run (System.step hmac srv) s (.recv peer data :: (mid ++ [.finish]))
      = some s') : ∃ pdu, Outcome hmac srv s s' peer mid pdu := by
  obtain ⟨s₁, harrive, hrest⟩ := Transition.run_cons.mp hrun
  obtain ⟨s₂, hmidrun, hfin⟩ := Transition.run_append.mp hrest
  obtain ⟨s₃, hfinish, hend⟩ := Transition.run_cons.mp hfin
  cases hend
  obtain ⟨origin, hprog, hs₃⟩ : ∃ origin,
      s₂.handling = some { origin := origin, prog := .ret () } ∧ s' = { s₂ with handling := none } := by
    cases (moves_of_step hfinish).2 with
    | finish hprog => exact ⟨_, hprog, rfl⟩
  cases (moves_of_step harrive).2 with
  | ignore hidle =>
      rw [idle_run hidle hmid hmidrun] at hprog
      cases hprog
  | arrive hidle hraw =>
      obtain ⟨st, ht, hfollow⟩ := tracks_run (tracks_arrive hraw) hmid hmidrun
      have hhand := ht.hand
      rw [hprog] at hhand
      have hdone := inHand_finish hhand
      have hsent : st.stage.sent = true := by
        obtain ⟨hstage, -⟩ | ⟨code, -, hstage, -⟩ := hdone <;> rw [hstage] <;> rfl
      obtain ⟨pdu, hresp, hcode⟩ := ht.answer.sent hsent
      subst hs₃
      refine ⟨pdu, hresp, ?_, fun hne => ?_⟩
      · rw [← hcode]
        exact ht.answer.counted
      · have hopen : st.stage.Refusable := by
          rw [Stage.Refusable, hcode]
          exact fun h => hne (Option.some.inj h)
        have hempty : st.Empty := by
          obtain ⟨hstage, -⟩ | ⟨code, -, -, hempty⟩ := hdone
          · rw [Stage.Refusable, hstage] at hopen
            exact absurd rfl hopen
          · exact hempty
        obtain ⟨t, hrun', hshadow⟩ := (hfollow hopen).2 s
          ⟨hidle, rfl, rfl, rfl, fun e => by rw [Progress.holds_initial, add_zero], fun _ => rfl⟩
        have hbal : ∀ e, s₂.shared.balance e = t.shared.balance e := by
          intro e
          rw [← hshadow.balance e, hdone.holds, add_zero]
        exact ⟨t, hrun', hbal (.bandwidth true), hbal (.bandwidth false), hbal .session,
          (hshadow.nextPort hempty.portMoved).symm, hshadow.threads.symm⟩

end Request

/-! ## The ledger in every reachable state -/

/-- The Mbps of the live sessions that reserved a direction. -/
def System.liveMbps (s : System) (upstream : Bool) : Int :=
  ((s.threads.filter fun th => th.phase.live && th.sess.bwUpstream == upstream).map
    fun th => th.sess.bwMbps).sum

def System.liveSessions (s : System) : Int := (s.threads.filter fun th => th.phase.live).length

/-- No setup in progress, no session part-way through its teardown. -/
def System.Quiet (s : System) : Prop :=
  s.handling = none ∧ ∀ th ∈ s.threads, th.phase.inTeardown = false

section Reachable

variable {hmac : HMAC} {srv : Server} {cfg : Config} {s : System} {st : Progress}

/-- In a quiet state the figures are those of the live sessions. -/
theorem Balanced.quiet (h : Balanced hmac srv s st) (hq : s.Quiet) :
    (∀ dir, s.shared.balance (.bandwidth dir) = s.liveMbps dir) ∧
      s.shared.sessions = s.liveSessions := by
  have hhand := h.hand
  rw [hq.1] at hhand
  obtain rfl : st = {} := hhand
  have hphase : ∀ th ∈ s.threads, th.phase.holdsBandwidth = th.phase.live ∧
      th.phase.holdsSlot = th.phase.live := by
    intro th hth
    have hnot := hq.2 th hth
    cases hp : th.phase <;> simp_all [Phase.inTeardown, Phase.holdsBandwidth, Phase.holdsSlot,
      Phase.live]
  constructor
  · intro dir
    rw [h.sum, Progress.holds_initial, add_zero, System.liveMbps, ← total_filter]
    refine total_congr fun th hth => ?_
    simp [Thread.holds, (hphase th hth).1]
  · have hsum := h.sum .session
    rw [Progress.holds_initial, add_zero] at hsum
    have hcount : total (Thread.holds .session) s.threads
        = total (fun th => if th.phase.live then 1 else 0) s.threads :=
      total_congr fun th hth => by simp [Thread.holds, (hphase th hth).2]
    rw [hcount, total_filter (f := fun _ => 1)] at hsum
    exact hsum.trans (by simp [System.liveSessions])

/-- No entry is ever negative. -/
theorem Balanced.nonneg (h : Balanced hmac srv s st) (e : Entry) : 0 ≤ s.shared.balance e := by
  rw [h.sum]
  refine add_nonneg (total_nonneg fun th hth => ?_) ?_
  · have hbw : 0 ≤ th.sess.bwMbps := (h.threads th hth).bandwidth.1 ▸ charge_nonneg _ _
    rcases e with dir | _ | _ <;> simp only [Thread.holds] <;> split <;> first | exact hbw | decide
  · have hres := h.sound.nonneg
    rcases e with dir | _ | _ <;> simp only [Progress.holds] <;> split <;> first | exact hres | decide

/-- Without admission control nothing is allocated. -/
theorem Balanced.off (h : Balanced hmac srv s st) (hoff : srv.cfg.maxBandwidthMbps ≤ 0)
    (dir : Bool) : s.shared.balance (.bandwidth dir) = 0 := by
  have hthreads : total (Thread.holds (.bandwidth dir)) s.threads = total (fun _ => 0) s.threads := by
    refine total_congr fun th hth => ?_
    have hbw : th.sess.bwMbps = 0 :=
      (h.threads th hth).bandwidth.1.trans (if_neg (not_lt.mpr hoff))
    simp [Thread.holds, hbw]
  rw [h.sum, hthreads]
  simp [total, Progress.holds, h.sound.off hoff]

/-- **The admission ledger.** For every configuration and every interleaving:
in a quiet state `usedUS`, `usedDS` and `sessions` are the sums over the live
sessions; in every state they respect their limits; and every handled
request is counted once and answered once, and leaves the figures as if it
had not arrived when it is refused. -/
theorem admission_ledger (hs : Reachable hmac (newServer cfg) s) :
    (s.Quiet → s.shared.usedUS = s.liveMbps true ∧ s.shared.usedDS = s.liveMbps false ∧
      s.shared.sessions = s.liveSessions) ∧
    (0 < cfg.maxBandwidthMbps →
      0 ≤ s.shared.usedUS ∧ s.shared.usedUS ≤ cfg.maxBandwidthMbps ∧
      0 ≤ s.shared.usedDS ∧ s.shared.usedDS ≤ cfg.maxBandwidthMbps) ∧
    (cfg.maxBandwidthMbps ≤ 0 → s.shared.usedUS = 0 ∧ s.shared.usedDS = 0) ∧
    (0 ≤ cfg.maxSessions →
      0 ≤ s.shared.sessions ∧ s.shared.sessions ≤ (newServer cfg).cfg.maxSessions) ∧
    (∀ peer data mid s', (∀ l ∈ mid, l.serves = false) →
      Transition.run (System.step hmac (newServer cfg)) s (.recv peer data :: (mid ++ [.finish]))
        = some s' → ∃ pdu, Outcome hmac (newServer cfg) s s' peer mid pdu) := by
  obtain ⟨st, h⟩ := hs.balanced
  refine ⟨fun hq => ?_, fun hon => ?_, fun hoff => ?_, fun hmax => ?_, ?_⟩
  · obtain ⟨hbw, hsess⟩ := h.quiet hq
    exact ⟨hbw true, hbw false, hsess⟩
  · exact ⟨h.nonneg (.bandwidth true), h.bandwidth_le hon true,
      h.nonneg (.bandwidth false), h.bandwidth_le hon false⟩
  · exact ⟨h.off hoff true, h.off hoff false⟩
  · refine ⟨h.nonneg .session, h.sessions_le ?_⟩
    show 0 ≤ if cfg.maxSessions = 0 then 256 else cfg.maxSessions
    split
    · decide
    · exact hmax
  · intro peer data mid s' hmid hrun
    exact request_outcome hmid hrun

end Reachable

theorem admission_ledger_keyed : ∃ s, Reachable zeroHMAC keyedServer s ∧
    s.threads = [keyedThread] ∧ s.shared.usedUS = 0 ∧ s.shared.sessions ≤ 256 := by
  obtain ⟨s, hs, hthreads⟩ := keyedRun_reaches
  have hledger := admission_ledger hs
  exact ⟨s, hs, hthreads, (hledger.2.2.1 (by decide)).1, (hledger.2.2.2.1 (by decide)).2⟩

/-! ## The budget of the tests that run -/

/-- The Mbps of the activated tests that run in a direction. -/
def System.runningMbps (s : System) (upstream : Bool) : Int :=
  ((s.threads.filter fun th => th.phase == .running && th.sess.downstream == !upstream).map
    fun th => th.sess.bwMbps).sum

/-- The request that activates a session names the direction the session
was charged for. -/
def Agrees (hmac : HMAC) (s : System) : Label → Prop
  | .thread i (.rx d) => ∀ th, s.threads[i]? = some th → th.phase = .awaiting →
      th.sess.Accepts hmac d →
      ((TestActPDU.ofBytes d.bytes).cmdRequest = cmdTestActDownstream ↔
        th.sess.bwUpstream = false)
  | _ => True

/-- Every running test runs in the direction it was charged for. -/
def Aligned (s : System) : Prop :=
  ∀ th ∈ s.threads, th.phase = .running → th.sess.downstream = !th.sess.bwUpstream

section Budget

variable {hmac : HMAC} {srv : Server} {cfg : Config} {s s' : System} {l : Label}

theorem aligned_step (hd : Descended hmac srv s) (h : Aligned s) (hl : Agrees hmac s l)
    (hstep : s.step hmac srv l = some s') : Aligned s' := by
  cases (moves_of_step hstep).2 with
  | @op env origin o k hprog =>
      intro th hth hrun
      rcases List.mem_append.mp hth with hold | hnew
      · exact h th hold hrun
      · obtain ⟨sess, -, rfl⟩ := List.mem_map.mp hnew
        cases hrun
  | @thread i ev th th' sh hth hmv =>
      intro x hx hrun
      rcases List.mem_or_eq_of_mem_set hx with hold | rfl
      · exact h x hold hrun
      -- the goroutine that moved is running: it was just activated
      have hlin := hd.threads th (List.mem_of_getElem? hth)
      cases hmv with
      | @activate d sess pdu hphase hact =>
          have hgrant := (hlin.awaiting hphase).2
          cases (activationStep_verdict hgrant.keyed d : Verdict hmac srv th.sess d) with
          | skipped _ _ hs => rw [hs] at hact; cases hact
          | overrun p _ hs => rw [hs] at hact; cases hact
          | accepted pdu' hacc _ hs =>
              rw [hs] at hact
              cases hact
              have hdir := hl th hth hphase hacc
              show decide (_ = cmdTestActDownstream) = !th.sess.bwUpstream
              cases hup : th.sess.bwUpstream with
              | true => simpa [hup] using hdir
              | false => simpa [hup] using hdir
      | skip hphase _ => rw [show _ = Phase.awaiting from hphase] at hrun; cases hrun
      | exit _ => cases hrun
      | release _ => cases hrun
      | uncount _ => cases hrun
      | done _ => cases hrun
  | _ => exact h

/-- **The per-direction budget of the tests that run**: it holds in every
state of every run in which each activating request names the direction of
its setup. -/
theorem direction_budget (hon : 0 < cfg.maxBandwidthMbps) {ls : List Label}
    (hagree : Transition.Meets (System.step hmac (newServer cfg)) (Agrees hmac)
      (System.init (newServer cfg)) ls)
    (hrun : Transition.run (System.step hmac (newServer cfg)) (System.init (newServer cfg)) ls
      = some s) (upstream : Bool) :
    s.runningMbps upstream ≤ cfg.maxBandwidthMbps := by
  have haligned : Descended hmac (newServer cfg) s ∧ Aligned s :=
    Transition.run_preserves_of_meets
      (I := fun s => Descended hmac (newServer cfg) s ∧ Aligned s)
      (fun _ _ _ hi hp hs => ⟨descended_step hi.1 hs, aligned_step hi.1 hi.2 hp hs⟩)
      ⟨descended_init, by simp [Aligned, System.init]⟩ hagree hrun
  obtain ⟨st, h⟩ : ∃ st, Balanced hmac (newServer cfg) s st := Reachable.balanced ⟨ls, hrun⟩
  have hle : s.runningMbps upstream ≤ total (Thread.holds (.bandwidth upstream)) s.threads := by
    rw [System.runningMbps, ← total_filter]
    refine total_le fun th hth => ?_
    have hbw : 0 ≤ th.sess.bwMbps := (h.threads th hth).bandwidth.1 ▸ charge_nonneg _ _
    by_cases hth' : th.phase = .running ∧ th.sess.downstream = !upstream
    · have hup : th.sess.bwUpstream = upstream := by
        have := haligned.2 th hth hth'.1
        rw [hth'.2] at this
        exact (Bool.not_inj this).symm
      simp [Thread.holds, hth', hup, Phase.holdsBandwidth]
    · have hoff : (th.phase == .running && th.sess.downstream == !upstream) = false := by
        simpa using hth'
      simp only [hoff, Bool.false_eq_true, if_false, Thread.holds]
      split <;> first | exact hbw | exact le_refl 0
  have hsum := h.sum (.bandwidth upstream)
  have hhand : 0 ≤ st.holds (wantsUpstream s.handling) (.bandwidth upstream) := by
    have := h.sound.nonneg
    simp only [Progress.holds]
    split <;> omega
  have hlimit := h.bandwidth_le hon upstream
  show s.runningMbps upstream ≤ (newServer cfg).cfg.maxBandwidthMbps
  omega

end Budget

/-! ### A server with 100 Mbps per direction -/

def budgetServer : Server := newServer { maxBandwidthMbps := 100 }

/-- A request for all of it. -/
def budgetRequest (upstream : Bool) : SetupPDU where
  protocolVer := protocolVer
  mcCount := 1
  cmdRequest := cmdSetupRequest
  maxBandwidth := if upstream then bwUpstreamBit ||| 100 else 100

def budgetSetup (upstream : Bool) : List Label :=
  .recv clientAddr (budgetRequest upstream).layout ::
    (List.replicate 9 (.setup freePorts) ++ [.finish])

def downstreamActivation : Rx where
  peer := clientAddr
  data := encodeBE 2 pduIDTestAct.toNat ++ encodeBE 2 protocolVer.toNat ++
    [cmdTestActDownstream] ++ List.replicate 11 0 ++ [0xFF, 0xFF] ++ List.replicate 42 0

theorem direction_budget_downstream : ∃ s, Reachable zeroHMAC budgetServer s ∧
    s.threads.map (fun th => th.phase) = [.running] ∧ s.runningMbps false ≤ 100 := by
  have hsetup : (Transition.run (System.step zeroHMAC budgetServer) (System.init budgetServer)
      (budgetSetup false)).map (fun s => s.threads.map fun th => th.sess.bwUpstream)
        = some [false] := by
    decide +kernel
  have hphase : (Transition.run (System.step zeroHMAC budgetServer) (System.init budgetServer)
      (budgetSetup false ++ [.thread 0 (.rx downstreamActivation)])).map
        (fun s => s.threads.map fun th => th.phase) = some [.running] := by
    decide +kernel
  obtain ⟨s, hs, hthreads⟩ := Option.map_eq_some_iff.mp hphase
  refine ⟨s, ⟨_, hs⟩, hthreads, direction_budget (by decide) ?_ hs false⟩
  -- no step of the setup activates anything; the one that does agrees with it
  refine Transition.meets_append.mpr ⟨Transition.meets_of_forall ?_ _, fun s' hs' => ?_⟩
  · intro l hl _
    simp only [budgetSetup, List.mem_cons, List.mem_append, List.mem_replicate] at hl
    rcases hl with rfl | ⟨-, rfl⟩ | rfl | hl <;> trivial
  · refine ⟨fun th hth _ _ => ?_, fun _ _ => trivial⟩
    have hmap : s'.threads.map (fun th => th.sess.bwUpstream) = [false] :=
      Option.some.inj ((congrArg _ hs').symm.trans hsetup)
    have hdir : (s'.threads.map fun th => th.sess.bwUpstream)[0]? = some false := by
      rw [hmap]
      rfl
    rw [List.getElem?_map, hth] at hdir
    exact iff_of_true (by decide) (Option.some.inj hdir)

/-- One setup reserves 100 Mbps upstream, another 100 Mbps downstream; both
sessions are then activated downstream. -/
theorem direction_budget_exceeded : ∃ s, Reachable zeroHMAC budgetServer s ∧
    budgetServer.cfg.maxBandwidthMbps = 100 ∧ s.runningMbps false = 200 := by
  have hrun : (Transition.run (System.step zeroHMAC budgetServer) (System.init budgetServer)
      (budgetSetup true ++ budgetSetup false ++ [.thread 0 (.rx downstreamActivation),
        .thread 1 (.rx downstreamActivation)])).map (fun s => s.runningMbps false)
        = some 200 := by
    decide +kernel
  obtain ⟨s, hs, hmbps⟩ := Option.map_eq_some_iff.mp hrun
  exact ⟨s, ⟨_, hs⟩, rfl, hmbps⟩

end Diagd.Udpst
