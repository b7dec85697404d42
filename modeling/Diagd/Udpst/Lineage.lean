import Diagd.Udpst.Nominal
import Diagd.Udpst.System

/-!
# Where sessions come from

Every session goroutine of a running server descends from a setup request
that `handleSetup` granted, and has been activated, if at all, by a datagram
its session accepts. This is the invariant `Lineage`; with it the questions
about a session in a reachable state become questions about the request it
came from.

Two results rest on it. A server with keys runs no unauthenticated test.
And waiting for activation panics on some datagrams the setup peer can
send: `awaitActivation` is safe on exactly the sequences in which none
overruns.
-/

namespace Diagd.Udpst

open GoSlice GoStd Resumption

/-! ## The request being handled -/

/-- The handler follows the protocol from `st` on; without a handler,
nothing is in hand. -/
def InHand (hmac : HMAC) (cfg : Config) : Option Handling → Progress → Prop
  | none, st => st = {}
  | some h, st =>
      IsSetup h.origin.raw ∧ st.clocks = h.origin.clocks ∧
        Conforms (setupProtocol hmac cfg h.origin.req h.origin.raw h.origin.peer) st h.prog
          fun _ st' => st'.Done

section InHand

variable {hmac : HMAC} {cfg : Config} {origin : Origin} {st : Progress}

theorem inHand_arrive {raw : Bytes} {peer : AddrPort} (hraw : IsSetup raw) :
    InHand hmac cfg (some {
      origin := { raw := raw, peer := peer }
      prog := handleSetup hmac cfg (SetupPDU.ofBytes raw) raw peer }) {} :=
  ⟨hraw, rfl, handleSetup_conforms hraw.size⟩

theorem inHand_allowed {o : SetupOp} {k : o.Res → SetupProg Unit}
    (h : InHand hmac cfg (some { origin := origin, prog := .op o k }) st) :
    st.Allowed hmac cfg origin.req origin.raw origin.peer o :=
  (Conforms.op_iff.mp h.2.2).1

theorem next_clocks (o : SetupOp) (env : Env) (sh : Shared) (h : st.clocks = origin.clocks) :
    (st.next o (SetupOp.exec cfg o env sh).1).clocks = (origin.record o env).clocks := by
  cases o with
  | now => exact congrArg (· ++ [env.now]) h
  | reserveBandwidth upstream mbw =>
      simp only [Progress.next]
      split <;> exact h
  | countSession =>
      simp only [Progress.next]
      split <;> exact h
  | _ => exact h

/-- Recording a clock reading keeps the request. -/
theorem record_same (origin : Origin) (o : SetupOp) (env : Env) :
    (origin.record o env).raw = origin.raw ∧ (origin.record o env).peer = origin.peer ∧
      (origin.record o env).req = origin.req := by
  cases o <;> exact ⟨rfl, rfl, rfl⟩

/-- One operation of the handler. -/
theorem inHand_op {o : SetupOp} {k : o.Res → SetupProg Unit} (env : Env) (sh : Shared)
    (h : InHand hmac cfg (some { origin := origin, prog := .op o k }) st) :
    InHand hmac cfg (some {
      origin := origin.record o env
      prog := k (SetupOp.exec cfg o env sh).1 }) (st.next o (SetupOp.exec cfg o env sh).1) := by
  obtain ⟨hraw, hclocks, hconf⟩ := h
  obtain ⟨hrawEq, hpeerEq, hreqEq⟩ := record_same origin o env
  refine ⟨hrawEq ▸ hraw, next_clocks o env sh hclocks, ?_⟩
  simp only [hrawEq, hpeerEq, hreqEq]
  exact (Conforms.op_iff.mp hconf).2 _

theorem inHand_finish (h : InHand hmac cfg (some { origin := origin, prog := .ret () }) st) :
    st.Done :=
  Conforms.ret_iff (Q := fun _ st' => Progress.Done st').mp h.2.2

theorem not_inHand_crash {p : Panic} :
    ¬ InHand hmac cfg (some { origin := origin, prog := .crash p }) st :=
  fun h => Conforms.not_crash h.2.2

end InHand

/-! ## Granted sessions -/

section Granted

variable {hmac : HMAC} {cfg : Config} {req : SetupPDU} {raw : Bytes} {peer : AddrPort}
variable {clocks : List Time} {sess : Session}

theorem Granted.keyed (h : Granted hmac cfg req raw peer clocks sess) : sess.Keyed := by
  obtain ⟨cred, port, rfl, hanon | hauth⟩ := h.created
  · intro hkeys
    rw [newSession, hanon.cred] at hkeys
    cases hkeys
  · intro hkeys
    obtain ⟨secret, -, -, rfl⟩ := hauth.signed
    refine ⟨?_, hauth.mode⟩
    show protocolVer ≤ req.protocolVer
    by_contra hver
    have hnone : (requestCredentials hmac req secret).keys = none := by
      rw [requestCredentials, if_neg hver]
    rw [newSession, hnone] at hkeys
    cases hkeys

end Granted

/-! ## The lineage of a session goroutine -/

/-- The goroutine's session was granted to its request, and is as granted
until a datagram it accepts has activated it. -/
structure Lineage (hmac : HMAC) (srv : Server) (th : Thread) : Prop where
  raw : IsSetup th.origin.raw
  granted : ∃ sess,
    Granted hmac srv.cfg th.origin.req th.origin.raw th.origin.peer th.origin.clocks sess ∧
    match th.activation with
    | none => th.sess = sess ∧ th.phase ≠ .running
    | some d => th.phase ≠ .awaiting ∧ sess.Accepts hmac d ∧ ¬ sess.Overruns hmac d ∧
        th.sess = sess.activate srv (TestActPDU.ofBytes d.bytes) d

/-- The request in hand follows the protocol, and every goroutine has its
lineage. -/
structure Descended (hmac : HMAC) (srv : Server) (s : System) : Prop where
  hand : ∃ st, InHand hmac srv.cfg s.handling st
  threads : ∀ th ∈ s.threads, Lineage hmac srv th

section Lineage

variable {hmac : HMAC} {srv : Server} {th th' : Thread} {sh sh' : Shared} {ev : ThreadEvent}

theorem Lineage.awaiting (h : Lineage hmac srv th) (hphase : th.phase = .awaiting) :
    th.activation = none ∧
      Granted hmac srv.cfg th.origin.req th.origin.raw th.origin.peer th.origin.clocks th.sess := by
  obtain ⟨sess, hgrant, hact⟩ := h.granted
  cases ha : th.activation with
  | none =>
      simp only [ha] at hact
      exact ⟨rfl, hact.1 ▸ hgrant⟩
  | some d =>
      simp only [ha] at hact
      exact absurd hphase hact.1

/-- A later phase keeps the lineage: only the activation enters `running`. -/
theorem Lineage.phase (h : Lineage hmac srv th) {ph : Phase} (hne : ph ≠ .awaiting)
    (hne' : ph ≠ .running) : Lineage hmac srv { th with phase := ph } := by
  obtain ⟨sess, hgrant, hact⟩ := h.granted
  refine ⟨h.raw, sess, hgrant, ?_⟩
  cases ha : th.activation with
  | none =>
      simp only [ha] at hact
      exact ⟨hact.1, hne'⟩
  | some d =>
      simp only [ha] at hact
      exact ⟨hne, hact.2⟩

/-- **Every move of a session goroutine keeps its lineage.** -/
theorem Lineage.moves (h : Lineage hmac srv th)
    (hmove : ThreadMoves hmac srv th sh ev th' sh') : Lineage hmac srv th' := by
  cases hmove with
  | skip hphase hstep =>
      rename_i d sess
      obtain ⟨hnone, hgrant⟩ := h.awaiting hphase
      -- a datagram without an answer has left the session alone
      have hsess : sess = th.sess := by
        cases (activationStep_verdict hgrant.keyed d : Verdict hmac srv th.sess d) with
        | skipped _ _ hs => rw [hs] at hstep; cases hstep; rfl
        | accepted pdu _ _ hs => rw [hs] at hstep; cases hstep
        | overrun p _ hs => rw [hs] at hstep; cases hstep
      rw [hsess]
      exact h
  | activate hphase hstep =>
      rename_i d sess pdu
      obtain ⟨hnone, hgrant⟩ := h.awaiting hphase
      refine ⟨h.raw, th.sess, hgrant, by simp, ?_⟩
      cases (activationStep_verdict hgrant.keyed d : Verdict hmac srv th.sess d) with
      | skipped _ _ hs => rw [hs] at hstep; cases hstep
      | accepted pdu hacc hover hs => rw [hs] at hstep; cases hstep; exact ⟨hacc, hover, rfl⟩
      | overrun p _ hs => rw [hs] at hstep; cases hstep
  | exit _ => exact h.phase (by simp) (by simp)
  | release _ => exact h.phase (by simp) (by simp)
  | uncount _ => exact h.phase (by simp) (by simp)
  | done _ => exact h.phase (by simp) (by simp)

theorem descended_init : Descended hmac srv (System.init srv) :=
  ⟨⟨{}, rfl⟩, by simp [System.init]⟩

/-- A goroutine the handler starts has the lineage of its request. -/
theorem lineage_spawned {origin : Origin} {st : Progress} {sess : Session}
    {k : Unit → SetupProg Unit} (env : Env)
    (h : InHand hmac srv.cfg (some { origin := origin, prog := .op (.start sess) k }) st) :
    Lineage hmac srv { origin := origin.record (.start sess) env, sess := sess } := by
  obtain ⟨-, -, -, -, hgrant⟩ := inHand_allowed h
  rw [h.2.1] at hgrant
  exact ⟨h.1, sess, hgrant, rfl, by simp⟩

theorem descended_step {s s' : System} {l : Label} (h : Descended hmac srv s)
    (hstep : s.step hmac srv l = some s') : Descended hmac srv s' := by
  obtain ⟨st, hst⟩ := h.hand
  cases (moves_of_step hstep).2 with
  | ignore _ => exact h
  | arrive _ hraw => exact ⟨⟨{}, inHand_arrive hraw⟩, h.threads⟩
  | op hprog =>
      rename_i env origin o k
      rw [hprog] at hst
      refine ⟨⟨_, inHand_op env s.shared hst⟩, fun th hth => ?_⟩
      rcases List.mem_append.mp hth with hold | hnew
      · exact h.threads th hold
      · -- the operation was `start`
        cases o with
        | start sess =>
            obtain rfl := List.mem_singleton.mp hnew
            exact lineage_spawned env hst
        | _ => cases hnew
  | crash hprog =>
      rw [hprog] at hst
      exact absurd hst not_inHand_crash
  | finish _ => exact ⟨⟨{}, rfl⟩, h.threads⟩
  | thread hth hmove =>
      refine ⟨⟨st, hst⟩, fun th hmem => ?_⟩
      rcases List.mem_or_eq_of_mem_set hmem with hold | rfl
      · exact h.threads th hold
      · exact (h.threads _ (List.mem_of_getElem? hth)).moves hmove
  | panic _ _ _ => exact ⟨⟨st, hst⟩, h.threads⟩
  | close _ => exact ⟨⟨st, hst⟩, h.threads⟩

/-- **In every reachable state, every goroutine has its lineage.** -/
theorem Reachable.descended {s : System} (h : Reachable hmac srv s) : Descended hmac srv s :=
  Transition.Reachable.invariant h descended_init fun _ _ _ hi hs => descended_step hi hs

end Lineage

/-! ## A concrete server

One key with the empty secret, an HMAC that is zero everywhere, and a
version 20 request signed with it. -/

def zeroHMAC : HMAC := fun _ _ => Digest.zero

def keyedServer : Server := newServer { keys := [(1, [])] }

def clientAddr : AddrPort := { addr := .v4 0, port := 40000 }

def keyedRequest : SetupPDU where
  protocolVer := protocolVer
  mcCount := 1
  cmdRequest := cmdSetupRequest
  auth := { authMode := authModeControl, keyID := 1 }

/-- At time zero, with any port free. -/
def freePorts : Env := { listen := fun port => some (UInt16.ofInt (5000 + port)) }

/-- The request arrives and is handled to its last operation, the start of
the session. -/
def keyedRun : List Label :=
  .recv clientAddr keyedRequest.layout :: List.replicate 10 (.setup freePorts)

def keyedThread : Thread where
  origin := { raw := keyedRequest.layout, peer := clientAddr, clocks := [0, 0, 0] }
  sess := newSession keyedRequest (requestCredentials zeroHMAC keyedRequest []) clientAddr 5000
    false 0

theorem keyedRun_reaches : ∃ s, Reachable zeroHMAC keyedServer s ∧ s.threads = [keyedThread] := by
  have hrun : (Transition.run (System.step zeroHMAC keyedServer) (System.init keyedServer)
      keyedRun).map System.threads = some [keyedThread] := by
    decide +kernel
  obtain ⟨s, hs, hthreads⟩ := Option.map_eq_some_iff.mp hrun
  exact ⟨s, ⟨keyedRun, hs⟩, hthreads⟩

/-! ## Waiting for activation -/

section Waiting

variable {hmac : HMAC} {cfg : Config} {s : System} {th : Thread}

/-- **Activation receive safety.** For a session `handleSetup` has created,
waiting neither panics nor lets a datagram that is not accepted change the
session, on exactly the sequences of datagrams in which none that is read
overruns. -/
theorem awaitActivation_safe_iff (hs : Reachable hmac (newServer cfg) s) (hth : th ∈ s.threads)
    (hphase : th.phase = .awaiting) (ds : List Rx) :
    WaitsSafely hmac (newServer cfg) th.sess ds ↔ NoneOverruns hmac th.sess ds :=
  waitsSafely_iff ((hs.descended.threads th hth).awaiting hphase).2.keyed ds

end Waiting

/-- A legacy activation request, 60 bytes. -/
def shortActivation : Rx where
  peer := clientAddr
  data := encodeBE 2 pduIDTestAct.toNat ++ encodeBE 2 protocolVer.toNat ++
    [cmdTestActUpstream] ++ List.replicate 55 0

/-- One of full length, with the digest `zeroHMAC` gives it. -/
def keyedActivation : Rx where
  peer := clientAddr
  data := encodeBE 2 pduIDTestAct.toNat ++ encodeBE 2 protocolVer.toNat ++
    [cmdTestActUpstream] ++ List.replicate 99 0

/-- The same from another address. -/
def strayActivation : Rx := { keyedActivation with peer := { addr := .v4 1, port := 40000 } }

/-- The stray request is skipped, the one of the setup peer is accepted. -/
theorem awaitActivation_safe_keyed : ∃ s, Reachable zeroHMAC keyedServer s ∧
    keyedThread ∈ s.threads ∧ ¬ keyedThread.sess.Accepts zeroHMAC strayActivation ∧
    keyedThread.sess.Accepts zeroHMAC keyedActivation ∧
    WaitsSafely zeroHMAC keyedServer keyedThread.sess [strayActivation, keyedActivation] := by
  obtain ⟨s, hs, hthreads⟩ := keyedRun_reaches
  have hth : keyedThread ∈ s.threads := by simp [hthreads]
  have hstray : ¬ keyedThread.sess.Accepts zeroHMAC strayActivation := by decide +kernel
  have hkeyed : keyedThread.sess.Accepts zeroHMAC keyedActivation := by decide +kernel
  refine ⟨s, hs, hth, hstray, hkeyed, (awaitActivation_safe_iff hs hth rfl _).mpr ?_⟩
  refine noneOverruns_cons.mpr ⟨fun h => ?_, fun _ => noneOverruns_cons.mpr ⟨fun h => ?_, ?_⟩⟩
  · exact absurd h.1 (by decide +kernel)
  · obtain ⟨-, keys, -, hshort | ⟨hshort, -⟩⟩ := h
    · exact absurd hshort (by decide +kernel)
    · exact absurd hshort (by decide +kernel)
  · exact fun hskip => absurd hkeyed hskip

/-- The short request passes `parseTestAct` and panics in `verifyDigest`. -/
theorem awaitActivation_panics : ∃ s, Reachable zeroHMAC keyedServer s ∧
    keyedThread ∈ s.threads ∧ keyedThread.phase = .awaiting ∧
    awaitActivation zeroHMAC keyedServer keyedThread.sess [shortActivation]
      = .error (.index 68 60) := by
  obtain ⟨s, hs, hthreads⟩ := keyedRun_reaches
  exact ⟨s, hs, by simp [hthreads], rfl, rfl⟩

/-! ## No unauthenticated test -/

section Authentication

variable {hmac : HMAC} {cfg : Config} {req : SetupPDU} {raw : Bytes} {peer : AddrPort}
variable {clocks : List Time} {sess : Session} {s : System} {th : Thread}

/-- With keys configured, a granted request was authentic, and its session
holds the keys derived from that secret exactly in version 20. -/
theorem Granted.authentic (hkeys : cfg.keys ≠ []) (h : Granted hmac cfg req raw peer clocks sess) :
    ∃ secret, Authentic hmac cfg req raw clocks (requestCredentials hmac req secret) ∧
      cfg.keys.lookup req.auth.keyID = some secret ∧
      hmac (requestKey hmac req secret) (masked raw setupAuthDigestOff) = req.auth.authDigest ∧
      sess.keys = (requestCredentials hmac req secret).keys := by
  obtain ⟨cred, port, rfl, hanon | hauth⟩ := h.created
  · exact absurd hanon.keys hkeys
  · obtain ⟨secret, hlookup, hdigest, rfl⟩ := hauth.signed
    exact ⟨secret, hauth, hlookup, hdigest, rfl⟩

/-- The request was in control mode, under a configured key, with a digest
that verifies under the key of its version, and within five seconds of a
clock reading made while it was handled. -/
def RequestAuthentic (hmac : HMAC) (cfg : Config) (o : Origin) (secret : Bytes) : Prop :=
  o.raw.length = setupSize ∧ o.req.auth.authMode = authModeControl ∧
  cfg.keys.lookup o.req.auth.keyID = some secret ∧
  protocolMin ≤ o.req.protocolVer ∧ o.req.protocolVer ≤ protocolVer ∧
  (o.req.protocolVer = protocolVer →
    hmac (deriveSessionKeys hmac secret o.req.auth.authUnixTime).client.toList
      (masked o.raw setupAuthDigestOff) = o.req.auth.authDigest) ∧
  (o.req.protocolVer < protocolVer →
    hmac secret (masked o.raw setupAuthDigestOff) = o.req.auth.authDigest) ∧
  ∃ now ∈ o.clocks, |now - o.req.auth.authUnixTime.toNat * second| ≤ authTimeWindow * second

/-- The activation, if there was one, came from the setup peer's address with
a digest under the client key; before it peer, direction and parameters are
unset and no test runs. -/
def ActivationAuthentic (hmac : HMAC) (keys : SessionKeys) (th : Thread) : Prop :=
  match th.activation with
  | none => th.phase ≠ .running ∧ th.sess.peer = none ∧ th.sess.downstream = false ∧
      th.sess.p = {}
  | some d => d.peer.addr.unmap = th.origin.peer.addr.unmap ∧ d.bytes.length = testActSize ∧
      hmac keys.client.toList (masked d.bytes testActAuthDigestOff)
        = (TestActPDU.ofBytes d.bytes).auth.authDigest

theorem lineage_requestAuthentic (hkeys : cfg.keys ≠ []) (hraw : IsSetup th.origin.raw)
    (h : Granted hmac cfg th.origin.req th.origin.raw th.origin.peer th.origin.clocks sess) :
    ∃ secret, RequestAuthentic hmac cfg th.origin secret ∧
      sess.keys = (requestCredentials hmac th.origin.req secret).keys := by
  obtain ⟨secret, hauth, hlookup, hdigest, hsess⟩ := h.authentic hkeys
  refine ⟨secret, ⟨hraw.size, hauth.mode, hlookup, h.minVer, h.maxVer, ?_, ?_, ?_⟩, hsess⟩
  · intro hver
    rwa [requestKey, if_pos (UInt16.le_of_eq hver.symm)] at hdigest
  · intro hver
    rwa [requestKey, if_neg (UInt16.not_le.mpr hver)] at hdigest
  · obtain ⟨now, hnow, hlow, hhigh⟩ := hauth.fresh
    refine ⟨now, List.mem_of_mem_head? hnow, abs_le.mpr ⟨?_, hhigh⟩⟩
    rwa [neg_mul] at hlow

/-- **No unauthenticated test.** On a server with keys, under any clock and
any interleaving, every session goroutine belongs to an authentic setup
request, and one of version 20 runs a test only after an authentic
activation. -/
theorem sessions_authentic (hkeys : cfg.keys ≠ []) (hs : Reachable hmac (newServer cfg) s)
    (hth : th ∈ s.threads) :
    ∃ secret, RequestAuthentic hmac cfg th.origin secret ∧
      (th.sess.pver = protocolVer → ActivationAuthentic hmac
        (deriveSessionKeys hmac secret th.origin.req.auth.authUnixTime) th) := by
  have hlin := hs.descended.threads th hth
  obtain ⟨sess, hgrant, hact⟩ := hlin.granted
  have hkeys' : (newServer cfg).cfg.keys ≠ [] := hkeys
  obtain ⟨secret, hreq, hsesskeys⟩ := lineage_requestAuthentic hkeys' hlin.raw hgrant
  refine ⟨secret, hreq, fun hver => ?_⟩
  obtain ⟨cred, port, hsess, -⟩ := hgrant.created
  unfold ActivationAuthentic
  cases ha : th.activation with
  | none =>
      simp only [ha] at hact
      obtain ⟨hth, hphase⟩ := hact
      rw [hth, hsess]
      exact ⟨hphase, rfl, rfl, rfl⟩
  | some d =>
      simp only [ha] at hact
      obtain ⟨-, ⟨haddr, hdig⟩, hover, hth⟩ := hact
      have hver' : th.origin.req.protocolVer = protocolVer := by
        rw [hth, hsess] at hver
        exact hver
      have hheld : sess.digestKeys
          = some (deriveSessionKeys hmac secret th.origin.req.auth.authUnixTime) := by
        rw [hgrant.keyed.digestKeys, hsesskeys, requestCredentials, if_pos (UInt16.le_of_eq hver'.symm)]
      obtain ⟨-, hdigest⟩ := hdig _ hheld
      have hpeer := haddr.1
      rw [hsess] at hpeer
      refine ⟨hpeer, Nat.le_antisymm haddr.2.1.maxSize (Nat.not_lt.mp fun hshort => ?_), hdigest⟩
      -- a shorter request has the digest zero, and would have overrun
      exact hover ⟨haddr, _, hheld, .inr ⟨hshort, hdigest.trans (ofBytes_legacy_digest hshort)⟩⟩

end Authentication

/-- The session skips the stray request and is activated by the other one. -/
theorem sessions_authentic_keyed : ∃ s th, Reachable zeroHMAC keyedServer s ∧ th ∈ s.threads ∧
    th.phase = .running ∧ th.activation = some keyedActivation ∧
    ∃ secret, RequestAuthentic zeroHMAC { keys := [(1, [])] } th.origin secret ∧
      ActivationAuthentic zeroHMAC
        (deriveSessionKeys zeroHMAC secret th.origin.req.auth.authUnixTime) th := by
  have hrun : (Transition.run (System.step zeroHMAC keyedServer.indexed)
      (System.init keyedServer.indexed)
      (keyedRun ++ [.thread 0 (.rx strayActivation), .thread 0 (.rx keyedActivation)])).map
        (fun s => s.threads.map fun th => (th.phase, th.activation, th.sess.pver)) =
      some [(.running, some keyedActivation, protocolVer)] := by
    decide +kernel
  rw [Server.indexed_eq] at hrun
  obtain ⟨s, hs, hthreads⟩ := Option.map_eq_some_iff.mp hrun
  have hreach : Reachable zeroHMAC keyedServer s := ⟨_, hs⟩
  obtain ⟨th, others, hcons, hfacts, -⟩ := List.map_eq_cons_iff.mp hthreads
  obtain ⟨hphase, hrest⟩ := Prod.mk.inj hfacts
  obtain ⟨hact, hver⟩ := Prod.mk.inj hrest
  have hth : th ∈ s.threads := hcons ▸ List.mem_cons_self
  obtain ⟨secret, hreq, hauth⟩ := sessions_authentic (by simp) hreach hth
  exact ⟨s, th, hreach, hth, hphase, hact, secret, hreq, hauth hver⟩

end Diagd.Udpst
