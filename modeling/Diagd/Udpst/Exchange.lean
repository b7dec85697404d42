import Diagd.Udpst.Allocation
import Diagd.Udpst.Signing

/-!
# The setup exchange

What a client sees of the server: the Setup Responses on the control socket,
the Null Requests on session sockets, and the sessions that wait for its
activation. For each request that is handled there is one record of what has
come of it (`Exchange`); `exchangeProtocol` says when the handler may add to
the record, and `handleSetup` follows it. Between the steps of a handler any
other goroutine may run, so the system carries the records of all requests
along (`Recorded`): at every time the datagrams sent and the sessions started
are those of the records, in the order of the requests.
-/

namespace Diagd.Udpst

open GoSlice GoStd Resumption

/-! ## Records -/

/-- What has come of a request: the local port of the socket bound last, the
Null Request, the answer, and the port of the session started. -/
structure Exchange where
  raw : Bytes
  peer : AddrPort
  port : Option UInt16 := none
  null : Option Bytes := none
  answer : Option Bytes := none
  session : Option UInt16 := none

/-- The client reads `pdu` as `r`, an answer to `req`: it repeats the request
but for the fields of the answer. An acceptance names the port that was bound,
and in version 20 it comes after the Null Request. -/
structure AnswerTo (req : SetupPDU) (port : Option UInt16) (null : Option Bytes) (pdu : Bytes)
    (r : SetupPDU) : Prop where
  parses : parseSetup pdu = .ok (.ok r)
  repeats : r = { req with
    cmdRequest := cmdSetupResponse
    cmdResponse := r.cmdResponse
    protocolVer := if r.cmdResponse = setupRespBadVersion then protocolVer else req.protocolVer
    testPort := r.testPort
    auth := r.auth }
  accepts : r.cmdResponse = setupRespACKOK →
    port = some r.testPort ∧ (null.isSome = true ↔ protocolVer ≤ req.protocolVer)
  refuses : r.cmdResponse ≠ setupRespACKOK → r.testPort = req.testPort ∧ null = none

namespace Exchange

variable {x : Exchange}

def req (x : Exchange) : SetupPDU := SetupPDU.ofBytes x.raw

def Answers (x : Exchange) (pdu : Bytes) (r : SetupPDU) : Prop := AnswerTo x.req x.port x.null pdu r

/-- The request, with its sender. -/
def request (x : Exchange) : Bytes × AddrPort := (x.raw, x.peer)

/-- The response on the control socket. -/
def response (x : Exchange) : Option (Bytes × AddrPort) := x.answer.map fun pdu => (pdu, x.peer)

def nullSent (x : Exchange) : Option (Bytes × AddrPort) := x.null.map fun pdu => (pdu, x.peer)

/-- The session, with the request it came from. -/
def opened (x : Exchange) : Option (Bytes × AddrPort × UInt16) :=
  x.session.map fun port => (x.raw, x.peer, port)

/-- A session is on the port its client was told. -/
def Accepted (x : Exchange) (port : UInt16) : Prop :=
  ∃ pdu r, x.answer = some pdu ∧ x.Answers pdu r ∧ r.cmdResponse = setupRespACKOK ∧
    r.testPort = port

structure Sound (x : Exchange) : Prop where
  answered : ∀ pdu, x.answer = some pdu → ∃ r, x.Answers pdu r
  opened : ∀ port, x.session = some port → x.Accepted port

/-- Answered, with a session exactly if the answer accepts. -/
def Finished (x : Exchange) : Prop :=
  ∃ pdu r, x.answer = some pdu ∧ x.Answers pdu r ∧
    x.session = if r.cmdResponse = setupRespACKOK then some r.testPort else none

/-! ## The protocol -/

def Allowed (x : Exchange) : SetupOp → Prop
  | .listenUDP _ => x.null = none ∧ x.answer = none
  | .sendNull _ dst => dst = x.peer ∧ x.null = none ∧ x.answer = none
  | .sendResponse pdu dst => dst = x.peer ∧ x.answer = none ∧ ∃ r, x.Answers pdu r
  | .start sess => x.session = none ∧ x.Accepted sess.port
  | .now | .reserveBandwidth _ _ | .releaseBandwidth _ _ | .countSession | .readNextPort
  | .advanceNextPort _ | .sessionDone | .countResponse _ | .wgAdd => True

def next (x : Exchange) : (o : SetupOp) → o.Res → Exchange
  | .listenUDP _, r => { x with port := r }
  | .sendNull pdu _, _ => { x with null := some pdu }
  | .sendResponse pdu _, _ => { x with answer := some pdu }
  | .start sess, _ => { x with session := some sess.port }
  | .now, _ | .reserveBandwidth _ _, _ | .releaseBandwidth _ _, _ | .countSession, _
  | .readNextPort, _ | .advanceNextPort _, _ | .sessionDone, _ | .countResponse _, _
  | .wgAdd, _ => x

end Exchange

def exchangeProtocol : Protocol setupSig Exchange where
  Allowed := Exchange.Allowed
  next := Exchange.next

theorem Exchange.Sound.session_eq_none {x : Exchange} (h : x.Sound) (hanswer : x.answer = none) :
    x.session = none := by
  refine Option.eq_none_iff_forall_ne_some.mpr fun p hp => ?_
  obtain ⟨pdu, r, hpdu, -⟩ := h.opened p hp
  cases hanswer.symm.trans hpdu

theorem Exchange.Sound.of_unanswered {x : Exchange} (hanswer : x.answer = none)
    (hsession : x.session = none) : x.Sound where
  answered := fun _ hpdu => nomatch hanswer.symm.trans hpdu
  opened := fun _ hp => nomatch hsession.symm.trans hp

/-- Records stay sound. -/
theorem Exchange.Sound.next {x : Exchange} (h : x.Sound) {o : SetupOp} (ha : x.Allowed o)
    (r : o.Res) : (x.next o r).Sound := by
  cases o with
  | listenUDP port =>
      obtain ⟨-, hanswer⟩ := ha
      exact .of_unanswered hanswer (h.session_eq_none hanswer)
  | sendNull pdu dst =>
      obtain ⟨-, -, hanswer⟩ := ha
      exact .of_unanswered hanswer (h.session_eq_none hanswer)
  | sendResponse pdu dst =>
      obtain ⟨-, hanswer, r', hr'⟩ := ha
      refine ⟨fun pdu' hpdu => ?_, fun p hp => ?_⟩
      · cases hpdu
        exact ⟨r', hr'⟩
      · cases (h.session_eq_none hanswer).symm.trans hp
  | start sess =>
      obtain ⟨-, haccepted⟩ := ha
      refine ⟨h.answered, fun p hp => ?_⟩
      cases hp
      exact haccepted
  | now | reserveBandwidth _ _ | releaseBandwidth _ _ | countSession | readNextPort
  | advanceNextPort _ | sessionDone | countResponse _ | wgAdd => exact h

/-! ## The handler follows it -/

section Handler

variable {hmac : HMAC} {cfg : Config} {resp req : SetupPDU} {raw : Bytes} {peer : AddrPort}
variable {cred : Credentials}

/-- What the client reads of a response, signed or not. -/
theorem parseSetup_layout (hcmd : resp.cmdRequest = cmdSetupResponse) :
    parseSetup resp.layout = .ok (.ok resp) := by
  have hparse := setup_inverse.decode_encode resp (.inr hcmd)
  rwa [setupPDU_marshal_eq, ok_bind] at hparse

theorem parseSetup_signed (resp : SetupPDU) (key : Bytes)
    (hcmd : resp.cmdRequest = cmdSetupResponse) :
    ∃ auth, parseSetup (signed hmac key resp.layout setupAuthDigestOff)
      = .ok (.ok { resp with auth := auth }) := by
  obtain ⟨hsetup, hresp⟩ := parseSetup_eq_ok.mp (parseSetup_layout hcmd)
  have hroom : setupAuthDigestOff + 32 ≤ resp.layout.length := by
    rw [setupPDU_layout_length]
    decide
  -- every field but the trailer lies before the digest
  have hbyte : ∀ i, i < setupAuthDigestOff →
      (signed hmac key resp.layout setupAuthDigestOff).getD i 0 = resp.layout.getD i 0 :=
    fun i hi => signed_getD_ne hroom (.inl hi)
  have hword : ∀ i, i + 2 ≤ setupAuthDigestOff →
      u16At (signed hmac key resp.layout setupAuthDigestOff) i = u16At resp.layout i :=
    fun i hi => u16At_signed hroom hi
  have hfields : SetupPDU.ofBytes (signed hmac key resp.layout setupAuthDigestOff) =
      { SetupPDU.ofBytes resp.layout with
        auth := (SetupPDU.ofBytes (signed hmac key resp.layout setupAuthDigestOff)).auth } := by
    simp only [SetupPDU.ofBytes, hword 2 (by decide), hbyte 4 (by decide), hbyte 5 (by decide),
      hword 6 (by decide), hbyte 8 (by decide), hbyte 9 (by decide), hword 10 (by decide),
      hword 12 (by decide), hbyte 14 (by decide)]
  rw [← hresp] at hfields
  exact ⟨_, (parseSetup_ok hsetup.signed).trans (congrArg _ (congrArg _ hfields))⟩

/-- A client reads an answer of the handler as one to its request. -/
theorem Seals.answers {code : UInt8} {port : UInt16} {bound : Option UInt16} {null : Option Bytes}
    {pdu : Bytes} (h : Seals hmac (req.answer code port) req cred pdu)
    (haccepts : code = setupRespACKOK →
      bound = some port ∧ (null.isSome = true ↔ protocolVer ≤ req.protocolVer))
    (hrefuses : code ≠ setupRespACKOK → port = req.testPort ∧ null = none) :
    ∃ r, AnswerTo req bound null pdu r ∧ r.cmdResponse = code ∧ r.testPort = port := by
  have hparse : ∃ auth, parseSetup pdu = .ok (.ok { req.answer code port with auth := auth }) := by
    obtain ⟨auth, rfl | ⟨key, rfl⟩⟩ := h.layout
    · exact ⟨auth, parseSetup_layout rfl⟩
    · exact parseSetup_signed { req.answer code port with auth := auth } key rfl
  obtain ⟨auth, hparse⟩ := hparse
  exact ⟨_, ⟨hparse, rfl, haccepts, hrefuses⟩, rfl, rfl⟩

/-- The record the course of a request leaves. -/
def Course.exchange (st : Course) (raw : Bytes) (peer : AddrPort) : Exchange where
  raw := raw
  peer := peer
  port := st.bound.map Prod.snd
  null := st.null
  answer := st.answer
  session := st.session

/-- The protocol sees of the course what the client sees. -/
theorem exchangeProtocol_views :
    Views (setupCourse hmac cfg (SetupPDU.ofBytes raw) raw peer) exchangeProtocol
      fun st x => x = st.exchange raw peer := by
  rintro st _ o rfl h
  cases o with
  | reserveBandwidth upstream mbw =>
      refine ⟨trivial, fun granted => ?_⟩
      cases granted <;> rfl
  | countSession =>
      refine ⟨trivial, fun err => ?_⟩
      cases err <;> rfl
  | listenUDP port =>
      obtain ⟨hst, -, hnull, -⟩ := h
      refine ⟨⟨hnull, hst.answer⟩, fun r => ?_⟩
      cases r <;> rfl
  | sendNull pdu dst =>
      obtain ⟨hst, hdst, hnull⟩ := h
      exact ⟨⟨hdst, hnull, hst.answer⟩, fun _ => rfl⟩
  | sendResponse pdu dst =>
      obtain ⟨hdst, hanswer, -, -, code, port, cred, -, hpdu, hsay⟩ := h
      obtain ⟨r, hr, -⟩ := hpdu.answers hsay.accepts hsay.refuses
      exact ⟨⟨hdst, hanswer, r, hr⟩, fun _ => rfl⟩
  | start sess =>
      obtain ⟨-, hsess, -, -, -, cred, port, pdu, rfl, -, -, hanswer, hpdu, hsay, -⟩ := h
      obtain ⟨r, hr, hcode, hport⟩ := hpdu.answers hsay.accepts hsay.refuses
      exact ⟨⟨hsess, pdu, r, hanswer, hr, hcode, hport⟩, fun _ => rfl⟩
  | _ => exact ⟨trivial, fun _ => rfl⟩

theorem Course.Done.finished {st : Course} (h : st.Done hmac (SetupPDU.ofBytes raw)) :
    (st.exchange raw peer).Finished := by
  obtain ⟨code, port, cred, pdu, -, hanswer, hpdu, hsay, hend⟩ := h
  obtain ⟨r, hr, hcode, hport⟩ := hpdu.answers hsay.accepts hsay.refuses
  refine ⟨pdu, r, hanswer, hr, ?_⟩
  rw [hcode, hport]
  split_ifs at hend ⊢
  · exact hend.1
  · exact hend.1

/-- **`handleSetup` follows the exchange protocol**, and ends with an answer
and, if that accepts, a session on the port it names. -/
theorem handleSetup_exchanges (hraw : raw.length = setupSize) :
    Conforms exchangeProtocol { raw := raw, peer := peer }
      (handleSetup hmac cfg (SetupPDU.ofBytes raw) raw peer) fun _ x' => x'.Finished := by
  refine ((handleSetup_course hraw).view exchangeProtocol_views rfl).mono ?_
  rintro _ _ ⟨st, rfl, hdone⟩
  exact hdone.finished

end Handler

/-! ## The system -/

/-- The request a label brings to the handler, if any. -/
def Label.request (hmac : HMAC) (cfg : Config) : Label → Option (Bytes × AddrPort)
  | .recv peer data => (serveDatagram hmac cfg peer data).map fun _ => (data.take 512, peer)
  | .setup _ | .finish | .thread _ _ | .close => none

/-- A session goroutine, by the request it came from and its port. -/
def Thread.key (th : Thread) : Bytes × AddrPort × UInt16 :=
  (th.origin.raw, th.origin.peer, th.sess.port)

def SetupOp.response : SetupOp → Option (Bytes × AddrPort)
  | .sendResponse pdu peer => some (pdu, peer)
  | _ => none

def SetupOp.nullSent : SetupOp → Option (Bytes × AddrPort)
  | .sendNull pdu peer => some (pdu, peer)
  | _ => none

theorem exec_writes (cfg : Config) (o : SetupOp) (env : Env) (sh : Shared) :
    (SetupOp.exec cfg o env sh).2.responses = sh.responses ++ o.response.toList ∧
      (SetupOp.exec cfg o env sh).2.nulls = sh.nulls ++ o.nullSent.toList := by
  cases o with
  | reserveBandwidth upstream mbw =>
      simp only [SetupOp.exec, Shared.reserve, SetupOp.response, SetupOp.nullSent,
        Option.toList_none, List.append_nil]
      split_ifs <;> exact ⟨rfl, rfl⟩
  | releaseBandwidth upstream mbw =>
      simp only [SetupOp.exec, Shared.release, SetupOp.response, SetupOp.nullSent,
        Option.toList_none, List.append_nil]
      split_ifs <;> exact ⟨rfl, rfl⟩
  | countSession =>
      simp only [SetupOp.exec, Shared.countSession, SetupOp.response, SetupOp.nullSent,
        Option.toList_none, List.append_nil]
      split_ifs <;> exact ⟨rfl, rfl⟩
  | countResponse code =>
      simp only [SetupOp.exec, SetupOp.response, SetupOp.nullSent, Option.toList_none,
        List.append_nil]
      split_ifs <;> exact ⟨rfl, rfl⟩
  | sendResponse pdu peer => exact ⟨rfl, (List.append_nil _).symm⟩
  | sendNull pdu peer => exact ⟨(List.append_nil _).symm, rfl⟩
  | now | readNextPort | listenUDP _ | advanceNextPort _ | sessionDone | wgAdd | start _ =>
      exact ⟨(List.append_nil _).symm, (List.append_nil _).symm⟩

theorem Exchange.next_request (x : Exchange) (o : SetupOp) (r : o.Res) :
    (x.next o r).request = x.request := by
  cases o <;> rfl

/-- What an operation sends or starts, the record of its request gets. -/
theorem Exchange.next_sent {x : Exchange} {o : SetupOp} (ha : x.Allowed o) (r : o.Res) :
    (x.next o r).response.toList = x.response.toList ++ o.response.toList ∧
      (x.next o r).nullSent.toList = x.nullSent.toList ++ o.nullSent.toList ∧
      (x.next o r).opened.toList =
        x.opened.toList ++ (o.spawned.map fun sess => (x.raw, x.peer, sess.port)).toList := by
  have hnil : ∀ {α : Type} (l : List α), l = l ++ (none : Option α).toList :=
    fun l => (List.append_nil l).symm
  cases o with
  | sendResponse pdu dst =>
      obtain ⟨rfl, hanswer, -⟩ := ha
      refine ⟨?_, hnil _, hnil _⟩
      rw [response, response, hanswer]
      rfl
  | sendNull pdu dst =>
      obtain ⟨rfl, hnull, -⟩ := ha
      refine ⟨hnil _, ?_, hnil _⟩
      rw [nullSent, nullSent, hnull]
      rfl
  | start sess =>
      obtain ⟨hsession, -⟩ := ha
      refine ⟨hnil _, hnil _, ?_⟩
      rw [opened, opened, hsession]
      rfl
  | now | reserveBandwidth _ _ | releaseBandwidth _ _ | countSession | readNextPort
  | listenUDP _ | advanceNextPort _ | sessionDone | countResponse _ | wgAdd =>
      exact ⟨hnil _, hnil _, hnil _⟩

/-- The handler is at work on the last record. -/
def InExchange : Option Handling → Option Exchange → Prop
  | none, none => True
  | some h, some x => h.origin.raw = x.raw ∧ h.origin.peer = x.peer ∧
      Conforms exchangeProtocol x h.prog fun _ x' => x'.Finished
  | none, some _ | some _, none => False

/-- The records: `done` of the requests handled, `cur` of the one in hand. -/
structure Recorded (s : System) (done : List Exchange) (cur : Option Exchange) : Prop where
  current : InExchange s.handling cur
  responses : s.shared.responses =
    done.filterMap Exchange.response ++ (cur.bind Exchange.response).toList
  nulls : s.shared.nulls =
    done.filterMap Exchange.nullSent ++ (cur.bind Exchange.nullSent).toList
  sessions : s.threads.map Thread.key =
    done.filterMap Exchange.opened ++ (cur.bind Exchange.opened).toList
  sound : ∀ x ∈ done ++ cur.toList, x.Sound
  finished : ∀ x ∈ done, x.Finished

section Steps

variable {hmac : HMAC} {srv : Server} {s s' : System} {done : List Exchange}
variable {cur : Option Exchange}

theorem recorded_init : Recorded (System.init srv) [] none where
  current := trivial
  responses := rfl
  nulls := rfl
  sessions := rfl
  sound := by simp
  finished := by simp

/-- The goroutines of the sessions send nothing here, and stay who they are. -/
theorem ThreadMoves.sent {th th' : Thread} {sh sh' : Shared} {ev : ThreadEvent}
    (h : ThreadMoves hmac srv th sh ev th' sh') :
    th'.key = th.key ∧ sh'.responses = sh.responses ∧ sh'.nulls = sh.nulls := by
  have hport := h.port.1
  cases h with
  | skip _ _ | activate _ _ => exact ⟨by rw [Thread.key, hport]; rfl, rfl, rfl⟩
  | exit _ | uncount _ | done _ => exact ⟨rfl, rfl, rfl⟩
  | release _ =>
      refine ⟨rfl, ?_⟩
      unfold Shared.release
      split_ifs <;> exact ⟨rfl, rfl⟩

theorem Closer.sent {c c' : Closer} {sh sh' : Shared} (h : Closer.step sh c = some (c', sh')) :
    sh'.responses = sh.responses ∧ sh'.nulls = sh.nulls := by
  cases c with
  | idle => cases h; exact ⟨rfl, rfl⟩
  | flagged => cases h; exact ⟨rfl, rfl⟩
  | socketClosed => cases (Option.ite_none_right_eq_some.mp h).2; exact ⟨rfl, rfl⟩
  | returned => cases h

theorem map_set_same {α β : Type} {f : α → β} {l : List α} {i : Nat} {a b : α}
    (ha : l[i]? = some a) (hf : f b = f a) : (l.set i b).map f = l.map f := by
  rw [List.map_set, hf]
  apply List.ext_getElem?
  intro j
  rw [List.getElem?_set]
  split
  · next hij =>
      subst hij
      rw [List.getElem?_map, ha]
      have hlt := (List.getElem?_eq_some_iff.mp ha).1
      simp [hlt]
  · rfl

theorem filterMap_with {α β : Type} (f : α → Option β) (done : List α) (cur : Option α) :
    (done ++ cur.toList).filterMap f = done.filterMap f ++ (cur.bind f).toList := by
  rw [List.filterMap_append]
  cases cur with
  | none => rfl
  | some a => cases h : f a <;> simp [h]

theorem record_raw (origin : Origin) (o : SetupOp) (env : Env) :
    (origin.record o env).raw = origin.raw ∧ (origin.record o env).peer = origin.peer := by
  cases o <;> exact ⟨rfl, rfl⟩

/-- A step that is no operation of the handler leaves the records alone. -/
theorem Recorded.congr (h : Recorded s done cur) (hhandling : s'.handling = s.handling)
    (hresponses : s'.shared.responses = s.shared.responses)
    (hnulls : s'.shared.nulls = s.shared.nulls)
    (hthreads : s'.threads.map Thread.key = s.threads.map Thread.key) : Recorded s' done cur where
  current := hhandling ▸ h.current
  responses := hresponses.trans h.responses
  nulls := hnulls.trans h.nulls
  sessions := hthreads.trans h.sessions
  sound := h.sound
  finished := h.finished

/-- A request comes in. -/
theorem Recorded.arrive (h : Recorded s done cur) (hidle : s.handling = none) {raw : Bytes}
    {peer : AddrPort} (hraw : raw.length = setupSize) :
    Recorded { s with handling := some {
        origin := { raw := raw, peer := peer }
        prog := handleSetup hmac srv.cfg (SetupPDU.ofBytes raw) raw peer } }
      done (some { raw := raw, peer := peer }) := by
  have hcurrent := h.current
  rw [hidle] at hcurrent
  cases cur with
  | some x => exact hcurrent.elim
  | none =>
      have hfollows : Conforms exchangeProtocol { raw := raw, peer := peer }
          (handleSetup hmac srv.cfg (SetupPDU.ofBytes raw) raw peer) fun _ x' => x'.Finished :=
        handleSetup_exchanges hraw
      refine ⟨⟨rfl, rfl, hfollows⟩, h.responses, h.nulls, h.sessions, ?_, h.finished⟩
      intro x hx
      rcases List.mem_append.mp hx with hold | hnew
      · exact h.sound x (List.mem_append_left _ hold)
      · rw [List.mem_singleton.mp hnew]
        exact ⟨(fun _ hpdu => nomatch hpdu), (fun _ hport => nomatch hport)⟩

/-- The handler performs an operation. -/
theorem Recorded.op {env : Env} {origin : Origin} {o : SetupOp} {k : o.Res → SetupProg Unit}
    {x : Exchange} (h : Recorded s done (some x))
    (hprog : s.handling = some { origin := origin, prog := .op o k }) :
    Recorded { s with
      shared := (SetupOp.exec srv.cfg o env s.shared).2
      handling := some {
        origin := origin.record o env
        prog := k (SetupOp.exec srv.cfg o env s.shared).1 }
      threads := s.threads ++ (SetupOp.spawned o).toList.map fun sess =>
        { origin := origin.record o env, sess := sess } } done
      (some (x.next o (SetupOp.exec srv.cfg o env s.shared).1)) := by
  have hcurrent := h.current
  rw [hprog] at hcurrent
  obtain ⟨hraw, hpeer, hfollows⟩ := hcurrent
  obtain ⟨hallowed, hrest⟩ := Conforms.op_iff.mp hfollows
  obtain ⟨hresponses, hnulls⟩ := exec_writes srv.cfg o env s.shared
  obtain ⟨horaw, hopeer⟩ := record_raw origin o env
  generalize (SetupOp.exec srv.cfg o env s.shared).1 = r at *
  obtain ⟨hxraw, hxpeer⟩ := Prod.ext_iff.mp (x.next_request o r)
  obtain ⟨hxresponse, hxnull, hxopened⟩ := x.next_sent hallowed r
  refine ⟨⟨?_, ?_, hrest r⟩, ?_, ?_, ?_, ?_, h.finished⟩
  · exact horaw.trans (hraw.trans hxraw.symm)
  · exact hopeer.trans (hpeer.trans hxpeer.symm)
  · show (SetupOp.exec srv.cfg o env s.shared).2.responses = _ ++ (x.next o r).response.toList
    rw [hresponses, h.responses, hxresponse, List.append_assoc]
    rfl
  · show (SetupOp.exec srv.cfg o env s.shared).2.nulls = _ ++ (x.next o r).nullSent.toList
    rw [hnulls, h.nulls, hxnull, List.append_assoc]
    rfl
  · show (s.threads ++ _).map Thread.key = _ ++ (x.next o r).opened.toList
    rw [List.map_append, h.sessions, hxopened, ← List.append_assoc]
    congr 1
    cases o.spawned with
    | none => rfl
    | some sess =>
        show [(_, _, _)] = [(_, _, _)]
        rw [horaw, hopeer, hraw, hpeer]
  · intro y hy
    rcases List.mem_append.mp hy with hold | hnew
    · exact h.sound y (List.mem_append_left _ hold)
    · rw [List.mem_singleton.mp hnew]
      exact (h.sound x (List.mem_append_right _ (List.mem_singleton.mpr rfl))).next hallowed r

/-- The handler returns. -/
theorem Recorded.finish {origin : Origin} {x : Exchange} (h : Recorded s done (some x))
    (hprog : s.handling = some { origin := origin, prog := .ret () }) :
    Recorded { s with handling := none } (done ++ [x]) none := by
  have hcurrent := h.current
  rw [hprog] at hcurrent
  obtain ⟨-, -, hfollows⟩ := hcurrent
  have hx : x.Finished := Conforms.ret_iff.mp hfollows
  refine ⟨trivial, ?_, ?_, ?_, ?_, ?_⟩
  · exact h.responses.trans ((filterMap_with _ done (some x)).symm.trans (List.append_nil _).symm)
  · exact h.nulls.trans ((filterMap_with _ done (some x)).symm.trans (List.append_nil _).symm)
  · exact h.sessions.trans ((filterMap_with _ done (some x)).symm.trans (List.append_nil _).symm)
  · simpa using h.sound
  · intro y hy
    rcases List.mem_append.mp hy with hold | hnew
    · exact h.finished y hold
    · rw [List.mem_singleton.mp hnew]
      exact hx

/-- The next state has records again, with one more for a request that comes
in. -/
theorem Recorded.step {l : Label} (h : Recorded s done cur) (hstep : s.step hmac srv l = some s') :
    ∃ done' cur', Recorded s' done' cur' ∧
      (done' ++ cur'.toList).map Exchange.request =
        (done ++ cur.toList).map Exchange.request ++ (l.request hmac srv.cfg).toList := by
  have hcurrent := h.current
  cases l with
  | recv peer data =>
      obtain ⟨hcrashed, hmoves⟩ := moves_of_step hstep
      have hidle : s.handling = none := by cases hmoves <;> assumption
      simp only [System.step, hcrashed, hidle, System.stepRecv] at hstep
      split at hstep
      · cases hserve : serveDatagram hmac srv.cfg peer data with
        | none =>
            rw [hserve] at hstep
            cases hstep
            exact ⟨done, cur, h, by simp [Label.request, hserve]⟩
        | some prog =>
            rw [hserve] at hstep
            cases hstep
            obtain ⟨hraw, rfl⟩ := serveDatagram_eq_some hserve
            rw [hidle] at hcurrent
            cases cur with
            | some x => exact hcurrent.elim
            | none =>
                have harrive : Recorded { s with handling := some {
                      origin := { raw := data.take 512, peer := peer }
                      prog := handleSetup hmac srv.cfg (SetupPDU.ofBytes (data.take 512))
                        (data.take 512) peer } } done _ := h.arrive hidle hraw.size
                refine ⟨done, _, harrive.congr rfl rfl rfl rfl, ?_⟩
                simp [Label.request, hserve, Exchange.request]
      · cases hstep
  | setup env =>
      obtain ⟨-, hmoves⟩ := moves_of_step hstep
      cases hmoves with
      | op hprog =>
          cases cur with
          | none =>
              rw [hprog] at hcurrent
              exact hcurrent.elim
          | some x =>
              refine ⟨done, _, h.op hprog, ?_⟩
              simp [Label.request, Exchange.next_request]
      | crash hprog => exact ⟨done, cur, h.congr rfl rfl rfl rfl, (List.append_nil _).symm⟩
  | finish =>
      obtain ⟨-, hmoves⟩ := moves_of_step hstep
      cases hmoves with
      | finish hprog =>
          cases cur with
          | none =>
              rw [hprog] at hcurrent
              exact hcurrent.elim
          | some x =>
              refine ⟨done ++ [x], none, h.finish hprog, ?_⟩
              simp [Label.request]
  | thread i ev =>
      obtain ⟨-, hmoves⟩ := moves_of_step hstep
      cases hmoves with
      | thread hth hmove =>
          obtain ⟨hkey, hresponses, hnulls⟩ := hmove.sent
          exact ⟨done, cur, h.congr rfl hresponses hnulls (map_set_same hth hkey),
            (List.append_nil _).symm⟩
      | panic => exact ⟨done, cur, h.congr rfl rfl rfl rfl, (List.append_nil _).symm⟩
  | close =>
      obtain ⟨-, hmoves⟩ := moves_of_step hstep
      cases hmoves with
      | close hclose =>
          obtain ⟨hresponses, hnulls⟩ := Closer.sent hclose
          exact ⟨done, cur, h.congr rfl hresponses hnulls rfl, (List.append_nil _).symm⟩

end Steps

/-- **The setup exchange.** In every run of the server, whatever is
interleaved: there is one record for each request that reached the handler,
in their order; the Setup Responses, the Null Requests and the sessions are
exactly those of the records, each response to the sender of its request. A
response repeats its request but for its own fields; one that accepts names
the port of the session. All records but that of a request still in hand are
complete. -/
theorem setup_exchange (hmac : HMAC) (srv : Server) {labels : List Label} {s : System}
    (hrun : Transition.run (System.step hmac srv) (System.init srv) labels = some s) :
    ∃ xs : List Exchange,
      xs.map Exchange.request = labels.filterMap (Label.request hmac srv.cfg) ∧
      s.shared.responses = xs.filterMap Exchange.response ∧
      s.shared.nulls = xs.filterMap Exchange.nullSent ∧
      s.threads.map Thread.key = xs.filterMap Exchange.opened ∧
      (∀ x ∈ xs, x.Sound) ∧ (∀ x ∈ xs.dropLast, x.Finished) ∧
      (s.handling = none → ∀ x ∈ xs, x.Finished) := by
  -- by induction on the run, with the records split at the request in hand
  have hall : ∃ done cur, Recorded s done cur ∧ (done ++ cur.toList).map Exchange.request =
      labels.filterMap (Label.request hmac srv.cfg) := by
    refine Transition.run_induction (P := fun labels s => ∃ done cur, Recorded s done cur ∧
      (done ++ cur.toList).map Exchange.request = labels.filterMap (Label.request hmac srv.cfg))
      ⟨[], none, recorded_init, rfl⟩ ?_ hrun
    rintro ls s l s' - ⟨done, cur, hrecorded, hrequests⟩ hstep
    obtain ⟨done', cur', hrecorded', hrequests'⟩ := hrecorded.step hstep
    refine ⟨done', cur', hrecorded', ?_⟩
    rw [hrequests', hrequests]
    exact (filterMap_with _ ls (some l)).symm
  obtain ⟨done, cur, hrecorded, hrequests⟩ := hall
  refine ⟨done ++ cur.toList, hrequests, ?_, ?_, ?_, hrecorded.sound, ?_, ?_⟩
  · rw [filterMap_with, hrecorded.responses]
  · rw [filterMap_with, hrecorded.nulls]
  · rw [filterMap_with, hrecorded.sessions]
  · intro x hx
    cases cur with
    | none =>
        rw [Option.toList_none, List.append_nil] at hx
        exact hrecorded.finished x (List.mem_of_mem_dropLast hx)
    | some y =>
        rw [Option.toList_some, List.dropLast_concat] at hx
        exact hrecorded.finished x hx
  · intro hidle x hx
    have hcurrent := hrecorded.current
    rw [hidle] at hcurrent
    cases cur with
    | none => exact hrecorded.finished x (by simpa using hx)
    | some y => exact hcurrent.elim

/-- In `orderlyRun` the one client is answered, and told the port of its
session. -/
theorem setup_exchange_orderlyRun : ∃ s pdu r,
    Transition.run (System.step zeroHMAC plainServer) (System.init plainServer) orderlyRun
        = some s ∧
      s.shared.responses = [(pdu, clientAddr)] ∧ parseSetup pdu = .ok (.ok r) ∧
      s.threads.map (fun th => th.sess.port) = [r.testPort] := by
  have hrun : (Transition.run (System.step zeroHMAC plainServer) (System.init plainServer)
      orderlyRun).map (fun s => (s.handling.isNone, s.threads.length)) = some (true, 1) := by
    decide +kernel
  have hone : orderlyRun.filterMap (Label.request zeroHMAC plainServer.cfg) =
      [(plainRequest.layout, clientAddr)] := by
    decide +kernel
  obtain ⟨s, hs, hfacts⟩ := Option.map_eq_some_iff.mp hrun
  obtain ⟨hidle, hlen⟩ := Prod.mk.inj hfacts
  obtain ⟨xs, hrequests, hresponses, -, hsessions, -, -, hfinished⟩ :=
    setup_exchange zeroHMAC plainServer hs
  rw [hone] at hrequests
  obtain ⟨x, rfl, hx⟩ := List.map_eq_singleton_iff.mp hrequests
  obtain ⟨pdu, r, hanswer, hanswers, hsession⟩ :=
    hfinished (Option.isNone_iff_eq_none.mp hidle) x (List.mem_singleton.mpr rfl)
  have hopened : x.session = some r.testPort := by
    have hcount := congrArg List.length hsessions
    rw [List.length_map, hlen] at hcount
    split at hsession
    · exact hsession
    · simp [Exchange.opened, hsession] at hcount
  refine ⟨s, pdu, r, hs, ?_, hanswers.parses, ?_⟩
  · have hpeer : x.peer = clientAddr := congrArg Prod.snd hx
    simpa [Exchange.response, hanswer, hpeer] using hresponses
  · have hports := congrArg (List.map fun k => k.2.2) hsessions
    simpa [Exchange.opened, hopened, Thread.key, Function.comp_def] using hports

end Diagd.Udpst
