import Diagd.Udpst.Course

/-!
# What one setup request has in hand

The protocol `setupProtocol` keeps of the course of a request what it has in
hand between two atomic steps (`Progress`): the clock readings it has made,
the bandwidth it has reserved, whether it counts as a session, whether it
has moved `nextPort`, and how far its answer has come. Its rules say what an
operation may be performed WITH: a release gives back exactly what is held,
a refusal is counted only with nothing in hand, an answer is sent once and
carries the code that was counted, and a session starts only after the
accepting answer, with everything in hand passed on to it and the
authentication it needs (`Granted`).

What the server does over whole runs, with other goroutines between any two
steps, is derived from the rules alone.
-/

namespace Diagd.Udpst

open GoSlice GoStd Resumption

/-! ## The protocol -/

/-- A session as `handleSetup` creates it. -/
structure Granted (hmac : HMAC) (cfg : Config) (req : SetupPDU) (raw : Bytes)
    (peer : AddrPort) (clocks : List Time) (sess : Session) : Prop where
  minVer : protocolMin ≤ req.protocolVer
  maxVer : req.protocolVer ≤ protocolVer
  created : ∃ cred port,
    sess = newSession req cred peer port req.wantsUpstream (req.charge cfg) ∧
    (Anonymous cfg req cred ∨ Authentic hmac cfg req raw clocks cred)

/-- How far the answer to a request has come. -/
inductive Stage where
  | deciding
  | counted (code : UInt8)
  | answered (code : UInt8)
  | registered
  | started
  deriving DecidableEq, Repr

/-- What a request has in hand between two of its steps. -/
structure Progress where
  clocks : List Time := []
  reserved : Int := 0
  slot : Bool := false
  portMoved : Bool := false
  stage : Stage := .deciding

namespace Progress

/-- Nothing is held: the server is as it would be without the request. -/
structure Empty (st : Progress) : Prop where
  reserved : st.reserved = 0
  slot : st.slot = false
  portMoved : st.portMoved = false

def Allowed (hmac : HMAC) (cfg : Config) (req : SetupPDU) (raw : Bytes) (peer : AddrPort)
    (st : Progress) : SetupOp → Prop
  | .now | .readNextPort | .listenUDP _ => True
  | .reserveBandwidth upstream mbw =>
      st.stage = .deciding ∧ st.reserved = 0 ∧ 0 < cfg.maxBandwidthMbps ∧
        upstream = req.wantsUpstream ∧ 0 < mbw
  | .releaseBandwidth upstream mbw =>
      st.stage = .deciding ∧ upstream = req.wantsUpstream ∧ mbw = st.reserved
  | .countSession => st.stage = .deciding ∧ st.slot = false
  | .advanceNextPort _ => st.stage = .deciding ∧ st.slot = true
  | .sessionDone => st.stage = .deciding ∧ st.slot = true ∧ st.portMoved = false
  | .countResponse code =>
      st.stage = .deciding ∧ if code = setupRespACKOK then st.slot = true else st.Empty
  | .sendResponse pdu dst => st.stage = .counted (pdu.getD 9 0) ∧ dst = peer
  | .sendNull _ dst => st.stage = .deciding ∧ dst = peer
  | .wgAdd => st.stage = .answered setupRespACKOK
  | .start sess =>
      st.stage = .registered ∧ st.slot = true ∧ sess.bwMbps = st.reserved ∧
        sess.bwUpstream = req.wantsUpstream ∧ Granted hmac cfg req raw peer st.clocks sess

def next (st : Progress) : (o : SetupOp) → o.Res → Progress
  | .now, now => { st with clocks := st.clocks ++ [now] }
  | .reserveBandwidth _ mbw, granted => if granted then { st with reserved := mbw } else st
  | .releaseBandwidth _ _, _ => { st with reserved := 0 }
  | .countSession, err => if err.isNone then { st with slot := true } else st
  | .advanceNextPort _, _ => { st with portMoved := true }
  | .sessionDone, _ => { st with slot := false }
  | .countResponse code, _ => { st with stage := .counted code }
  | .sendResponse pdu _, _ => { st with stage := .answered (pdu.getD 9 0) }
  | .wgAdd, _ => { st with stage := .registered }
  -- the session takes over what was held
  | .start _, _ => { st with stage := .started, reserved := 0, slot := false }
  | .readNextPort, _ | .listenUDP _, _ | .sendNull _ _, _ => st

/-- How a handled request ends: refused with nothing in hand, or as a
running session. -/
def Done (st : Progress) : Prop :=
  (st.stage = .started ∧ st.reserved = 0 ∧ st.slot = false) ∨
    ∃ code, code ≠ setupRespACKOK ∧ st.stage = .answered code ∧ st.Empty

end Progress

def setupProtocol (hmac : HMAC) (cfg : Config) (req : SetupPDU) (raw : Bytes)
    (peer : AddrPort) : Protocol setupSig Progress where
  Allowed := Progress.Allowed hmac cfg req raw peer
  next := Progress.next

/-! ## The handler follows it -/

/-- How far the answer has come. -/
def Course.stage (st : Course) : Stage :=
  if st.session.isSome then .started
  else if st.registered then .registered
  else match st.counted with
    | none => .deciding
    | some code => if st.answer.isSome then .answered code else .counted code

def Course.progress (st : Course) : Progress where
  clocks := st.clocks
  reserved := st.reserved
  slot := st.slot
  portMoved := st.portMoved
  stage := st.stage

theorem signed_setup_code {hmac : HMAC} (r : SetupPDU) (key : Bytes) :
    (signed hmac key r.layout setupAuthDigestOff).getD 9 0 = r.cmdResponse := by
  rw [signed_getD_ne (by simp [setupAuthDigestOff]) (.inl (by decide)),
    setupPDU_layout_cmdResponse]

theorem Seals.code {hmac : HMAC} {resp req : SetupPDU} {cred : Credentials} {pdu : Bytes}
    (h : Seals hmac resp req cred pdu) : pdu.getD 9 0 = resp.cmdResponse := by
  obtain ⟨auth, rfl | ⟨key, rfl⟩⟩ := h.layout
  · exact setupPDU_layout_cmdResponse _
  · exact signed_setup_code _ _

section Handler

variable {hmac : HMAC} {cfg : Config} {req : SetupPDU} {raw : Bytes} {peer : AddrPort}
variable {st : Course}

theorem Course.Deciding.stage (h : st.Deciding) : st.stage = .deciding := by
  simp [Course.stage, h.session, h.registered, h.counted]

theorem Course.MayStart.granted {sess : Session} (h : st.MayStart hmac cfg req raw peer sess) :
    sess.bwMbps = st.reserved ∧ sess.bwUpstream = req.wantsUpstream ∧
      Granted hmac cfg req raw peer st.clocks sess := by
  obtain ⟨hmin, hmax, cred, port, pdu, rfl, hcharge, hauth, -⟩ := h
  exact ⟨rfl, rfl, hmin, hmax, cred, port, by rw [hcharge], hauth⟩

/-- The protocol sees of the course what is in hand. -/
theorem setupProtocol_views :
    Views (setupCourse hmac cfg req raw peer) (setupProtocol hmac cfg req raw peer)
      fun st p => p = st.progress := by
  rintro st _ o rfl h
  cases o with
  | now => exact ⟨trivial, fun _ => rfl⟩
  | reserveBandwidth upstream mbw =>
      refine ⟨⟨h.1.stage, h.2⟩, fun granted => ?_⟩
      cases granted <;> rfl
  | releaseBandwidth upstream mbw => exact ⟨⟨h.1.stage, h.2⟩, fun _ => rfl⟩
  | countSession =>
      refine ⟨⟨h.1.stage, h.2.1⟩, fun err => ?_⟩
      cases err <;> rfl
  | readNextPort => exact ⟨trivial, fun _ => rfl⟩
  | listenUDP port => exact ⟨trivial, fun _ => rfl⟩
  | advanceNextPort port => exact ⟨⟨h.1.stage, h.2.1⟩, fun _ => rfl⟩
  | sessionDone => exact ⟨⟨h.1.stage, h.2.1, h.2.2.1⟩, fun _ => rfl⟩
  | countResponse code =>
      obtain ⟨hst, hcode⟩ := h
      refine ⟨⟨hst.stage, ?_⟩, fun _ => ?_⟩
      · split_ifs at hcode ⊢
        · exact hcode
        · exact ⟨hcode.reserved, hcode.slot, hcode.portMoved⟩
      · simp [setupProtocol, Progress.next, setupCourse, Course.next, Course.progress, Course.stage,
          hst.session, hst.registered, hst.answer]
  | sendResponse pdu dst =>
      obtain ⟨hdst, hanswer, hreg, hsess, code, port, cred, hcounted, hpdu, -⟩ := h
      have hcode : pdu.getD 9 0 = code := hpdu.code
      refine ⟨⟨?_, hdst⟩, fun _ => ?_⟩
      · simp only [Course.progress, Course.stage, hsess, hreg, hcounted, hanswer, hcode]
        rfl
      · simp only [setupProtocol, Progress.next, hcode]
        simp [setupCourse, Course.next, Course.progress, Course.stage, hsess, hreg, hcounted]
  | sendNull pdu dst => exact ⟨⟨h.1.stage, h.2.1⟩, fun _ => rfl⟩
  | wgAdd =>
      obtain ⟨hcounted, hanswer, hreg, hsess⟩ := h
      refine ⟨?_, fun _ => ?_⟩
      · simp [setupProtocol, Progress.Allowed, Course.progress, Course.stage, hsess, hreg, hcounted,
          hanswer]
      · simp [setupProtocol, Progress.next, setupCourse, Course.next, Course.progress, Course.stage,
          hsess]
  | start sess =>
      obtain ⟨hreg, hsess, hslot, hstart⟩ := h
      refine ⟨⟨?_, hslot, hstart.granted⟩, fun _ => rfl⟩
      simp [Course.progress, Course.stage, hsess, hreg]

theorem Course.Done.progress (h : st.Done hmac req) : st.progress.Done := by
  obtain ⟨code, port, cred, pdu, hcounted, hanswer, -, -, hend⟩ := h
  split_ifs at hend with hcode
  · obtain ⟨hsess, hreserved, hslot⟩ := hend
    refine .inl ⟨?_, hreserved, hslot⟩
    simp [Course.progress, Course.stage, hsess]
  · obtain ⟨hsess, hreg, hempty⟩ := hend
    refine .inr ⟨code, hcode, ?_, hempty.reserved, hempty.slot, hempty.portMoved⟩
    simp [Course.progress, Course.stage, hsess, hreg, hcounted, hanswer]

/-- **`handleSetup` follows the protocol**: it never panics, gives back or
passes on everything it takes, answers exactly once, and starts a session
only for a request that is entitled to one. -/
theorem handleSetup_conforms (hraw : raw.length = setupSize) :
    Conforms (setupProtocol hmac cfg req raw peer) {} (handleSetup hmac cfg req raw peer)
      fun _ st' => st'.Done := by
  refine ((handleSetup_course hraw).view setupProtocol_views rfl).mono ?_
  rintro _ _ ⟨st, rfl, hdone⟩
  exact hdone.progress

end Handler

end Diagd.Udpst
