import Diagd.Udpst.Server

/-!
# The course of a setup request

`handleSetup` is walked through once, here, against a protocol that says all
there is to say about its operations: `Course` records what the request has
done and taken so far, and `Course.Allowed` what each operation may be
performed with. There is one spec lemma for each function of the handler.

Whatever else is known about a setup request, be it about what it holds, the
ports it tries, the answer its client reads or the signatures, is a view of
this protocol.
-/

namespace Diagd.Udpst

open GoSlice GoStd Resumption

/-! ## Authentication of an accepted request -/

/-- The request is signed under a configured key and fresh at the first
clock reading; `cred` is what the session then holds. -/
structure Authentic (hmac : HMAC) (cfg : Config) (req : SetupPDU) (raw : Bytes)
    (clocks : List Time) (cred : Credentials) : Prop where
  mode : req.auth.authMode = authModeControl
  signed : ∃ secret, cfg.keys.lookup req.auth.keyID = some secret ∧
    hmac (requestKey hmac req secret) (masked raw setupAuthDigestOff) = req.auth.authDigest ∧
    cred = requestCredentials hmac req secret
  fresh : ∃ now, clocks.head? = some now ∧
    -authTimeWindow * second ≤ now - req.auth.authUnixTime.toNat * second ∧
    now - req.auth.authUnixTime.toNat * second ≤ authTimeWindow * second

/-- What a server without keys admits. -/
structure Anonymous (cfg : Config) (req : SetupPDU) (cred : Credentials) : Prop where
  keys : cfg.keys = []
  mode : req.auth.authMode = authModeNone
  cred : cred = {}

/-- The bandwidth an accepted request is charged with. -/
def SetupPDU.charge (cfg : Config) (req : SetupPDU) : Int :=
  if 0 < cfg.maxBandwidthMbps then req.mbw else 0

theorem Authentic.later {hmac : HMAC} {cfg : Config} {req : SetupPDU} {raw : Bytes}
    {clocks : List Time} {cred : Credentials} (h : Authentic hmac cfg req raw clocks cred)
    (more : List Time) : Authentic hmac cfg req raw (clocks ++ more) cred := by
  obtain ⟨now, hnow, hskew⟩ := h.fresh
  refine ⟨h.mode, h.signed, now, ?_, hskew⟩
  rw [List.head?_append, hnow]
  rfl

/-! ## Answers -/

/-- The answer to a request repeats it but for these fields. -/
def SetupPDU.answer (req : SetupPDU) (code : UInt8) (port : UInt16) : SetupPDU :=
  { req with
    cmdRequest := cmdSetupResponse
    cmdResponse := code
    protocolVer := if code = setupRespBadVersion then Udpst.protocolVer else req.protocolVer
    testPort := port }

theorem SetupPDU.answer_of_ne {code : UInt8} (h : code ≠ setupRespBadVersion) (req : SetupPDU)
    (port : UInt16) : req.answer code port =
      { req with cmdRequest := cmdSetupResponse, cmdResponse := code, testPort := port } := by
  rw [SetupPDU.answer, if_neg h]

/-- What `sealSetupResponse` returns if it reads the clock as `now`. -/
def responseBytes (hmac : HMAC) (resp req : SetupPDU) (cred : Credentials) (now : Time) : Bytes :=
  match cred.keys, cred.legacyKey with
  | some keys, legacyKey =>
      if protocolVer ≤ req.protocolVer then
        signed hmac keys.server.toList
          ({ resp with auth := { resp.auth with authUnixTime := UInt32.ofInt (Time.unix now) } } :
            SetupPDU).layout setupAuthDigestOff
      else match legacyKey with
        | some key => signed hmac key resp.layout setupAuthDigestOff
        | none => resp.layout
  | none, some key => signed hmac key resp.layout setupAuthDigestOff
  | none, none => resp.layout

/-- `pdu` is the response `resp`, sealed under the credentials. -/
def Seals (hmac : HMAC) (resp req : SetupPDU) (cred : Credentials) (pdu : Bytes) : Prop :=
  ∃ now, pdu = responseBytes hmac resp req cred now

/-- Sealing changes the trailer alone. -/
theorem Seals.layout {hmac : HMAC} {resp req : SetupPDU} {cred : Credentials} {pdu : Bytes}
    (h : Seals hmac resp req cred pdu) :
    ∃ auth, pdu = { resp with auth := auth }.layout ∨
      ∃ key, pdu = signed hmac key { resp with auth := auth }.layout setupAuthDigestOff := by
  obtain ⟨now, rfl⟩ := h
  unfold responseBytes
  split
  · split
    · exact ⟨_, .inr ⟨_, rfl⟩⟩
    · split
      · exact ⟨resp.auth, .inr ⟨_, rfl⟩⟩
      · exact ⟨resp.auth, .inl rfl⟩
  · exact ⟨resp.auth, .inr ⟨_, rfl⟩⟩
  · exact ⟨resp.auth, .inl rfl⟩

/-- `pdu` is the Null Request, sealed under the credentials. -/
def SealsNull (hmac : HMAC) (req : SetupPDU) (cred : Credentials) (pdu : Bytes) : Prop :=
  ∃ now, sealNullRequest hmac (nullRequest req now) cred = .ok pdu

/-! ## The protocol -/

namespace Config

/-- The test ports are taken from a range. -/
abbrev HasRange (cfg : Config) : Prop :=
  0 < cfg.testPortMin ∧ cfg.testPortMin ≤ cfg.testPortMax

/-- `span`. -/
def portSpan (cfg : Config) : Nat := (cfg.testPortMax - cfg.testPortMin + 1).toNat

/-- The port of iteration `j`. -/
def portAt (cfg : Config) (start : Int) (j : Nat) : Int :=
  cfg.testPortMin + (start - cfg.testPortMin + j).tmod (cfg.testPortMax - cfg.testPortMin + 1)

end Config

/-- What a request has done and taken so far. -/
structure Course where
  clocks : List Time := []
  reserved : Int := 0
  slot : Bool := false
  /-- the `nextPort` it has read -/
  start : Option Int := none
  tried : Nat := 0
  /-- the port it has asked for, and the local port of the socket -/
  bound : Option (Int × UInt16) := none
  portMoved : Bool := false
  null : Option Bytes := none
  /-- the code it has counted -/
  counted : Option UInt8 := none
  answer : Option Bytes := none
  registered : Bool := false
  /-- the port of the session it has started -/
  session : Option UInt16 := none

namespace Course

/-- The answer is still open. -/
structure Deciding (st : Course) : Prop where
  counted : st.counted = none
  answer : st.answer = none
  registered : st.registered = false
  session : st.session = none

theorem Deciding.of_same {st st' : Course} (h : st.Deciding) (hc : st'.counted = st.counted)
    (ha : st'.answer = st.answer) (hr : st'.registered = st.registered)
    (hs : st'.session = st.session) : st'.Deciding :=
  ⟨hc.trans h.counted, ha.trans h.answer, hr.trans h.registered, hs.trans h.session⟩

/-- Nothing is held: the server is as it would be without the request. -/
structure Empty (st : Course) : Prop where
  reserved : st.reserved = 0
  slot : st.slot = false
  portMoved : st.portMoved = false
  bound : st.bound = none
  null : st.null = none

/-- No port has been looked for. -/
structure Unsought (st : Course) : Prop where
  start : st.start = none
  tried : st.tried = 0
  bound : st.bound = none
  null : st.null = none

/-- The port the search of `newSessionSocket` comes to next. -/
def Seeks (cfg : Config) (st : Course) (port : Int) : Prop :=
  if cfg.HasRange then
    ∃ start, st.start = some start ∧ st.tried < cfg.portSpan ∧ port = cfg.portAt start st.tried
  else port = 0

/-- The search has come to its end without a socket. -/
def Exhausted (cfg : Config) (st : Course) : Prop :=
  st.bound = none ∧ (cfg.HasRange → st.start.isSome = true ∧ st.tried = cfg.portSpan)

/-- What the answer may say: an acceptance names the port of the socket, after
a Null Request in version 20; a refusal leaves the port alone. -/
structure MaySay (req : SetupPDU) (st : Course) (code : UInt8) (port : UInt16) : Prop where
  accepts : code = setupRespACKOK →
    st.bound.map Prod.snd = some port ∧ (st.null.isSome = true ↔ protocolVer ≤ req.protocolVer)
  refuses : code ≠ setupRespACKOK → port = req.testPort ∧ st.null = none

theorem MaySay.accept {req : SetupPDU} {st : Course} {p : Int} {port : UInt16}
    (hbound : st.bound = some (p, port))
    (hnull : st.null.isSome = true ↔ protocolVer ≤ req.protocolVer) :
    st.MaySay req setupRespACKOK port :=
  ⟨fun _ => ⟨by rw [hbound]; rfl, hnull⟩, fun h => absurd rfl h⟩

/-- The session is the one the request is entitled to, and everything sent
for it was sealed under its own keys. -/
def MayStart (hmac : HMAC) (cfg : Config) (req : SetupPDU) (raw : Bytes) (peer : AddrPort)
    (st : Course) (sess : Session) : Prop :=
  protocolMin ≤ req.protocolVer ∧ req.protocolVer ≤ protocolVer ∧
    ∃ cred port pdu,
      sess = newSession req cred peer port req.wantsUpstream st.reserved ∧
      st.reserved = req.charge cfg ∧
      (Anonymous cfg req cred ∨ Authentic hmac cfg req raw st.clocks cred) ∧
      st.answer = some pdu ∧ Seals hmac (req.answer setupRespACKOK port) req cred pdu ∧
      st.MaySay req setupRespACKOK port ∧ ∀ b, st.null = some b → SealsNull hmac req cred b

def Allowed (hmac : HMAC) (cfg : Config) (req : SetupPDU) (raw : Bytes) (peer : AddrPort)
    (st : Course) : SetupOp → Prop
  | .now => st.session = none
  | .reserveBandwidth upstream mbw =>
      st.Deciding ∧ st.reserved = 0 ∧ 0 < cfg.maxBandwidthMbps ∧ upstream = req.wantsUpstream ∧
        0 < mbw
  | .releaseBandwidth upstream mbw =>
      st.Deciding ∧ upstream = req.wantsUpstream ∧ mbw = st.reserved
  | .countSession => st.Deciding ∧ st.slot = false ∧ st.Unsought
  | .readNextPort => st.Deciding ∧ st.Unsought
  | .listenUDP port => st.Deciding ∧ st.bound = none ∧ st.null = none ∧ st.Seeks cfg port
  | .advanceNextPort port => st.Deciding ∧ st.slot = true ∧ ∃ c, st.bound = some (port, c)
  | .sessionDone => st.Deciding ∧ st.slot = true ∧ st.portMoved = false ∧ st.Exhausted cfg
  | .countResponse code =>
      st.Deciding ∧ if code = setupRespACKOK then st.slot = true else st.Empty
  | .sendResponse pdu dst => dst = peer ∧ st.answer = none ∧ st.registered = false ∧
      st.session = none ∧ ∃ code port cred, st.counted = some code ∧
        Seals hmac (req.answer code port) req cred pdu ∧ st.MaySay req code port
  | .sendNull _ dst => st.Deciding ∧ dst = peer ∧ st.null = none
  | .wgAdd => st.counted = some setupRespACKOK ∧ st.answer.isSome = true ∧
      st.registered = false ∧ st.session = none
  | .start sess => st.registered = true ∧ st.session = none ∧ st.slot = true ∧
      st.MayStart hmac cfg req raw peer sess

def next (st : Course) : (o : SetupOp) → o.Res → Course
  | .now, now => { st with clocks := st.clocks ++ [now] }
  | .reserveBandwidth _ mbw, granted => if granted then { st with reserved := mbw } else st
  | .releaseBandwidth _ _, _ => { st with reserved := 0 }
  | .countSession, err => if err.isNone then { st with slot := true } else st
  | .readNextPort, start => { st with start := some start }
  | .listenUDP port, r => { st with tried := st.tried + 1, bound := r.map fun c => (port, c) }
  | .advanceNextPort _, _ => { st with portMoved := true }
  | .sessionDone, _ => { st with slot := false }
  | .countResponse code, _ => { st with counted := some code }
  | .sendResponse pdu _, _ => { st with answer := some pdu }
  | .sendNull pdu _, _ => { st with null := some pdu }
  | .wgAdd, _ => { st with registered := true }
  -- the session takes over what was held
  | .start sess, _ => { st with session := some sess.port, reserved := 0, slot := false }

/-- How a handled request ends: with an answer, refused with nothing in hand,
or as a running session on the port the answer names. -/
def Done (hmac : HMAC) (req : SetupPDU) (st : Course) : Prop :=
  ∃ code port cred pdu, st.counted = some code ∧ st.answer = some pdu ∧
    Seals hmac (req.answer code port) req cred pdu ∧ st.MaySay req code port ∧
    if code = setupRespACKOK then
      st.session = some port ∧ st.reserved = 0 ∧ st.slot = false
    else st.session = none ∧ st.registered = false ∧ st.Empty

end Course

def setupCourse (hmac : HMAC) (cfg : Config) (req : SetupPDU) (raw : Bytes) (peer : AddrPort) :
    Protocol setupSig Course where
  Allowed := Course.Allowed hmac cfg req raw peer
  next := Course.next

/-! ## The handler follows it -/

theorem modeVerdict_ne_ack {cfg : Config} {req : SetupPDU} {code : UInt8}
    (h : modeVerdict cfg req = some code) :
    code ≠ setupRespACKOK ∧ code ≠ setupRespBadVersion := by
  unfold modeVerdict at h
  split_ifs at h <;> · cases h; decide

theorem screenRequest_ne_ack {cfg : Config} {req : SetupPDU} {code : UInt8}
    (h : screenRequest cfg req = some code) : code ≠ setupRespACKOK := by
  unfold screenRequest at h
  split_ifs at h <;> · cases h; decide

section Handler

variable {hmac : HMAC} {cfg : Config} {req : SetupPDU} {raw : Bytes} {peer : AddrPort}
variable {st : Course}

/-- A mode the switch lets through is the one the early block has dealt
with: control mode on a server with keys, no authentication on one without. -/
theorem modeVerdict_eq_none :
    modeVerdict cfg req = none ↔
      (req.auth.authMode = authModeControl ∧ cfg.keys ≠ []) ∨
        (req.auth.authMode = authModeNone ∧ cfg.keys = []) := by
  have hmode : authModeControl < req.auth.authMode ↔
      req.auth.authMode ≠ authModeControl ∧ req.auth.authMode ≠ authModeNone := by
    rw [UInt8.lt_iff_toNat_lt, ne_eq, ne_eq, ← UInt8.toNat_inj, ← UInt8.toNat_inj]
    show 1 < _ ↔ ¬ _ = 1 ∧ ¬ _ = 0
    omega
  have hne : authModeControl ≠ authModeNone := by decide
  simp only [modeVerdict, hmode]
  by_cases hctl : req.auth.authMode = authModeControl
  · by_cases hkeys : cfg.keys = [] <;> simp [hctl, hkeys, hne]
  · by_cases hnone : req.auth.authMode = authModeNone
    · by_cases hkeys : cfg.keys = [] <;> simp [hnone, hkeys, hne.symm]
    · simp [hctl, hnone]

theorem screenRequest_version (h : screenRequest cfg req = none) :
    protocolMin ≤ req.protocolVer ∧ req.protocolVer ≤ protocolVer := by
  unfold screenRequest at h
  split_ifs at h with hver
  exact ⟨UInt16.not_lt.mp (not_or.mp hver).1, UInt16.not_lt.mp (not_or.mp hver).2⟩

theorem mbw_nonneg (req : SetupPDU) : 0 ≤ req.mbw := Int.natCast_nonneg _

/-- The early block: it refuses, or leaves credentials that are good for
every mode the later switch lets through. -/
theorem authenticate_conforms (hraw : raw.length = setupSize) (hst : st.session = none)
    (hclocks : st.clocks = []) :
    Conforms (setupCourse hmac cfg req raw peer) st (authenticate hmac cfg req raw)
      fun r st' => (∃ more, st' = { st with clocks := st.clocks ++ more }) ∧ match r.1 with
        | some code => code ≠ setupRespACKOK ∧ code ≠ setupRespBadVersion
        | none => modeVerdict cfg req = none →
            Anonymous cfg req r.2 ∨ Authentic hmac cfg req raw st'.clocks r.2 := by
  have hfail : setupRespAuthFail ≠ setupRespACKOK ∧ setupRespAuthFail ≠ setupRespBadVersion := by
    decide
  have htime : setupRespAuthTime ≠ setupRespACKOK ∧ setupRespAuthTime ≠ setupRespBadVersion := by
    decide
  have hsame : ∃ more, st = { st with clocks := st.clocks ++ more } := ⟨[], by rw [List.append_nil]⟩
  unfold authenticate
  by_cases hctl : req.auth.authMode = authModeControl ∧ cfg.keys ≠ []
  · rw [if_pos hctl]
    cases hkey : cfg.keys.lookup req.auth.keyID with
    | none => exact Conforms.ret ⟨hsame, hfail⟩
    | some secret =>
        have hoff : setupAuthDigestOff + 32 ≤ raw.length := by
          rw [hraw]
          decide
        simp only [verifyDigest_ok hoff, Prog.lift_ok, Prog.ret_bind]
        by_cases hdig : hmac (requestKey hmac req secret) (masked raw setupAuthDigestOff)
            = req.auth.authDigest
        · simp only [hdig, decide_true, Bool.not_true, Bool.false_eq_true, if_false]
          refine Conforms.perform_bind hst fun now => ?_
          by_cases hskew : now - req.auth.authUnixTime.toNat * second < -authTimeWindow * second ∨
              authTimeWindow * second < now - req.auth.authUnixTime.toNat * second
          · simp only [if_pos hskew]
            exact Conforms.ret ⟨⟨[now], rfl⟩, htime⟩
          · simp only [if_neg hskew]
            obtain ⟨hlow, hhigh⟩ := not_or.mp hskew
            refine Conforms.ret ⟨⟨[now], rfl⟩, fun _ => .inr ⟨hctl.1, ?_, now, ?_, ?_⟩⟩
            · exact ⟨secret, hkey, hdig, rfl⟩
            · show (st.clocks ++ [now]).head? = some now
              rw [hclocks]
              rfl
            · exact ⟨not_lt.mp hlow, not_lt.mp hhigh⟩
        · simp only [hdig, decide_false, Bool.not_false, if_true]
          exact Conforms.ret ⟨hsame, hfail⟩
  · rw [if_neg hctl]
    refine Conforms.ret ⟨hsame, fun hmode => .inl ?_⟩
    obtain ⟨hm, hk⟩ := (modeVerdict_eq_none.mp hmode).resolve_left hctl
    exact ⟨hk, hm, rfl⟩

theorem signPDU_setup (r : SetupPDU) (key : Bytes) :
    signPDU hmac key r.layout setupAuthDigestOff
      = .ok (signed hmac key r.layout setupAuthDigestOff) :=
  signPDU_ok (by simp [setupAuthDigestOff])

/-- Sealing an answer reads the clock at most. -/
theorem sealSetupResponse_conforms (resp : SetupPDU) (cred : Credentials) (hst : st.session = none) :
    Conforms (setupCourse hmac cfg req raw peer) st (sealSetupResponse hmac resp req cred)
      fun pdu st' => Seals hmac resp req cred pdu ∧
        ∃ more, st' = { st with clocks := st.clocks ++ more } := by
  have hsame : ∃ more, st = { st with clocks := st.clocks ++ more } := ⟨[], by rw [List.append_nil]⟩
  unfold sealSetupResponse Seals responseBytes
  rw [setupPDU_marshal_eq, Prog.lift_ok, Prog.ret_bind]
  obtain ⟨keys, legacyKey⟩ := cred
  cases keys with
  | some keys =>
      by_cases hver : protocolVer ≤ req.protocolVer
      · -- version 20: the answer is stamped again before it is signed
        simp only [if_pos hver]
        refine Conforms.perform_bind hst fun now => ?_
        rw [setupPDU_marshal_eq, Prog.lift_ok, Prog.ret_bind, signPDU_setup, Prog.lift_ok]
        exact Conforms.ret ⟨⟨now, rfl⟩, [now], rfl⟩
      · simp only [if_neg hver]
        cases legacyKey with
        | some key =>
            simp only [signPDU_setup, Prog.lift_ok]
            exact Conforms.ret ⟨⟨0, rfl⟩, hsame⟩
        | none => exact Conforms.ret ⟨⟨0, rfl⟩, hsame⟩
  | none =>
      cases legacyKey with
      | some key =>
          simp only [signPDU_setup, Prog.lift_ok]
          exact Conforms.ret ⟨⟨0, rfl⟩, hsame⟩
      | none => exact Conforms.ret ⟨⟨0, rfl⟩, hsame⟩

/-- An answer is counted once and sent once. -/
theorem sendSetupResponse_conforms {resp : SetupPDU} {cred : Credentials} {code : UInt8}
    {port : UInt16} (hresp : resp = req.answer code port) (hst : st.Deciding)
    (hcode : if code = setupRespACKOK then st.slot = true else st.Empty)
    (hsay : st.MaySay req code port) :
    Conforms (setupCourse hmac cfg req raw peer) st
      (sendSetupResponse hmac resp req cred peer)
      fun _ st' => ∃ more pdu, Seals hmac (req.answer code port) req cred pdu ∧
        st' = { st with
          clocks := st.clocks ++ more, counted := some code, answer := some pdu } := by
  subst hresp
  refine Conforms.perform_bind ⟨hst, hcode⟩ fun _ => ?_
  refine Conforms.bind (sealSetupResponse_conforms _ cred hst.session) ?_
  rintro pdu _ ⟨hpdu, more, rfl⟩
  exact Conforms.perform ⟨rfl, hst.answer, hst.registered, hst.session, code, port, cred, rfl, hpdu,
    hsay.accepts, hsay.refuses⟩ fun _ => ⟨more, pdu, hpdu, rfl⟩

/-- A refusal with nothing in hand ends the request. -/
theorem reject_conforms {resp : SetupPDU} {cred : Credentials} {code : UInt8}
    (hcode : code ≠ setupRespACKOK)
    (hresp : { resp with cmdResponse := code } = req.answer code req.testPort)
    (hst : st.Deciding) (hempty : st.Empty) :
    Conforms (setupCourse hmac cfg req raw peer) st (reject hmac resp req cred peer code)
      fun _ st' => st'.Done hmac req := by
  have hsay : st.MaySay req code req.testPort :=
    ⟨fun h => absurd h hcode, fun _ => ⟨rfl, hempty.null⟩⟩
  refine (sendSetupResponse_conforms hresp hst ?_ hsay).mono ?_
  · rw [if_neg hcode]
    exact hempty
  · rintro _ _ ⟨more, pdu, hpdu, rfl⟩
    refine ⟨code, req.testPort, cred, pdu, rfl, rfl, hpdu, ⟨hsay.accepts, hsay.refuses⟩, ?_⟩
    rw [if_neg hcode]
    exact ⟨hst.session, hst.registered, hempty.reserved, hempty.slot, hempty.portMoved,
      hempty.bound, hempty.null⟩

/-- Binding tries the ports in order, gives the slot back when all fail, and
moves `nextPort` when one succeeds. -/
theorem tryPorts_conforms {start i : Int} {n : Nat} (hrange : cfg.HasRange) (hst : st.Deciding)
    (hslot : st.slot = true) (hmoved : st.portMoved = false) (hstart : st.start = some start)
    (hbound : st.bound = none) (hnull : st.null = none) (hi : i = st.tried)
    (hn : st.tried + n = cfg.portSpan) :
    Conforms (setupCourse hmac cfg req raw peer) st
      (tryPorts cfg start (cfg.testPortMax - cfg.testPortMin + 1) n i)
      fun r st' => ∃ tried, match r with
        | .ok c => ∃ port, st' =
            { st with tried := tried, bound := some (port, c), portMoved := true }
        | .error _ => st' = { st with tried := tried, slot := false } := by
  induction n generalizing st i with
  | zero =>
      have hend : st.Exhausted cfg := ⟨hbound, fun _ => ⟨by rw [hstart]; rfl, hn⟩⟩
      exact Conforms.perform_bind ⟨hst, hslot, hmoved, hend⟩ fun _ => Conforms.ret ⟨st.tried, rfl⟩
  | succ n ih =>
      subst hi
      have hseeks : st.Seeks cfg (cfg.portAt start st.tried) := by
        rw [Course.Seeks, if_pos hrange]
        exact ⟨start, hstart, by omega, rfl⟩
      refine Conforms.perform_bind ⟨hst, hbound, hnull, hseeks⟩ fun r => ?_
      cases r with
      | some c =>
          exact Conforms.perform_bind ⟨hst.of_same rfl rfl rfl rfl, hslot, c, rfl⟩ fun _ =>
            Conforms.ret ⟨st.tried + 1, _, rfl⟩
      | none =>
          have hn' : st.tried + 1 + n = cfg.portSpan := (Nat.add_right_comm _ _ _).trans hn
          refine Conforms.mono (ih (hst.of_same rfl rfl rfl rfl) hslot hmoved hstart rfl hnull
            (Nat.cast_succ st.tried).symm hn') ?_
          rintro (err | c) st' ⟨tried, h⟩
          · refine ⟨tried, h.trans ?_⟩
            show { st with tried := tried, bound := none, slot := false } = _
            rw [← hbound]
          · exact ⟨tried, h⟩

/-- `newSessionSocket` keeps the slot exactly when it succeeds. -/
theorem newSessionSocket_conforms (hst : st.Deciding) (hslot : st.slot = false)
    (hmoved : st.portMoved = false) (hun : st.Unsought) :
    Conforms (setupCourse hmac cfg req raw peer) st (newSessionSocket cfg)
      fun r st' => ∃ start tried, match r with
        | .ok c => ∃ port moved, st' = { st with
            slot := true, start := start, tried := tried, bound := some (port, c),
            portMoved := moved }
        | .error _ => st' = { st with start := start, tried := tried } := by
  refine Conforms.perform_bind ⟨hst, hslot, hun⟩ fun r => ?_
  cases r with
  | some err => exact Conforms.ret ⟨st.start, st.tried, rfl⟩
  | none =>
      have hcounted : Course.Deciding { st with slot := true } := hst.of_same rfl rfl rfl rfl
      by_cases hrange : cfg.HasRange
      · simp only [if_pos hrange]
        refine Conforms.perform_bind ⟨hcounted, hun.start, hun.tried, hun.bound, hun.null⟩
          fun start => ?_
        have hzero : (0 : Int) = st.tried := (congrArg Nat.cast hun.tried).symm
        have hspan : st.tried + cfg.portSpan = cfg.portSpan := by rw [hun.tried, Nat.zero_add]
        refine Conforms.mono (tryPorts_conforms hrange (hst.of_same rfl rfl rfl rfl) rfl hmoved rfl
          hun.bound hun.null hzero hspan) ?_
        rintro (err | c) st' ⟨tried, h⟩
        · refine ⟨some start, tried, h.trans ?_⟩
          show { st with start := some start, tried := tried, slot := false } = _
          rw [← hslot]
        · obtain ⟨port, h⟩ := h
          exact ⟨some start, tried, port, true, h⟩
      · simp only [if_neg hrange]
        have hseeks : Course.Seeks cfg { st with slot := true } 0 := by
          rw [Course.Seeks, if_neg hrange]
        refine Conforms.perform_bind ⟨hcounted, hun.bound, hun.null, hseeks⟩ fun r => ?_
        cases r with
        | some c => exact Conforms.ret ⟨st.start, st.tried + 1, 0, st.portMoved, rfl⟩
        | none =>
            refine Conforms.perform_bind
              ⟨hst.of_same rfl rfl rfl rfl, rfl, hmoved, rfl, fun h => absurd h hrange⟩ fun _ => ?_
            refine Conforms.ret ⟨st.start, st.tried + 1, ?_⟩
            show { st with tried := st.tried + 1, bound := none, slot := false } = _
            rw [← hslot, ← hun.bound]

theorem releaseOnErr_conforms (hst : st.Deciding) (hres : 0 ≤ st.reserved) :
    Conforms (setupCourse hmac cfg req raw peer) st
      (releaseOnErr req.wantsUpstream st.reserved)
      fun _ st' => st' = { st with reserved := 0 } := by
  unfold releaseOnErr
  by_cases h : 0 < st.reserved
  · rw [if_pos h]
    exact Conforms.perform ⟨hst, rfl, rfl⟩ fun _ => rfl
  · rw [if_neg h]
    have hzero : st.reserved = 0 := by omega
    exact Conforms.ret (by rw [← hzero])

theorem sealNullRequest_total (null : NullPDU) (cred : Credentials) :
    ∃ pdu, sealNullRequest hmac null cred = .ok pdu := by
  obtain ⟨pdu, hpdu, hlen⟩ := nullPDU_marshal_ok null
  have hoff : nullAuthDigestOff + 32 ≤ pdu.length := by
    rw [hlen]
    decide
  rw [sealNullRequest, hpdu, ok_bind]
  cases cred.keys with
  | some keys => exact ⟨_, signPDU_ok hoff⟩
  | none => exact ⟨pdu, rfl⟩

/-- The Null Request is sent in version 20 only. -/
theorem sendNullRequest_conforms (cred : Credentials) (hst : st.Deciding) (hnull : st.null = none) :
    Conforms (setupCourse hmac cfg req raw peer) st (sendNullRequest hmac req cred peer)
      fun _ st' => ∃ more null, st' = { st with clocks := st.clocks ++ more, null := null } ∧
        (null.isSome = true ↔ protocolVer ≤ req.protocolVer) ∧
        ∀ pdu, null = some pdu → SealsNull hmac req cred pdu := by
  unfold sendNullRequest
  by_cases hver : protocolVer ≤ req.protocolVer
  · rw [if_pos hver]
    refine Conforms.perform_bind hst.session fun now => ?_
    obtain ⟨pdu, hpdu⟩ : ∃ pdu, sealNullRequest hmac (nullRequest req now) cred = .ok pdu :=
      sealNullRequest_total _ _
    rw [hpdu, Prog.lift_ok, Prog.ret_bind]
    refine Conforms.perform ⟨hst.of_same rfl rfl rfl rfl, rfl, hnull⟩ fun _ => ?_
    refine ⟨[now], some pdu, rfl, ⟨fun _ => hver, fun _ => rfl⟩, ?_⟩
    rintro _ ⟨⟩
    exact ⟨now, hpdu⟩
  · rw [if_neg hver]
    refine Conforms.ret ⟨[], none, ?_, ⟨fun h => ?_, fun h => absurd h hver⟩, fun _ h => ?_⟩
    · rw [List.append_nil, ← hnull]
    · cases h
    · cases h

/-- From the authentication mode switch on: whatever was reserved is given
back or passed on. -/
theorem admitSession_conforms {cred : Credentials} (hst : st.Deciding)
    (hslot : st.slot = false) (hmoved : st.portMoved = false) (hun : st.Unsought)
    (hres : 0 ≤ st.reserved) (hcharge : st.reserved = req.charge cfg)
    (hscreen : screenRequest cfg req = none)
    (hauth : modeVerdict cfg req = none →
      Anonymous cfg req cred ∨ Authentic hmac cfg req raw st.clocks cred) :
    Conforms (setupCourse hmac cfg req raw peer) st
      (admitSession hmac cfg { req with cmdRequest := cmdSetupResponse } req cred peer
        req.wantsUpstream st.reserved)
      fun _ st' => st'.Done hmac req := by
  obtain ⟨hmin, hmax⟩ := screenRequest_version hscreen
  -- wherever the search for a port has come to
  have hrefuse : ∀ code start tried, code ≠ setupRespACKOK → code ≠ setupRespBadVersion →
      Conforms (setupCourse hmac cfg req raw peer) { st with start := start, tried := tried }
        (do releaseOnErr req.wantsUpstream st.reserved
            reject hmac { req with cmdRequest := cmdSetupResponse } req cred peer code)
        fun _ st' => st'.Done hmac req := by
    intro code start tried hcode hbad
    refine Conforms.bind (releaseOnErr_conforms (hst.of_same rfl rfl rfl rfl) hres) ?_
    rintro _ _ rfl
    exact reject_conforms hcode (SetupPDU.answer_of_ne hbad _ _).symm
      (hst.of_same rfl rfl rfl rfl) ⟨rfl, hslot, hmoved, hun.bound, hun.null⟩
  unfold admitSession
  cases hmode : modeVerdict cfg req with
  | some code =>
      obtain ⟨hcode, hbad⟩ := modeVerdict_ne_ack hmode
      exact hrefuse code st.start st.tried hcode hbad
  | none =>
      refine Conforms.bind (newSessionSocket_conforms hst hslot hmoved hun) ?_
      rintro (err | port) st' ⟨start, tried, h⟩
      · rw [show st' = _ from h]
        exact hrefuse _ start tried (by decide) (by decide)
      · obtain ⟨p, moved, rfl⟩ := h
        refine Conforms.bind (sendNullRequest_conforms cred (hst.of_same rfl rfl rfl rfl) hun.null) ?_
        rintro _ _ ⟨more, null, rfl, hver, hnull⟩
        have hbad : setupRespACKOK ≠ setupRespBadVersion := by decide
        have hresp := (SetupPDU.answer_of_ne hbad req port).symm
        refine Conforms.bind (sendSetupResponse_conforms hresp (hst.of_same rfl rfl rfl rfl)
          ((if_pos rfl).mpr rfl) (.accept rfl hver)) ?_
        rintro _ _ ⟨more', pdu, hpdu, rfl⟩
        refine Conforms.perform_bind ⟨rfl, rfl, hst.registered, hst.session⟩ fun _ => ?_
        refine Conforms.perform ⟨rfl, hst.session, rfl, hmin, hmax, cred, port, pdu, rfl, hcharge,
          ?_, rfl, hpdu, .accept rfl hver, hnull⟩ fun _ => ?_
        · refine (hauth hmode).imp_right fun h => ?_
          have hlater := h.later (more ++ more')
          rwa [← List.append_assoc] at hlater
        · exact ⟨setupRespACKOK, port, cred, pdu, rfl, rfl, hpdu, .accept rfl hver,
            (if_pos rfl).mpr ⟨rfl, rfl, rfl⟩⟩

/-- The admission step: a reservation is made only with admission control
on, and for a positive amount. -/
theorem reserveAndAdmit_conforms {cred : Credentials} (hst : st.Deciding) (hempty : st.Empty)
    (hun : st.Unsought) (hscreen : screenRequest cfg req = none)
    (hauth : modeVerdict cfg req = none →
      Anonymous cfg req cred ∨ Authentic hmac cfg req raw st.clocks cred) :
    Conforms (setupCourse hmac cfg req raw peer) st
      (reserveAndAdmit hmac cfg { req with cmdRequest := cmdSetupResponse } req cred peer)
      fun _ st' => st'.Done hmac req := by
  have hrefuse : ∀ code, code ≠ setupRespACKOK → code ≠ setupRespBadVersion →
      Conforms (setupCourse hmac cfg req raw peer) st
        (reject hmac { req with cmdRequest := cmdSetupResponse } req cred peer code)
        fun _ st' => st'.Done hmac req := by
    intro code hcode hbad
    exact reject_conforms hcode (SetupPDU.answer_of_ne hbad _ _).symm hst hempty
  unfold reserveAndAdmit
  by_cases hadm : 0 < cfg.maxBandwidthMbps
  · simp only [if_pos hadm]
    by_cases hmbw : req.mbw = 0
    · rw [if_pos hmbw]
      exact hrefuse _ (by decide) (by decide)
    · rw [if_neg hmbw]
      have hpos : 0 < req.mbw := lt_of_le_of_ne (mbw_nonneg req) (Ne.symm hmbw)
      refine Conforms.perform_bind ⟨hst, hempty.reserved, hadm, rfl, hpos⟩ fun r => ?_
      cases r with
      | true =>
          have hheld : Course.Deciding { st with reserved := req.mbw } :=
            hst.of_same rfl rfl rfl rfl
          exact admitSession_conforms hheld hempty.slot hempty.portMoved
            ⟨hun.start, hun.tried, hun.bound, hun.null⟩ (mbw_nonneg req) (if_pos hadm).symm hscreen
            hauth
      | false => exact hrefuse _ (by decide) (by decide)
  · have hcharge : st.reserved = req.charge cfg := hempty.reserved.trans (if_neg hadm).symm
    rw [if_neg hadm, ← hempty.reserved]
    exact admitSession_conforms hst hempty.slot hempty.portMoved hun hempty.reserved.ge hcharge
      hscreen hauth

/-- **The course of a setup request**: `handleSetup` never panics, gives back
or passes on everything it takes, answers exactly once, and starts a session
only for a request that is entitled to one. -/
theorem handleSetup_course (hraw : raw.length = setupSize) :
    Conforms (setupCourse hmac cfg req raw peer) {} (handleSetup hmac cfg req raw peer)
      fun _ st' => st'.Done hmac req := by
  unfold handleSetup
  refine Conforms.bind (authenticate_conforms hraw rfl rfl) ?_
  rintro ⟨verdict, cred⟩ _ ⟨⟨clocks, rfl⟩, hauth⟩
  have hst : Course.Deciding { clocks := [] ++ clocks } := ⟨rfl, rfl, rfl, rfl⟩
  have hempty : Course.Empty { clocks := [] ++ clocks } := ⟨rfl, rfl, rfl, rfl, rfl⟩
  cases verdict with
  | some code => exact reject_conforms hauth.1 (SetupPDU.answer_of_ne hauth.2 _ _).symm hst hempty
  | none =>
      cases hscreen : screenRequest cfg req with
      | some code =>
          -- the answer to a wrong version carries the server's own
          refine reject_conforms (screenRequest_ne_ack hscreen) ?_ hst hempty
          by_cases hbad : code = setupRespBadVersion
          · simp only [SetupPDU.answer, if_pos hbad]
          · simp only [SetupPDU.answer, if_neg hbad]
      | none => exact reserveAndAdmit_conforms hst hempty ⟨rfl, rfl, rfl, rfl⟩ hscreen hauth

end Handler

end Diagd.Udpst
