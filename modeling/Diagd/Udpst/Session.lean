import Diagd.Lib.GoStd
import Diagd.Udpst.Auth
import Diagd.Udpst.Algo

/-!
# Sessions up to activation (`session.go`, `Config` and `NewServer` of `server.go`)

A session waits on its own socket for a Test Activation Request, polices
the requested parameters and answers with the corrected ones. Everything
the code takes from outside is explicit: a datagram arrives as an `Rx`
that carries its source, its bytes, the clock at the time of the answer and
whether the kernel refused the traffic class.
-/

namespace Diagd.Udpst

open GoSlice GoStd

/-! ## Server configuration -/

/-- `Config`, less the logger. `keys` is the map from key ID to secret. -/
structure Config where
  keys : List (UInt8 × Bytes) := []
  maxBandwidthMbps : Int := 0
  jumbo : Bool := false
  traditionalMTU : Bool := false
  maxTestSeconds : Int := 0
  maxSessions : Int := 0
  testPortMin : Int := 0
  testPortMax : Int := 0
  allow : Option (Addr → Bool) := none

/-- The immutable part of a `Server`: its table is the one of its own
configuration, and the session limit has been defaulted. -/
structure Server where
  cfg : Config
  table : RateTable
  table_eq : table = buildRateTable cfg.jumbo cfg.traditionalMTU
  maxSessions_ne : cfg.maxSessions ≠ 0

def newServer (cfg : Config) : Server where
  cfg := { cfg with maxSessions := if cfg.maxSessions = 0 then 256 else cfg.maxSessions }
  table := buildRateTable cfg.jumbo cfg.traditionalMTU
  table_eq := rfl
  maxSessions_ne := by
    show (if cfg.maxSessions = 0 then 256 else cfg.maxSessions) ≠ 0
    split
    · decide
    · assumption

theorem Server.rows_length (srv : Server) : srv.table.rows.length = maxSendingRates := by
  rw [srv.table_eq]
  exact buildRateTable_length _ _

theorem Server.highSpeedThresh_eq (srv : Server) : srv.table.highSpeedThresh = 1000 := by
  rw [srv.table_eq]
  exact buildRateTable_highSpeedThresh _ _

/-! ## Sessions -/

/-- The negotiated parameters; `{}` is the zero value. -/
structure TestParams where
  lowThresh : Int := 0
  upperThresh : Int := 0
  trialInt : Duration := 0
  duration : Duration := 0
  subInt : Duration := 0
  dscpEcn : UInt8 := 0
  srIndexConf : Int := 0
  indexIsStart : Bool := false
  useOwDelVar : Bool := false
  highSpeedDelta : Int := 0
  slowAdjThresh : Int := 0
  seqErrThresh : Int := 0
  ignoreOooDup : Bool := false
  randPayload : Bool := false
  algo : UInt8 := 0
  ecnCEThresh : Int := 0
  srAdjSupp : UInt16 := 0
  deriving DecidableEq, Repr

/-- One test connection. `port` is the local port of its socket; the last
four fields are unset until activation. -/
structure Session where
  port : UInt16
  setupPeer : AddrPort
  pver : UInt16
  authMode : UInt8
  keys : Option SessionKeys
  legacyKey : Option Bytes
  bwMbps : Int
  bwUpstream : Bool
  peer : Option AddrPort := none
  ipv6 : Bool := false
  downstream : Bool := false
  p : TestParams := {}
  deriving DecidableEq, Repr

/-! ## Policing -/

/-- The delay thresholds: each one is defaulted on its own, and both when
they are out of order. -/
def policeThresholds (req : TestActPDU) : Int × Int :=
  let lt : Int := req.lowThresh.toNat
  let ut : Int := req.upperThresh.toNat
  let lt := if lt < 1 ∨ 10000 < lt then 30 else lt
  let ut := if ut < 1 ∨ 10000 < ut then 90 else ut
  if ut < lt then (30, 90) else (lt, ut)

/-- Trial interval in milliseconds. -/
def policeTrialInt (req : TestActPDU) : Int :=
  let ti : Int := req.trialInt.toNat
  if ti < 5 ∨ 250 < ti then 50 else ti

/-- Test duration in seconds. -/
def policeDuration (cfg : Config) (req : TestActPDU) : Int :=
  let dur : Int := req.testIntTime.toNat
  let dur := if dur < 5 ∨ 3600 < dur then 10 else dur
  let maxDur := cfg.maxTestSeconds
  let maxDur := if maxDur ≤ 0 ∨ 3600 < maxDur then 3600 else maxDur
  if maxDur < dur then maxDur else dur

theorem policeDuration_range (cfg : Config) (req : TestActPDU) :
    1 ≤ policeDuration cfg req ∧ policeDuration cfg req ≤ 3600 ∧
      (0 < cfg.maxTestSeconds → policeDuration cfg req ≤ cfg.maxTestSeconds) := by
  simp only [policeDuration]
  split_ifs <;> omega

/-- Sub-interval in milliseconds, for a test of `dur` seconds. -/
def policeSubInt (pver : UInt16) (req : TestActPDU) (dur : Int) : Int :=
  let subMs : Int := if protocolVer ≤ pver then req.subIntPeriod.toNat
    else req.legacySubIntSec.toNat * 1000
  let subMs := if subMs < 100 ∨ 10000 < subMs then 1000 else subMs
  if dur * 1000 < subMs then dur * 1000 else subMs

def policeIndexConf (table : RateTable) (req : TestActPDU) : Int :=
  if req.srIndexConf ≠ srIndexAuto ∧ req.srIndexConf.toNat < table.rows.length then
    req.srIndexConf.toNat
  else -1

/-- CE thresholding needs ECT(0) or ECT(1) marking. -/
def policeCEThresh (req : TestActPDU) : Int :=
  let ecn := req.dscpEcn &&& 0x03
  if ecn ≠ 1 ∧ ecn ≠ 2 then 0 else req.ecnCEThresh.toNat

/-- The suppression count, kept only when it ends inside the test; `old` is
the value already in the session. -/
def policeAdjSupp (pver : UInt16) (req : TestActPDU) (dur subMs : Int) (old : UInt16) : UInt16 :=
  if protocolVer ≤ pver then
    let numSub := (dur * 1000).tdiv subMs
    if (req.srAdjSuppCount.toNat : Int) < numSub then req.srAdjSuppCount else old
  else old

/-- `s.police(req)`; `tcFails` is the outcome of `setTrafficClass`. -/
def Session.police (srv : Server) (s : Session) (req : TestActPDU) (tcFails : Bool) : Session :=
  let thresh := policeThresholds req
  let dur := policeDuration srv.cfg req
  let subMs := policeSubInt s.pver req dur
  { s with p := { s.p with
    lowThresh := thresh.1
    upperThresh := thresh.2
    trialInt := policeTrialInt req * millisecond
    duration := dur * second
    subInt := subMs * millisecond
    srIndexConf := policeIndexConf srv.table req
    indexIsStart := decide (req.modifiers &&& taModStartIndex ≠ 0)
    randPayload := decide (req.modifiers &&& taModRandomPayload ≠ 0)
    useOwDelVar := decide (req.useOwDelVar = 1)
    highSpeedDelta := if req.highSpeedDelta.toNat < 1 then 10 else req.highSpeedDelta.toNat
    slowAdjThresh := if req.slowAdjThresh.toNat < 1 then 3 else req.slowAdjThresh.toNat
    seqErrThresh := req.seqErrThresh.toNat
    ignoreOooDup := decide (req.ignoreOooDup ≠ 0)
    algo := if 1 < req.rateAdjAlgo then 0 else req.rateAdjAlgo
    ecnCEThresh := policeCEThresh req
    srAdjSupp := policeAdjSupp s.pver req dur subMs s.p.srAdjSupp
    dscpEcn := if req.dscpEcn ≠ 0 ∧ tcFails then 0 else req.dscpEcn } }

def Session.initialIndex (s : Session) : Int :=
  if 0 ≤ s.p.srIndexConf then s.p.srIndexConf else 0

def Session.newRateController (srv : Server) (s : Session) : RateController where
  table := srv.table
  algo := s.p.algo
  index := s.initialIndex
  srIndexConf := s.p.srIndexConf
  indexIsStart := s.p.indexIsStart
  highSpeedDelta := s.p.highSpeedDelta
  slowAdjThresh := s.p.slowAdjThresh
  seqErrThresh := s.p.seqErrThresh
  lowThresh := s.p.lowThresh
  upperThresh := s.p.upperThresh
  useOwDelVar := s.p.useOwDelVar
  ignoreOooDup := s.p.ignoreOooDup
  ecnCEThresh := s.p.ecnCEThresh
  srAdjSupp := s.p.srAdjSupp.toUInt32

/-! ## Awaiting activation -/

/-- One datagram read from the session socket. -/
structure Rx where
  peer : AddrPort
  data : Bytes
  now : Time := 0
  tcFails : Bool := false
  deriving DecidableEq, Repr

/-- `buf[:n]`: reads go into a buffer of 512 bytes. -/
def Rx.bytes (rx : Rx) : Bytes := rx.data.take 512

def boolByte (b : Bool) : UInt8 := if b then 1 else 0

/-- The response PDU: the request with the policed values written over it. -/
def Session.activationResponse (srv : Server) (s : Session) (req : TestActPDU) :
    Except Panic TestActPDU := do
  let resp := { req with
    cmdResponse := testActRespACKOK
    lowThresh := UInt16.ofInt s.p.lowThresh
    upperThresh := UInt16.ofInt s.p.upperThresh
    trialInt := UInt16.ofInt (s.p.trialInt.tdiv millisecond)
    testIntTime := UInt16.ofInt (s.p.duration.tdiv second)
    dscpEcn := s.p.dscpEcn
    srIndexConf := if s.p.srIndexConf < 0 then srIndexAuto else UInt16.ofInt s.p.srIndexConf
    useOwDelVar := boolByte s.p.useOwDelVar
    highSpeedDelta := UInt8.ofInt s.p.highSpeedDelta
    slowAdjThresh := UInt16.ofInt s.p.slowAdjThresh
    seqErrThresh := UInt16.ofInt s.p.seqErrThresh
    ignoreOooDup := boolByte s.p.ignoreOooDup
    rateAdjAlgo := s.p.algo
    ecnCEThresh := UInt8.ofInt s.p.ecnCEThresh
    srAdjSuppCount := s.p.srAdjSupp }
  let resp := if protocolVer ≤ s.pver then
      { resp with subIntPeriod := UInt16.ofInt (s.p.subInt.tdiv millisecond) }
    else { resp with legacySubIntSec := UInt8.ofInt (s.p.subInt.tdiv second) }
  if s.downstream then
    return { resp with sr := {} }
  -- upstream: the client transmits exactly the row we provide
  let row ← element srv.table.rows s.initialIndex
  return { resp with sr := row }

/-- Marshalling of the response, signed in a version 20 session with keys. -/
def Session.sealResponse (hmac : HMAC) (s : Session) (resp : TestActPDU) (now : Time) :
    Except Panic Bytes := do
  let pdu ← resp.marshal
  match s.keys with
  | some keys =>
      if protocolVer ≤ s.pver then
        let pdu ← { resp with
          auth := { resp.auth with authUnixTime := UInt32.ofInt (Time.unix now) } }.marshal
        signPDU hmac keys.server.toList pdu testActAuthDigestOff
      else return pdu
  | none => return pdu

/-- The digest check of an activation request, when the session makes one. -/
def Session.activationAuthentic (hmac : HMAC) (s : Session) (buf : Bytes) (req : TestActPDU) :
    Except Panic Bool :=
  match s.keys with
  | some keys =>
      if protocolVer ≤ s.pver ∧ s.authMode = authModeControl then
        verifyDigest hmac keys.client.toList buf testActAuthDigestOff req.auth.authDigest
      else .ok true
  | none => .ok true

/-- The session as an accepted request leaves it. -/
def Session.activate (srv : Server) (s : Session) (req : TestActPDU) (rx : Rx) : Session :=
  Session.police srv
    { s with
      peer := some rx.peer
      ipv6 := !rx.peer.addr.unmap.is4
      downstream := decide (req.cmdRequest = cmdTestActDownstream) }
    req rx.tcFails

/-- One turn of the receive loop: the session afterwards, and the response
when the datagram activated it (`none` is `continue`). -/
def activationStep (hmac : HMAC) (srv : Server) (s : Session) (rx : Rx) :
    Except Panic (Session × Option Bytes) := do
  if rx.peer.addr.unmap ≠ s.setupPeer.addr.unmap then
    return (s, none)
  match ← parseTestAct rx.bytes with
  | .error _ => return (s, none)
  | .ok req =>
      if req.cmdResponse ≠ testActRespNone then
        return (s, none)
      if !(← s.activationAuthentic hmac rx.bytes req) then
        return (s, none)
      let s := s.activate srv req rx
      let resp ← s.activationResponse srv req
      let pdu ← s.sealResponse hmac resp rx.now
      return (s, some pdu)

/-- `awaitActivation` over the datagrams that arrive before the deadline;
`none` is its result `false`. -/
def awaitActivation (hmac : HMAC) (srv : Server) (s : Session) :
    List Rx → Except Panic (Session × Option Bytes)
  | [] => .ok (s, none)
  | rx :: rest => do
      match ← activationStep hmac srv s rx with
      | (s, some pdu) => return (s, some pdu)
      | (s, none) => awaitActivation hmac srv s rest

end Diagd.Udpst
