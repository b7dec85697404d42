import Diagd.Udpst.Rates

/-!
# Wire format (`protocol.go`)

The five PDUs of the OB-UDPST control and test connections, with their
parsers and marshallers as the server computes them: every byte access is
checked, so a parser has THREE outcomes. `.error p` is a run-time panic,
`.ok (.error msg)` a refused datagram with the error text the source
returns, `.ok (.ok pdu)` a parsed PDU.
-/

namespace Diagd.Udpst

open GoSlice

/-! ## Constants -/

abbrev protocolVer : UInt16 := 20
abbrev protocolMin : UInt16 := 11

abbrev pduIDSetup : UInt16 := 0xACE1
abbrev pduIDTestAct : UInt16 := 0xACE2
abbrev pduIDNull : UInt16 := 0xDEAD
abbrev pduIDLoad : UInt16 := 0xBEEF
abbrev pduIDStatus : UInt16 := 0xFEED

abbrev setupSize : Nat := 56
abbrev nullSize : Nat := 48
abbrev testActSize : Nat := 104
abbrev testActMinSize : Nat := 60
abbrev statusSize : Nat := 204
abbrev statusLegacySize : Nat := 168

abbrev cmdSetupRequest : UInt8 := 1
abbrev cmdSetupResponse : UInt8 := 2
abbrev cmdTestActUpstream : UInt8 := 1
abbrev cmdTestActDownstream : UInt8 := 2

abbrev setupRespACKOK : UInt8 := 1
abbrev setupRespBadVersion : UInt8 := 2
abbrev setupRespBadJumbo : UInt8 := 3
abbrev setupRespAuthNC : UInt8 := 4
abbrev setupRespAuthReq : UInt8 := 5
abbrev setupRespAuthInv : UInt8 := 6
abbrev setupRespAuthFail : UInt8 := 7
abbrev setupRespAuthTime : UInt8 := 8
abbrev setupRespNoMaxBW : UInt8 := 9
abbrev setupRespCapExc : UInt8 := 10
abbrev setupRespBadTMTU : UInt8 := 11
abbrev setupRespMCInvPar : UInt8 := 12
abbrev setupRespConnFail : UInt8 := 13

abbrev testActRespNone : UInt8 := 0
abbrev testActRespACKOK : UInt8 := 1

abbrev testActionTest : UInt8 := 0
abbrev testActionStop2 : UInt8 := 2

abbrev modJumbo : UInt8 := 0x01
abbrev modTraditionalMTU : UInt8 := 0x02
abbrev bwUpstreamBit : UInt16 := 0x8000

abbrev taModStartIndex : UInt8 := 0x01
abbrev taModRandomPayload : UInt8 := 0x02

/-- Requests the rate search rather than a fixed index. -/
abbrev srIndexAuto : UInt16 := 0xFFFF

/-- Marks delay fields with no data. -/
abbrev statusNoDelay : UInt32 := 0xFFFFFFFF

/-- Byte offset of the HMAC digest in each authenticated PDU. -/
abbrev setupAuthDigestOff : Nat := 20
abbrev nullAuthDigestOff : Nat := 12
abbrev testActAuthDigestOff : Nat := 68

/-- Go's `%#x`. -/
def hexText (n : Nat) : String := "0x" ++ String.ofList (Nat.toDigits 16 n)

/-! ## The authentication trailer -/

/-- A `[32]byte` HMAC-SHA-256 digest. -/
abbrev Digest := Vector UInt8 32

/-- The zero value of `[32]byte`. -/
abbrev Digest.zero : Digest := Vector.replicate 32 0

/-- `copy(d[:], b)` into a zeroed `[32]byte`. -/
def Digest.ofBytes (b : Bytes) : Digest := Vector.ofFn fun i => b.getD i 0

/-- The trailer shared by authenticated control PDUs. -/
structure AuthTrailer where
  authMode : UInt8 := 0
  authUnixTime : UInt32 := 0
  authDigest : Digest := Digest.zero
  keyID : UInt8 := 0
  deriving DecidableEq, Repr

/-- `a.marshal(b)`, `b` positioned at the authMode byte. -/
def AuthTrailer.marshal (a : AuthTrailer) (b : Bytes) : Except Panic Bytes := do
  let b ← store b 0 a.authMode
  let b ← putU32 b 1 a.authUnixTime
  let b ← copyInto b 5 37 a.authDigest.toList
  let b ← store b 37 a.keyID
  store b 38 0

def AuthTrailer.parse (b : Bytes) : Except Panic AuthTrailer := do
  return {
    authMode := ← index b 0
    authUnixTime := ← getU32 b 1
    authDigest := Digest.ofBytes (← slice b 5 37)
    keyID := ← index b 37 }

/-! ## Setup Request and Response -/

structure SetupPDU where
  protocolVer : UInt16 := 0
  mcIndex : UInt8 := 0
  mcCount : UInt8 := 0
  mcIdent : UInt16 := 0
  cmdRequest : UInt8 := 0
  cmdResponse : UInt8 := 0
  maxBandwidth : UInt16 := 0
  testPort : UInt16 := 0
  modifiers : UInt8 := 0
  auth : AuthTrailer := {}
  deriving DecidableEq, Repr

/-- The composite literal of `parseSetup`. -/
def setupFields (b : Bytes) : Except Panic SetupPDU := do
  return {
    protocolVer := ← getU16 b 2
    mcIndex := ← index b 4
    mcCount := ← index b 5
    mcIdent := ← getU16 b 6
    cmdRequest := ← index b 8
    cmdResponse := ← index b 9
    maxBandwidth := ← getU16 b 10
    testPort := ← getU16 b 12
    modifiers := ← index b 14 }

def parseSetup (b : Bytes) : Except Panic (Except String SetupPDU) := do
  if b.length ≠ setupSize then
    return .error ("setup PDU size " ++ toString b.length ++ ", want " ++ toString setupSize)
  let id ← getU16 b 0
  if id ≠ pduIDSetup then
    return .error ("bad setup PDU id " ++ hexText id.toNat)
  let p ← setupFields b
  if p.cmdRequest ≠ cmdSetupRequest ∧ p.cmdRequest ≠ cmdSetupResponse then
    return .error ("bad setup command " ++ toString p.cmdRequest.toNat)
  let auth ← AuthTrailer.parse (← sliceFrom b 15)
  return .ok { p with auth := auth }

def SetupPDU.marshal (p : SetupPDU) : Except Panic Bytes := do
  let b := List.replicate setupSize 0
  let b ← putU16 b 0 pduIDSetup
  let b ← putU16 b 2 p.protocolVer
  let b ← store b 4 p.mcIndex
  let b ← store b 5 p.mcCount
  let b ← putU16 b 6 p.mcIdent
  let b ← store b 8 p.cmdRequest
  let b ← store b 9 p.cmdResponse
  let b ← putU16 b 10 p.maxBandwidth
  let b ← putU16 b 12 p.testPort
  let b ← store b 14 p.modifiers
  onSliceFrom b 15 p.auth.marshal

/-! ## Null Request -/

structure NullPDU where
  protocolVer : UInt16 := 0
  auth : AuthTrailer := {}
  deriving DecidableEq, Repr

def NullPDU.marshal (p : NullPDU) : Except Panic Bytes := do
  let b := List.replicate nullSize 0
  let b ← putU16 b 0 pduIDNull
  let b ← putU16 b 2 p.protocolVer
  let b ← store b 4 1
  let b ← store b 5 0
  let b ← store b 6 0
  onSliceFrom b 7 p.auth.marshal

/-! ## Test Activation Request and Response -/

structure TestActPDU where
  protocolVer : UInt16 := 0
  cmdRequest : UInt8 := 0
  cmdResponse : UInt8 := 0
  lowThresh : UInt16 := 0
  upperThresh : UInt16 := 0
  trialInt : UInt16 := 0
  testIntTime : UInt16 := 0
  legacySubIntSec : UInt8 := 0
  dscpEcn : UInt8 := 0
  srIndexConf : UInt16 := 0
  useOwDelVar : UInt8 := 0
  highSpeedDelta : UInt8 := 0
  slowAdjThresh : UInt16 := 0
  seqErrThresh : UInt16 := 0
  ignoreOooDup : UInt8 := 0
  modifiers : UInt8 := 0
  rateAdjAlgo : UInt8 := 0
  ecnCEThresh : UInt8 := 0
  sr : Rate := {}
  subIntPeriod : UInt16 := 0
  srAdjSuppCount : UInt16 := 0
  auth : AuthTrailer := {}
  /-- parsed from a PDU shorter than the version 20 layout; answered in kind -/
  legacy : Bool := false
  deriving DecidableEq, Repr

/-- The composite literal of `parseTestAct`. -/
def testActFields (b : Bytes) : Except Panic TestActPDU := do
  return {
    protocolVer := ← getU16 b 2
    cmdRequest := ← index b 4
    cmdResponse := ← index b 5
    lowThresh := ← getU16 b 6
    upperThresh := ← getU16 b 8
    trialInt := ← getU16 b 10
    testIntTime := ← getU16 b 12
    legacySubIntSec := ← index b 14
    dscpEcn := ← index b 15
    srIndexConf := ← getU16 b 16
    useOwDelVar := ← index b 18
    highSpeedDelta := ← index b 19
    slowAdjThresh := ← getU16 b 20
    seqErrThresh := ← getU16 b 22
    ignoreOooDup := ← index b 24
    modifiers := ← index b 25
    rateAdjAlgo := ← index b 26
    ecnCEThresh := ← index b 27
    sr := ← parseRate (← slice b 28 56)
    subIntPeriod := ← getU16 b 56
    legacy := decide (b.length < testActSize) }

def parseTestAct (b : Bytes) : Except Panic (Except String TestActPDU) := do
  if b.length < testActMinSize ∨ testActSize < b.length then
    return .error ("test activation PDU size " ++ toString b.length)
  let id ← getU16 b 0
  if id ≠ pduIDTestAct then
    return .error ("bad test activation PDU id " ++ hexText id.toNat)
  let p ← testActFields b
  if p.cmdRequest ≠ cmdTestActUpstream ∧ p.cmdRequest ≠ cmdTestActDownstream then
    return .error ("bad test activation command " ++ toString p.cmdRequest.toNat)
  if p.legacy then
    return .ok p
  let srAdjSuppCount ← getU16 b 60
  let auth ← AuthTrailer.parse (← sliceFrom b 63)
  return .ok { p with srAdjSuppCount := srAdjSuppCount, auth := auth }

def TestActPDU.marshal (p : TestActPDU) : Except Panic Bytes := do
  let size := if p.legacy then testActMinSize else testActSize
  let b := List.replicate size 0
  let b ← putU16 b 0 pduIDTestAct
  let b ← putU16 b 2 p.protocolVer
  let b ← store b 4 p.cmdRequest
  let b ← store b 5 p.cmdResponse
  let b ← putU16 b 6 p.lowThresh
  let b ← putU16 b 8 p.upperThresh
  let b ← putU16 b 10 p.trialInt
  let b ← putU16 b 12 p.testIntTime
  let b ← store b 14 p.legacySubIntSec
  let b ← store b 15 p.dscpEcn
  let b ← putU16 b 16 p.srIndexConf
  let b ← store b 18 p.useOwDelVar
  let b ← store b 19 p.highSpeedDelta
  let b ← putU16 b 20 p.slowAdjThresh
  let b ← putU16 b 22 p.seqErrThresh
  let b ← store b 24 p.ignoreOooDup
  let b ← store b 25 p.modifiers
  let b ← store b 26 p.rateAdjAlgo
  let b ← store b 27 p.ecnCEThresh
  let b ← onSlice b 28 56 p.sr.marshal
  let b ← putU16 b 56 p.subIntPeriod
  if p.legacy then
    return b
  let b ← putU16 b 60 p.srAdjSuppCount
  onSliceFrom b 63 p.auth.marshal

/-! ## Load PDU header -/

structure LoadPDU where
  testAction : UInt8 := 0
  rxStopped : UInt8 := 0
  seqNo : UInt32 := 0
  udpPayload : UInt16 := 0
  spduSeqErr : UInt16 := 0
  spduTimeSec : UInt32 := 0
  spduTimeNsec : UInt32 := 0
  timeSec : UInt32 := 0
  timeNsec : UInt32 := 0
  rttRespDelay : UInt16 := 0
  deriving DecidableEq, Repr

/-- The composite literal of `parseLoadHdr`. -/
def loadFields (b : Bytes) : Except Panic LoadPDU := do
  return {
    testAction := ← index b 2
    rxStopped := ← index b 3
    seqNo := ← getU32 b 4
    udpPayload := ← getU16 b 8
    spduSeqErr := ← getU16 b 10
    spduTimeSec := ← getU32 b 12
    spduTimeNsec := ← getU32 b 16
    timeSec := ← getU32 b 20
    timeNsec := ← getU32 b 24
    rttRespDelay := ← getU16 b 28 }

def parseLoadHdr (b : Bytes) : Except Panic (Except String LoadPDU) := do
  if b.length < loadHdrSize then
    return .error ("load PDU size " ++ toString b.length)
  let id ← getU16 b 0
  if id ≠ pduIDLoad then
    return .error ("bad load PDU id " ++ hexText id.toNat)
  let p ← loadFields b
  if testActionStop2 < p.testAction ∨ 1 < p.rxStopped then
    return .error "bad load PDU fields"
  return .ok p

/-- `p.marshalInto(b)`. -/
def LoadPDU.marshalInto (p : LoadPDU) (b : Bytes) : Except Panic Bytes := do
  let b ← putU16 b 0 pduIDLoad
  let b ← store b 2 p.testAction
  let b ← store b 3 p.rxStopped
  let b ← putU32 b 4 p.seqNo
  let b ← putU16 b 8 p.udpPayload
  let b ← putU16 b 10 p.spduSeqErr
  let b ← putU32 b 12 p.spduTimeSec
  let b ← putU32 b 16 p.spduTimeNsec
  let b ← putU32 b 20 p.timeSec
  let b ← putU32 b 24 p.timeNsec
  let b ← putU16 b 28 p.rttRespDelay
  putU16 b 30 0

/-! ## Status PDU -/

/-- Statistics of one sub-interval. -/
structure SubIntStats where
  rxDatagrams : UInt32 := 0
  rxBytes : UInt64 := 0
  deltaTime : UInt32 := 0
  seqErrLoss : UInt32 := 0
  seqErrOoo : UInt32 := 0
  seqErrDup : UInt32 := 0
  delayVarMin : UInt32 := 0
  delayVarMax : UInt32 := 0
  delayVarSum : UInt32 := 0
  delayVarCnt : UInt32 := 0
  rttVarMin : UInt32 := 0
  rttVarMax : UInt32 := 0
  accumTime : UInt32 := 0
  deriving DecidableEq, Repr

def SubIntStats.marshal (s : SubIntStats) (b : Bytes) : Except Panic Bytes := do
  let b ← putU32 b 0 s.rxDatagrams
  let b ← putU64 b 4 s.rxBytes
  let b ← putU32 b 12 s.deltaTime
  let b ← putU32 b 16 s.seqErrLoss
  let b ← putU32 b 20 s.seqErrOoo
  let b ← putU32 b 24 s.seqErrDup
  let b ← putU32 b 28 s.delayVarMin
  let b ← putU32 b 32 s.delayVarMax
  let b ← putU32 b 36 s.delayVarSum
  let b ← putU32 b 40 s.delayVarCnt
  let b ← putU32 b 44 s.rttVarMin
  let b ← putU32 b 48 s.rttVarMax
  putU32 b 52 s.accumTime

def parseSubIntStats (b : Bytes) : Except Panic SubIntStats := do
  return {
    rxDatagrams := ← getU32 b 0
    rxBytes := ← getU64 b 4
    deltaTime := ← getU32 b 12
    seqErrLoss := ← getU32 b 16
    seqErrOoo := ← getU32 b 20
    seqErrDup := ← getU32 b 24
    delayVarMin := ← getU32 b 28
    delayVarMax := ← getU32 b 32
    delayVarSum := ← getU32 b 36
    delayVarCnt := ← getU32 b 40
    rttVarMin := ← getU32 b 44
    rttVarMax := ← getU32 b 48
    accumTime := ← getU32 b 52 }

structure StatusPDU where
  testAction : UInt8 := 0
  rxStopped : UInt8 := 0
  seqNo : UInt32 := 0
  sr : Rate := {}
  subIntSeqNo : UInt32 := 0
  subIntSaved : SubIntStats := {}
  seqErrLoss : UInt32 := 0
  seqErrOoo : UInt32 := 0
  seqErrDup : UInt32 := 0
  clockDeltaMin : UInt32 := 0
  delayVarMin : UInt32 := 0
  delayVarMax : UInt32 := 0
  delayVarSum : UInt32 := 0
  delayVarCnt : UInt32 := 0
  rttMinimum : UInt32 := 0
  rttVarSample : UInt32 := 0
  delayMinUpd : UInt8 := 0
  tiDeltaTime : UInt32 := 0
  tiRxDatagrams : UInt32 := 0
  tiRxBytes : UInt32 := 0
  timeSec : UInt32 := 0
  timeNsec : UInt32 := 0
  authMode : UInt8 := 0
  tiRxCECount : UInt32 := 0
  savedCECount : UInt32 := 0
  modifiers : UInt8 := 0
  legacy : Bool := false
  deriving DecidableEq, Repr

/-- `for _, v := range vs { PutUint32(b[off:], v); off += 4 }`. -/
def putWords (b : Bytes) (off : Nat) : List UInt32 → Except Panic Bytes
  | [] => .ok b
  | v :: vs => do
      let b ← putU32 b off v
      putWords b (off + 4) vs

/-- The version 11-19 layout: an unpacked `subIntStats` (four pad bytes
after `rxDatagrams` and after `accumTime`) and no auth trailer. -/
def StatusPDU.marshalLegacy (p : StatusPDU) : Except Panic Bytes := do
  let b := List.replicate statusLegacySize 0
  let b ← putU16 b 0 pduIDStatus
  let b ← store b 2 p.testAction
  let b ← store b 3 p.rxStopped
  let b ← putU32 b 4 p.seqNo
  let b ← onSlice b 8 36 p.sr.marshal
  let b ← putU32 b 36 p.subIntSeqNo
  let b ← putU32 b 40 p.subIntSaved.rxDatagrams
  let tmp ← p.subIntSaved.marshal (List.replicate 56 0)
  let b ← copyInto b 48 100 (← slice tmp 4 56)
  let b ← putWords b 104 [p.seqErrLoss, p.seqErrOoo, p.seqErrDup, p.clockDeltaMin,
    p.delayVarMin, p.delayVarMax, p.delayVarSum, p.delayVarCnt,
    p.rttMinimum, p.rttVarSample]
  let b ← store b 144 p.delayMinUpd
  let b ← putU32 b 148 p.tiDeltaTime
  let b ← putU32 b 152 p.tiRxDatagrams
  let b ← putU32 b 156 p.tiRxBytes
  let b ← putU32 b 160 p.timeSec
  putU32 b 164 p.timeNsec

def StatusPDU.marshal (p : StatusPDU) : Except Panic Bytes := do
  if p.legacy then
    return ← p.marshalLegacy
  let b := List.replicate statusSize 0
  let b ← putU16 b 0 pduIDStatus
  let b ← store b 2 p.testAction
  let b ← store b 3 p.rxStopped
  let b ← putU32 b 4 p.seqNo
  let b ← onSlice b 8 36 p.sr.marshal
  let b ← putU32 b 36 p.subIntSeqNo
  let b ← onSlice b 40 96 p.subIntSaved.marshal
  let b ← putU32 b 96 p.seqErrLoss
  let b ← putU32 b 100 p.seqErrOoo
  let b ← putU32 b 104 p.seqErrDup
  let b ← putU32 b 108 p.clockDeltaMin
  let b ← putU32 b 112 p.delayVarMin
  let b ← putU32 b 116 p.delayVarMax
  let b ← putU32 b 120 p.delayVarSum
  let b ← putU32 b 124 p.delayVarCnt
  let b ← putU32 b 128 p.rttMinimum
  let b ← putU32 b 132 p.rttVarSample
  let b ← store b 136 p.delayMinUpd
  let b ← putU32 b 140 p.tiDeltaTime
  let b ← putU32 b 144 p.tiRxDatagrams
  let b ← putU32 b 148 p.tiRxBytes
  let b ← putU32 b 152 p.timeSec
  let b ← putU32 b 156 p.timeNsec
  let b ← store b 163 p.authMode
  let b ← putU32 b 176 p.tiRxCECount
  let b ← putU32 b 180 p.savedCECount
  store b 185 p.modifiers

/-- `for _, dst := range dsts { *dst = Uint32(b[off:]); off += 4 }`, a
destination being the update of the field it points to. -/
def getWords (b : Bytes) (off : Nat) :
    List (StatusPDU → UInt32 → StatusPDU) → StatusPDU → Except Panic StatusPDU
  | [], p => .ok p
  | dst :: dsts, p => do
      let v ← getU32 b off
      getWords b (off + 4) dsts (dst p v)

/-- The composite literal of `parseStatus`. -/
def statusFields (b : Bytes) : Except Panic StatusPDU := do
  return {
    testAction := ← index b 2
    rxStopped := ← index b 3
    seqNo := ← getU32 b 4
    sr := ← parseRate (← slice b 8 36)
    subIntSeqNo := ← getU32 b 36
    legacy := decide (b.length = statusLegacySize) }

/-- The pointers the legacy branch reads words into. -/
def legacyWords : List (StatusPDU → UInt32 → StatusPDU) :=
  [fun p v => { p with seqErrLoss := v }, fun p v => { p with seqErrOoo := v },
    fun p v => { p with seqErrDup := v }, fun p v => { p with clockDeltaMin := v },
    fun p v => { p with delayVarMin := v }, fun p v => { p with delayVarMax := v },
    fun p v => { p with delayVarSum := v }, fun p v => { p with delayVarCnt := v },
    fun p v => { p with rttMinimum := v }, fun p v => { p with rttVarSample := v }]

/-- The legacy branch of `parseStatus`. -/
def parseStatusLegacy (b : Bytes) (p : StatusPDU) : Except Panic StatusPDU := do
  let rxDatagrams ← getU32 b 40
  let tmp ← putU32 (List.replicate 56 0) 0 rxDatagrams
  let tmp ← copyInto tmp 4 56 (← slice b 48 100)
  let subIntSaved ← parseSubIntStats tmp
  let p ← getWords b 104 legacyWords { p with subIntSaved := subIntSaved }
  return { p with
    delayMinUpd := ← index b 144
    tiDeltaTime := ← getU32 b 148
    tiRxDatagrams := ← getU32 b 152
    tiRxBytes := ← getU32 b 156
    timeSec := ← getU32 b 160
    timeNsec := ← getU32 b 164 }

/-- The version 20 branch of `parseStatus`. -/
def parseStatusCurrent (b : Bytes) (p : StatusPDU) : Except Panic StatusPDU := do
  return { p with
    subIntSaved := ← parseSubIntStats (← slice b 40 96)
    seqErrLoss := ← getU32 b 96
    seqErrOoo := ← getU32 b 100
    seqErrDup := ← getU32 b 104
    clockDeltaMin := ← getU32 b 108
    delayVarMin := ← getU32 b 112
    delayVarMax := ← getU32 b 116
    delayVarSum := ← getU32 b 120
    delayVarCnt := ← getU32 b 124
    rttMinimum := ← getU32 b 128
    rttVarSample := ← getU32 b 132
    delayMinUpd := ← index b 136
    tiDeltaTime := ← getU32 b 140
    tiRxDatagrams := ← getU32 b 144
    tiRxBytes := ← getU32 b 148
    timeSec := ← getU32 b 152
    timeNsec := ← getU32 b 156
    authMode := ← index b 163
    tiRxCECount := ← getU32 b 176
    savedCECount := ← getU32 b 180
    modifiers := ← index b 185 }

def parseStatus (b : Bytes) : Except Panic (Except String StatusPDU) := do
  if b.length ≠ statusSize ∧ b.length ≠ statusLegacySize then
    return .error ("status PDU size " ++ toString b.length)
  let id ← getU16 b 0
  if id ≠ pduIDStatus then
    return .error ("bad status PDU id " ++ hexText id.toNat)
  let p ← statusFields b
  if testActionStop2 < p.testAction ∨ 1 < p.rxStopped then
    return .error "bad status PDU fields"
  if p.legacy then
    return .ok (← parseStatusLegacy b p)
  return .ok (← parseStatusCurrent b p)

end Diagd.Udpst
