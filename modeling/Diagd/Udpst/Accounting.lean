import Diagd.Lib.RingBuffer
import Diagd.Udpst.Session

/-!
# Receiver accounting (`accounting.go`)

`RxAccounting` classifies sequence numbers, estimates delay variation and
round-trip time, and keeps two sets of counters on two schedules: those of
the trial interval, cleared by `resetTrial`, and those of the sub-interval,
closed by `maybeRoll`. All counters are the source's 32-bit words and WRAP.
-/

namespace Diagd.Udpst

open GoStd

abbrev loadHistorySize : Nat := 32

/-- Counters of the trial interval, reset after each status message. -/
structure TrialCounters where
  tRxDatagrams : UInt32 := 0
  tRxBytes : UInt32 := 0
  tLoss : UInt32 := 0
  tOoo : UInt32 := 0
  tDup : UInt32 := 0
  tDvMin : UInt32 := statusNoDelay
  tDvMax : UInt32 := 0
  tDvSum : UInt32 := 0
  tDvCnt : UInt32 := 0
  tCE : UInt32 := 0
  deriving DecidableEq, Repr

/-- An empty sub-interval. -/
def SubIntStats.fresh : SubIntStats := { delayVarMin := statusNoDelay, rttVarMin := statusNoDelay }

/-- `rxAccounting`; `history` is the source's array with its `histIdx`. -/
structure RxAccounting extends TrialCounters where
  seq : UInt32 := 0
  history : RingBuffer UInt32 loadHistorySize := ⟨Vector.replicate _ 0, 0⟩
  clockDeltaMin : Int := 0
  haveClockDelta : Bool := false
  rttMin : UInt32 := statusNoDelay
  rttVarSample : UInt32 := statusNoDelay
  lastEchoSec : UInt32 := 0
  lastEchoNsec : UInt32 := 0
  delayMinUpd : Bool := false
  sub : SubIntStats := SubIntStats.fresh
  subCE : UInt32 := 0
  subStart : Time
  accumMs : UInt32 := 0
  saved : SubIntStats := {}
  savedCE : UInt32 := 0
  subIntSeq : UInt32 := 0
  rolled : Bool := false
  deriving DecidableEq, Repr

def newRxAccounting (now : Time) : RxAccounting := { subStart := now }

/-- `wallDiffMs(t, sec, nsec)`: the seconds are compared modulo 2^32. -/
def wallDiffMs (t : Time) (sec nsec : UInt32) : Int :=
  let ds := (UInt32.ofInt (Time.unix t) - sec).toInt32
  ds.toInt * 1000 + (Time.nanosecond t - nsec.toNat).tdiv 1000000

namespace RxAccounting

/-! ## Sequence numbers -/

def pushHistory (a : RxAccounting) (seq : UInt32) : RxAccounting :=
  { a with history := a.history.push seq }

def inHistory (a : RxAccounting) (seq : UInt32) : Bool := a.history.slots.toList.any (· == seq)

/-- `if n > 0 { n-- }`. -/
def takeBack (n : UInt32) : UInt32 := if 0 < n then n - 1 else n

/-- The datagram advances the stream, possibly after a gap. -/
def advanceSeq (a : RxAccounting) (seq : UInt32) : RxAccounting :=
  let gap := seq - a.seq - 1
  pushHistory { a with
    tLoss := a.tLoss + gap
    sub := { a.sub with seqErrLoss := a.sub.seqErrLoss + gap }
    seq := seq } seq

def countDup (a : RxAccounting) : RxAccounting :=
  { a with
    tDup := a.tDup + 1
    sub := { a.sub with seqErrDup := a.sub.seqErrDup + 1 } }

/-- A late but unseen datagram takes a counted loss back, unless that loss
has been reported already. -/
def countOoo (a : RxAccounting) (seq : UInt32) : RxAccounting :=
  pushHistory { a with
    tOoo := a.tOoo + 1
    tLoss := takeBack a.tLoss
    sub := { a.sub with
      seqErrOoo := a.sub.seqErrOoo + 1
      seqErrLoss := takeBack a.sub.seqErrLoss } } seq

/-- `a.recordSeq(seq)`; the flag says whether the datagram advances the
stream. The comparison is made on the wrapped `a.seq + 1`. -/
def recordSeq (a : RxAccounting) (seq : UInt32) : RxAccounting × Bool :=
  if a.seq + 1 ≤ seq then (a.advanceSeq seq, true)
  else if a.inHistory seq then (a.countDup, false)
  else (a.countOoo seq, false)

/-! ## Load PDUs -/

/-- The volume counters. -/
def countLoad (a : RxAccounting) (hdr : LoadPDU) : RxAccounting :=
  { a with
    tRxDatagrams := a.tRxDatagrams + 1
    tRxBytes := a.tRxBytes + hdr.udpPayload.toUInt32
    sub := { a.sub with
      rxDatagrams := a.sub.rxDatagrams + 1
      rxBytes := a.sub.rxBytes + hdr.udpPayload.toUInt64 } }

/-- The running minimum of receive time minus send time. -/
def recordClockDelta (a : RxAccounting) (delta : Int) : RxAccounting :=
  if !a.haveClockDelta || decide (delta < a.clockDeltaMin) then
    { a with clockDeltaMin := delta, haveClockDelta := true, delayMinUpd := true }
  else a

/-- `if cur == statusNoDelay || v < cur { cur = v }`. -/
def minDelay (cur v : UInt32) : UInt32 := if cur = statusNoDelay ∨ v < cur then v else cur

/-- `if v > cur { cur = v }`. -/
def maxDelay (cur v : UInt32) : UInt32 := if cur < v then v else cur

/-- One sample of the one-way delay variation. -/
def recordDelayVar (a : RxAccounting) (dv : UInt32) : RxAccounting :=
  { a with
    tDvMin := minDelay a.tDvMin dv
    tDvMax := maxDelay a.tDvMax dv
    tDvSum := a.tDvSum + dv
    tDvCnt := a.tDvCnt + 1
    sub := { a.sub with
      delayVarMin := minDelay a.sub.delayVarMin dv
      delayVarMax := maxDelay a.sub.delayVarMax dv
      delayVarSum := a.sub.delayVarSum + dv
      delayVarCnt := a.sub.delayVarCnt + 1 } }

/-- The load PDU echoes a status message not sampled before. -/
def freshEcho (a : RxAccounting) (hdr : LoadPDU) : Bool :=
  (decide (hdr.spduTimeSec ≠ 0) || decide (hdr.spduTimeNsec ≠ 0)) &&
    (decide (hdr.spduTimeSec ≠ a.lastEchoSec) || decide (hdr.spduTimeNsec ≠ a.lastEchoNsec))

/-- `r`: the round-trip time in milliseconds, not below 0. -/
def rttOf (rxTime : Time) (hdr : LoadPDU) : UInt32 :=
  let rtt := wallDiffMs rxTime hdr.spduTimeSec hdr.spduTimeNsec - hdr.rttRespDelay.toNat
  UInt32.ofInt (if rtt < 0 then 0 else rtt)

/-- One sample of the round-trip time. -/
def recordRtt (a : RxAccounting) (rxTime : Time) (hdr : LoadPDU) : RxAccounting :=
  if a.freshEcho hdr then
    let r := rttOf rxTime hdr
    let rttMin := minDelay a.rttMin r
    let sample := r - rttMin
    { a with
      lastEchoSec := hdr.spduTimeSec
      lastEchoNsec := hdr.spduTimeNsec
      rttMin := rttMin
      rttVarSample := sample
      sub := { a.sub with
        rttVarMin := minDelay a.sub.rttVarMin sample
        rttVarMax := maxDelay a.sub.rttVarMax sample } }
  else a

/-- The delay samples of a datagram that advanced the stream. -/
def recordDelays (a : RxAccounting) (rxTime : Time) (hdr : LoadPDU) : RxAccounting :=
  let delta := wallDiffMs rxTime hdr.timeSec hdr.timeNsec
  let a := a.recordClockDelta delta
  let a := a.recordDelayVar (UInt32.ofInt (delta - a.clockDeltaMin))
  a.recordRtt rxTime hdr

/-- `a.recordLoad(rxTime, hdr)`. -/
def recordLoad (a : RxAccounting) (rxTime : Time) (hdr : LoadPDU) : RxAccounting :=
  match (a.countLoad hdr).recordSeq hdr.seqNo with
  | (a, true) => a.recordDelays rxTime hdr
  -- late datagrams carry no usable delay information
  | (a, false) => a

/-! ## Reports -/

def trialInput (a : RxAccounting) : TrialInput where
  seqErrLoss := a.tLoss
  seqErrOoo := a.tOoo
  seqErrDup := a.tDup
  delayVarSum := a.tDvSum
  delayVarCnt := a.tDvCnt
  rttVarSample := a.rttVarSample
  rxDatagrams := a.tRxDatagrams
  ceCount := a.tCE
  subIntSeqNo := a.subIntSeq

/-- `maybeRoll` gets past its two returns. -/
def rolls (a : RxAccounting) (now : Time) (subInt trialInt : Duration) : Bool :=
  let elapsed := now - a.subStart
  !(decide (0 < subInt) && decide (elapsed ≤ subInt - trialInt.tdiv 2)) &&
    !(decide (a.sub.rxDatagrams = 0) && decide (subInt = 0))

/-- The active sub-interval with its times filled in. -/
def closeSub (a : RxAccounting) (now : Time) : SubIntStats :=
  let elapsed : Duration := now - a.subStart
  { a.sub with
    deltaTime := UInt32.ofInt (Duration.microseconds elapsed)
    accumTime := a.accumMs + UInt32.ofInt (Duration.milliseconds elapsed) }

/-- `a.maybeRoll(now, subInt, trialInt)`. -/
def maybeRoll (a : RxAccounting) (now : Time) (subInt trialInt : Duration) : RxAccounting :=
  if a.rolls now subInt trialInt then
    { a with
      accumMs := (a.closeSub now).accumTime
      saved := a.closeSub now
      savedCE := a.subCE
      subIntSeq := a.subIntSeq + 1
      rolled := true
      sub := SubIntStats.fresh
      subCE := 0
      subStart := now }
  else a

/-- `a.buildStatus(now, lastStatus)`; `wall` is the clock `wallNow` reads. -/
def buildStatus (a : RxAccounting) (now lastStatus wall : Time) : StatusPDU where
  subIntSeqNo := a.subIntSeq
  subIntSaved := a.saved
  seqErrLoss := a.tLoss
  seqErrOoo := a.tOoo
  seqErrDup := a.tDup
  clockDeltaMin := (Int32.ofInt a.clockDeltaMin).toUInt32
  delayVarMin := a.tDvMin
  delayVarMax := a.tDvMax
  delayVarSum := a.tDvSum
  delayVarCnt := a.tDvCnt
  rttMinimum := a.rttMin
  rttVarSample := a.rttVarSample
  delayMinUpd := boolByte a.delayMinUpd
  tiDeltaTime := UInt32.ofInt (Duration.microseconds (now - lastStatus))
  tiRxDatagrams := a.tRxDatagrams
  tiRxBytes := a.tRxBytes
  tiRxCECount := a.tCE
  savedCECount := a.savedCE
  timeSec := UInt32.ofInt (Time.unix wall)
  timeNsec := UInt32.ofInt (Time.nanosecond wall)

/-- `a.resetTrial(now)`, which makes no use of its argument and does NOT
clear the round-trip sample. -/
def resetTrial (a : RxAccounting) : RxAccounting :=
  { a with toTrialCounters := {}, delayMinUpd := false }

end RxAccounting

end Diagd.Udpst
