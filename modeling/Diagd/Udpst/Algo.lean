import Diagd.Udpst.Protocol

/-!
# The sending rate search (`algo.go`)

`RateController.adjust` is one step of the search. Go's `int` fields are
`Int`; the three expressions the source computes in `uint32` before
widening (`seqErrOoo + seqErrDup`, the rounded mean delay, the CE
threshold) stay in `UInt32`, where they wrap.
-/

namespace Diagd.Udpst

/-- The fields of a `rateController` that are set once. -/
structure RateParams where
  table : RateTable
  algo : UInt8
  srIndexConf : Int
  indexIsStart : Bool
  highSpeedDelta : Int
  slowAdjThresh : Int
  seqErrThresh : Int
  lowThresh : Int
  upperThresh : Int
  useOwDelVar : Bool
  ignoreOooDup : Bool
  ecnCEThresh : Int
  srAdjSupp : UInt32
  deriving DecidableEq, Repr

/-- `rateController`: its parameters, and the state of the search. -/
structure RateController extends RateParams where
  index : Int
  slowAdjCount : Int := 0
  retryCount : Int := 0
  retryThresh : Int := 0
  update : Bool := false
  deriving DecidableEq, Repr

/-- The measurements of one trial interval. -/
structure TrialInput where
  seqErrLoss : UInt32 := 0
  seqErrOoo : UInt32 := 0
  seqErrDup : UInt32 := 0
  delayVarSum : UInt32 := 0
  delayVarCnt : UInt32 := 0
  rttVarSample : UInt32 := statusNoDelay
  rxDatagrams : UInt32 := 0
  ceCount : UInt32 := 0
  subIntSeqNo : UInt32 := 0
  deriving DecidableEq, Repr

namespace RateController

/-! ## Classification of a trial -/

def seqerr (rc : RateController) (inp : TrialInput) : Int :=
  if rc.ignoreOooDup then inp.seqErrLoss.toNat
  else inp.seqErrLoss.toNat + (inp.seqErrOoo + inp.seqErrDup).toNat

/-- The delay measure; no data leaves it at `lowThresh`, which is neither
good nor bad. -/
def delay (rc : RateController) (inp : TrialInput) : Int :=
  if rc.useOwDelVar then
    if 0 < inp.delayVarCnt then
      ((inp.delayVarSum * 10 / inp.delayVarCnt + 5) / 10 : UInt32).toNat
    else rc.lowThresh
  else if inp.rttVarSample ≠ statusNoDelay then inp.rttVarSample.toNat
  else rc.lowThresh

def cethresh (rc : RateController) (inp : TrialInput) : Bool :=
  if 0 < rc.ecnCEThresh ∧ 0 < inp.ceCount then
    let need := (UInt32.ofInt (rc.ecnCEThresh - 1) * inp.rxDatagrams * 10 / 255 + 5) / 10
    decide (need < inp.ceCount)
  else false

def good (rc : RateController) (inp : TrialInput) : Bool :=
  decide (rc.seqerr inp ≤ rc.seqErrThresh) && decide (rc.delay inp < rc.lowThresh) &&
    !rc.cethresh inp

def bad (rc : RateController) (inp : TrialInput) : Bool :=
  decide (rc.seqErrThresh < rc.seqerr inp) || decide (rc.upperThresh < rc.delay inp) ||
    rc.cethresh inp

/-- Rate changes are suppressed until sub-interval `srAdjSupp`. -/
def suppressed (rc : RateController) (inp : TrialInput) : Bool :=
  decide (0 < rc.srAdjSupp) && decide (inp.subIntSeqNo < rc.srAdjSupp)

/-- A configured index that is not a starting index is static. -/
def isStatic (rc : RateController) : Bool := decide (0 ≤ rc.srIndexConf) && !rc.indexIsStart

/-- `maxIdx`. -/
def maxIdx (rc : RateController) : Int := rc.table.rows.length - 1

/-! ## Algorithm B -/

/-- The fast backoff of both algorithms: three high-speed deltas, not below
row 0. -/
def backoff (rc : RateController) : Int :=
  if rc.highSpeedDelta * 3 < rc.index then rc.index - rc.highSpeedDelta * 3 else 0

/-- The fast raise of algorithm B: one high-speed delta, not beyond the
threshold. -/
def raiseFast (rc : RateController) (hst : Int) : Int :=
  if hst < rc.index + rc.highSpeedDelta then hst else rc.index + rc.highSpeedDelta

def goodB (rc : RateController) (hst maxIdx : Int) : RateController :=
  if rc.index < hst ∧ rc.slowAdjCount < rc.slowAdjThresh then
    { rc with index := rc.raiseFast hst, slowAdjCount := 0 }
  else if rc.index < maxIdx then { rc with index := rc.index + 1 }
  else rc

/-- The count is raised before it is compared. -/
def badB (rc : RateController) (hst : Int) : RateController :=
  if rc.index < hst ∧ rc.slowAdjCount + 1 = rc.slowAdjThresh then
    { rc with index := rc.backoff, slowAdjCount := rc.slowAdjCount + 1 }
  else if 0 < rc.index then
    { rc with index := rc.index - 1, slowAdjCount := rc.slowAdjCount + 1 }
  else { rc with slowAdjCount := rc.slowAdjCount + 1 }

/-- The `switch` that ends `adjust`; between the thresholds the decision is
deferred. -/
def adjustAlgoB (rc : RateController) (good bad : Bool) (hst maxIdx : Int) : RateController :=
  if good then rc.goodB hst maxIdx else if bad then rc.badB hst else rc

/-! ## Algorithm C -/

/-- The fast raise of algorithm C, index and `update`: row 0 is left at once,
and the index doubles on alternate trials. -/
def raiseDouble (rc : RateController) (hst : Int) : Int × Bool :=
  if hst < rc.index * 2 then (hst, rc.update)
  else
    let index := if rc.index = 0 then rc.index + 1 else rc.index
    if rc.update then (index * 2, false) else (index, true)

/-- The slow raise: enough of them re-enable the fast one, and the next
retry waits longer. -/
def raiseSlow (rc : RateController) (maxIdx : Int) : RateController :=
  let index := if rc.index < maxIdx then rc.index + 1 else rc.index
  let retryCount := if rc.index < maxIdx then rc.retryCount + 1 else rc.retryCount
  if rc.retryThresh ≤ retryCount then
    { rc with
      index := index
      slowAdjCount := 0
      retryCount := 0
      retryThresh := rc.retryThresh + 5 }
  else { rc with index := index, retryCount := retryCount }

def goodC (rc : RateController) (hst maxIdx : Int) : RateController :=
  if rc.index < hst ∧ rc.slowAdjCount < rc.slowAdjThresh then
    { rc with
      index := (rc.raiseDouble hst).1
      update := (rc.raiseDouble hst).2
      slowAdjCount := 0 }
  else rc.raiseSlow maxIdx

def badC (rc : RateController) (hst : Int) : RateController :=
  if rc.index < hst ∧ rc.slowAdjCount + 1 = rc.slowAdjThresh then
    { rc with index := rc.backoff, slowAdjCount := rc.slowAdjCount + 1 }
  else if 0 < rc.index then
    if rc.retryThresh ≤ rc.retryCount + 1 then
      { rc with index := rc.index - 1, slowAdjCount := 0, retryCount := 0 }
    else
      { rc with
        index := rc.index - 1
        slowAdjCount := rc.slowAdjCount + 1
        retryCount := rc.retryCount + 1 }
  else { rc with slowAdjCount := rc.slowAdjCount + 1 }

/-- `if rc.retryThresh == 0`. -/
def initRetry (rc : RateController) : RateController :=
  { rc with retryThresh := if rc.retryThresh = 0 then 5 else rc.retryThresh }

def adjustAlgoC (rc : RateController) (good bad : Bool) (hst maxIdx : Int) : RateController :=
  if good then rc.initRetry.goodC hst maxIdx
  else if bad then rc.initRetry.badC hst
  else rc.initRetry

/-- `rc.adjust(in)`: one trial interval. -/
def adjust (rc : RateController) (inp : TrialInput) : RateController :=
  if rc.suppressed inp then
    if rc.isStatic then { rc with index := 0 } else rc
  else if rc.isStatic then { rc with index := rc.srIndexConf }
  else if rc.algo = 1 then
    rc.adjustAlgoC (rc.good inp) (rc.bad inp) rc.table.highSpeedThresh rc.maxIdx
  else
    rc.adjustAlgoB (rc.good inp) (rc.bad inp) rc.table.highSpeedThresh rc.maxIdx

end RateController

end Diagd.Udpst
