import Diagd.Udpst.Codec
import Diagd.Udpst.Upstream

/-!
# The downstream test (`runDownstream` of `session.go`)

The main loop reads status PDUs; the load itself is sent by a second
goroutine, `sendLoop`, which reads `index` and `echo` and is told to wind
down by a timer that the main loop does not look at. As in the upstream
test, a turn is split at the read and `maxMbps` is left out.
-/

namespace Diagd.Udpst

open GoSlice GoStd

/-- Result of `ReadFromUDPAddrPort`, at the time it returns. -/
inductive ConnRead where
  /-- `os.ErrDeadlineExceeded` -/
  | timeout (at_ : Time)
  /-- any other error -/
  | failed (at_ : Time)
  | datagram (rx : Rx)
  deriving DecidableEq, Repr

def ConnRead.returns : ConnRead → Time
  | .timeout t => t
  | .failed t => t
  | .datagram rx => rx.now

structure DownTurn where
  now : Time
  read : ConnRead
  deriving DecidableEq, Repr

/-- `echoState`: the latest status timestamp, for `sendLoop` to echo. -/
structure EchoState where
  sec : UInt32
  nsec : UInt32
  rxAt : Time
  deriving DecidableEq, Repr

/-- The variables of the main loop and the two it shares with `sendLoop`;
`running` becomes false at a `break`. -/
structure DownTest where
  rc : RateController
  index : Int
  echo : Option EchoState := none
  watchdog : Time
  lastSubSeq : UInt32 := 0
  totalLoss : UInt64 := 0
  totalDG : UInt64 := 0
  running : Bool := true
  deriving DecidableEq, Repr

def Session.newDownTest (srv : Server) (s : Session) (now : Time) : DownTest where
  rc := s.newRateController srv
  index := (s.newRateController srv).index
  watchdog := now + watchdogTimeout

/-- The trial input a status PDU reports, field by field as sent. -/
def StatusPDU.trialInput (st : StatusPDU) : TrialInput where
  seqErrLoss := st.seqErrLoss
  seqErrOoo := st.seqErrOoo
  seqErrDup := st.seqErrDup
  delayVarSum := st.delayVarSum
  delayVarCnt := st.delayVarCnt
  rttVarSample := st.rttVarSample
  rxDatagrams := st.tiRxDatagrams
  ceCount := st.tiRxCECount
  subIntSeqNo := st.subIntSeqNo

namespace DownTest

/-- The top of the loop, to `SetReadDeadline`. -/
def prepare (d : DownTest) (now : Time) : DownTest :=
  if d.watchdog < now then { d with running := false } else d

/-- The status PDU of a datagram from the test's peer, if it is one. -/
def statusOf (s : Session) (rx : Rx) : Except Panic (Option StatusPDU) :=
  if some rx.peer.addr.unmap ≠ s.peer.map (·.addr.unmap) then .ok none
  else do
    match ← parseStatus rx.bytes with
    | .error _ => return none
    | .ok st => return some st

/-- The figures a status PDU is added to, whatever its action. -/
def account (d : DownTest) (rxNow : Time) (st : StatusPDU) : DownTest :=
  { d with
    watchdog := rxNow + watchdogTimeout
    echo := some ⟨st.timeSec, st.timeNsec, rxNow⟩
    totalLoss := d.totalLoss + st.seqErrLoss.toUInt64
    totalDG := d.totalDG + st.tiRxDatagrams.toUInt64
    lastSubSeq := st.subIntSeqNo }

/-- `rc.adjust(...)` and `index.Store(...)`. -/
def steer (d : DownTest) (st : StatusPDU) : DownTest :=
  { d with
    rc := d.rc.adjust st.trialInput
    index := (d.rc.adjust st.trialInput).index }

/-- One status PDU: accounted, and then the end of the test or a new rate. -/
def apply (d : DownTest) (rxNow : Time) (st : StatusPDU) : DownTest :=
  if st.testAction ≠ testActionTest then { d.account rxNow st with running := false }
  else (d.account rxNow st).steer st

/-- From the return of the read to the end of the turn. -/
def absorb (s : Session) (d : DownTest) : ConnRead → Except Panic DownTest
  | .timeout _ => .ok d
  | .failed _ => .ok { d with running := false }
  | .datagram rx => do
      match ← statusOf s rx with
      | none => return d
      | some st => return d.apply rx.now st

/-- The sequence number is NOT among the fields the loop reads: two status
PDUs that differ only in it do the same. -/
theorem apply_seqNo (d : DownTest) (rxNow : Time) (st : StatusPDU) (n : UInt32) :
    d.apply rxNow { st with seqNo := n } = d.apply rxNow st := rfl

theorem statusOf_total (s : Session) (rx : Rx) : ∃ r, statusOf s rx = .ok r := by
  unfold statusOf
  split
  · exact ⟨none, rfl⟩
  · obtain ⟨r, hr⟩ := parseStatus_total rx.bytes
    rw [hr]
    cases r with
    | error e => exact ⟨none, rfl⟩
    | ok st => exact ⟨some st, rfl⟩

/-- What a read can do to the test. -/
theorem absorb_cases (s : Session) (d : DownTest) (r : ConnRead) :
    (∃ t, r = .timeout t ∧ d.absorb s r = .ok d) ∨
      (∃ t, r = .failed t ∧ d.absorb s r = .ok { d with running := false }) ∨
      (∃ rx, r = .datagram rx ∧ statusOf s rx = .ok none ∧ d.absorb s r = .ok d) ∨
      ∃ rx st, r = .datagram rx ∧ statusOf s rx = .ok (some st) ∧
        d.absorb s r = .ok (d.apply rx.now st) := by
  cases r with
  | timeout t => exact .inl ⟨t, rfl, rfl⟩
  | failed t => exact .inr (.inl ⟨t, rfl, rfl⟩)
  | datagram rx =>
      obtain ⟨o, ho⟩ := statusOf_total s rx
      cases o with
      | none => exact .inr (.inr (.inl ⟨rx, rfl, ho, by rw [absorb, ho]; rfl⟩))
      | some st => exact .inr (.inr (.inr ⟨rx, st, rfl, ho, by rw [absorb, ho]; rfl⟩))

end DownTest

end Diagd.Udpst
