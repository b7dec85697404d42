import Diagd.Udpst.Accounting
import Diagd.Udpst.Codec

/-!
# The upstream test (`runUpstream` of `session.go`)

One turn of the main loop is split where the code blocks: `prepare` runs
from the top of the loop to the read, `absorb` from the return of the read
to the end of the turn. What the turn takes from outside is its `UpTurn`:
the clock at the top, the wall clock `buildStatus` stamps the message with,
and the result of the read. Left out is `maxMbps`, a floating point figure
for the log.
-/

namespace Diagd.Udpst

open GoSlice GoStd

abbrev watchdogTimeout : Duration := 3 * second
abbrev noTrafficWarning : Duration := second

/-- One message of a batch: `addr` is `none` for a source that is not a
UDP address. -/
structure Msg where
  addr : Option AddrPort
  data : Bytes
  deriving DecidableEq, Repr

/-- Result of `ReadBatch`, at the time it returns. -/
inductive BatchRead where
  /-- `os.ErrDeadlineExceeded` -/
  | timeout (at_ : Time)
  /-- any other error -/
  | failed (at_ : Time)
  | batch (rxNow : Time) (msgs : List Msg)
  deriving DecidableEq, Repr

def BatchRead.returns : BatchRead → Time
  | .timeout t => t
  | .failed t => t
  | .batch t _ => t

structure UpTurn where
  now : Time
  wall : Time := 0
  read : BatchRead
  deriving DecidableEq, Repr

/-- The variables of the loop; `running` becomes false at a `break`. -/
structure UpTest where
  rc : RateController
  a : RxAccounting
  statusSeq : UInt32 := 0
  lastStatus : Time
  nextStatus : Time
  stopAt : Time
  watchdog : Time
  lastRx : Time
  stopping : Bool := false
  clientDone : Bool := false
  totalLoss : UInt64 := 0
  totalDG : UInt64 := 0
  running : Bool := true
  deriving DecidableEq, Repr

def Session.newUpTest (srv : Server) (s : Session) (now : Time) : UpTest where
  rc := s.newRateController srv
  a := newRxAccounting now
  lastStatus := now
  nextStatus := now + s.p.trialInt
  stopAt := now + (s.p.duration + 500 * millisecond)
  watchdog := now + watchdogTimeout
  lastRx := now

namespace UpTest

/-- `for !clientDone`, and no `break` so far. -/
def looping (u : UpTest) : Bool := u.running && !u.clientDone

/-! ## Up to the read -/

/-- The status message of a trial interval, before it is marshalled. -/
def status (s : Session) (u : UpTest) (a : RxAccounting) (row : Rate) (now wall : Time) :
    StatusPDU :=
  { a.buildStatus now u.lastStatus wall with
    testAction := if u.stopping then testActionStop2 else testActionTest
    rxStopped := boolByte (decide (noTrafficWarning < now - u.lastRx))
    seqNo := u.statusSeq + 1
    sr := row
    authMode := s.authMode
    legacy := decide (s.pver < protocolVer) }

/-- The accounting the status message reports. -/
def rolledUp (s : Session) (u : UpTest) (now : Time) : RxAccounting :=
  { u.a.maybeRoll now s.p.subInt s.p.trialInt with rolled := false }

/-- When the next status message is due: on schedule, unless that is past. -/
def nextDue (s : Session) (u : UpTest) (now : Time) : Time :=
  let next := u.nextStatus + s.p.trialInt
  if next < now then now + s.p.trialInt else next

/-- The test after the status message of a trial interval. -/
def reported (s : Session) (u : UpTest) (now : Time) : UpTest :=
  { u with
    rc := u.rc.adjust u.a.trialInput
    a := (u.rolledUp s now).resetTrial
    statusSeq := u.statusSeq + 1
    totalLoss := u.totalLoss + (u.rolledUp s now).tLoss.toUInt64
    totalDG := u.totalDG + (u.rolledUp s now).tRxDatagrams.toUInt64
    lastStatus := now
    nextStatus := u.nextDue s now }

/-- The body of `if !now.Before(nextStatus)`. -/
def report (srv : Server) (s : Session) (u : UpTest) (now wall : Time) :
    Except Panic (UpTest × Bytes) := do
  let rc := u.rc.adjust u.a.trialInput
  let row ← element srv.table.rows rc.index
  let pdu ← (u.status s (u.rolledUp s now) row now wall).marshal
  return (u.reported s now, pdu)

/-- `if !stopping && now.After(stopAt)`. -/
def mark (u : UpTest) (now : Time) : UpTest :=
  { u with stopping := u.stopping || decide (u.stopAt < now) }

/-- The top of the loop, to `SetReadDeadline`. -/
def prepare (srv : Server) (s : Session) (u : UpTest) (now wall : Time) :
    Except Panic (UpTest × Option Bytes) :=
  if u.watchdog < now then .ok ({ u with running := false }, none)
  else if u.nextStatus ≤ now then do
    let (u, pdu) ← (u.mark now).report srv s now wall
    return (u, some pdu)
  else .ok (u.mark now, none)

def deadline (u : UpTest) : Time := if u.watchdog < u.nextStatus then u.watchdog else u.nextStatus

/-! ## From the read -/

/-- The load PDU of a message from the test's peer, if it is one. -/
def loadOf (s : Session) (m : Msg) : Except Panic (Option LoadPDU) :=
  match m.addr with
  | none => .ok none
  | some ap =>
      if some ap.addr.unmap ≠ s.peer.map (·.addr.unmap) then .ok none
      else do
        match ← parseLoadHdr (m.data.take loadHdrSize) with
        | .error _ => return none
        | .ok hdr => return some hdr

/-- A load PDU is accounted. -/
def accept (u : UpTest) (rxNow : Time) (hdr : LoadPDU) : UpTest :=
  { u with
    watchdog := rxNow + watchdogTimeout
    lastRx := rxNow
    clientDone := u.clientDone || decide (hdr.testAction ≠ testActionTest)
    a := u.a.recordLoad rxNow hdr }

/-- `for i := 0; i < n; i++`. -/
def receive (s : Session) (rxNow : Time) (u : UpTest) : List Msg → Except Panic UpTest
  | [] => .ok u
  | m :: ms => do
      match ← loadOf s m with
      | none => receive s rxNow u ms
      | some hdr => receive s rxNow (u.accept rxNow hdr) ms

/-- From the return of the read to the end of the turn. -/
def absorb (s : Session) (u : UpTest) : BatchRead → Except Panic UpTest
  | .timeout _ => .ok u
  | .failed _ => .ok { u with running := false }
  | .batch rxNow msgs => u.receive s rxNow msgs

/-- One turn of the loop: the test afterwards, and the message sent. -/
def turn (srv : Server) (s : Session) (u : UpTest) (t : UpTurn) :
    Except Panic (UpTest × Option Bytes) := do
  let (u, sent) ← u.prepare srv s t.now t.wall
  if u.running then
    return (← u.absorb s t.read, sent)
  return (u, sent)

/-! ## Nothing in a turn panics -/

theorem loadOf_total (s : Session) (m : Msg) : ∃ l, loadOf s m = .ok l := by
  unfold loadOf
  split
  · exact ⟨none, rfl⟩
  · split
    · exact ⟨none, rfl⟩
    · obtain ⟨r, hr⟩ := parseLoadHdr_total (m.data.take loadHdrSize)
      rw [hr]
      cases r with
      | error e => exact ⟨none, rfl⟩
      | ok hdr => exact ⟨some hdr, rfl⟩

/-- The load PDUs of a batch, in order. -/
def loads (s : Session) : List Msg → List LoadPDU
  | [] => []
  | m :: ms =>
      match loadOf s m with
      | .ok (some hdr) => hdr :: loads s ms
      | _ => loads s ms

/-- A batch is the fold of its load PDUs. -/
theorem receive_eq (s : Session) (rxNow : Time) (ms : List Msg) (u : UpTest) :
    u.receive s rxNow ms = .ok ((loads s ms).foldl (fun u hdr => u.accept rxNow hdr) u) := by
  induction ms generalizing u with
  | nil => rfl
  | cons m ms ih =>
      obtain ⟨l, hl⟩ := loadOf_total s m
      rw [receive, loads, hl, ok_bind]
      cases l with
      | none => exact ih u
      | some hdr => exact ih (u.accept rxNow hdr)

/-- Everything the top of the loop can do. -/
theorem prepare_cases {srv : Server} {s : Session} {u u' : UpTest} {now wall : Time}
    {sent : Option Bytes} (h : u.prepare srv s now wall = .ok (u', sent)) :
    (u.watchdog < now ∧ u' = { u with running := false } ∧ sent = none) ∨
      (now ≤ u.watchdog ∧ now < u.nextStatus ∧ u' = u.mark now ∧ sent = none) ∨
      (now ≤ u.watchdog ∧ u.nextStatus ≤ now ∧ u' = (u.mark now).reported s now ∧
        ∃ pdu, sent = some pdu) := by
  unfold prepare at h
  split at h
  · rename_i hdog
    cases h
    exact .inl ⟨hdog, rfl, rfl⟩
  · rename_i hdog
    have hdog' : now ≤ u.watchdog := Int.not_lt.mp hdog
    split at h
    · rename_i hdue
      obtain ⟨⟨u₁, pdu⟩, hrep, hret⟩ := bind_eq_ok.mp h
      obtain ⟨row, -, hrep⟩ := bind_eq_ok.mp hrep
      obtain ⟨b, -, hrep⟩ := bind_eq_ok.mp hrep
      cases hrep
      cases hret
      exact .inr (.inr ⟨hdog', hdue, rfl, _, rfl⟩)
    · rename_i hdue
      cases h
      exact .inr (.inl ⟨hdog', Int.not_le.mp hdue, rfl, rfl⟩)

/-- A batch of load PDUs, as far as the watchdog and the loop condition go. -/
theorem foldl_accept (rxNow : Time) (hdrs : List LoadPDU) (u : UpTest) :
    (hdrs.foldl (fun u hdr => u.accept rxNow hdr) u).watchdog =
        (if hdrs = [] then u.watchdog else rxNow + watchdogTimeout) ∧
      (hdrs.foldl (fun u hdr => u.accept rxNow hdr) u).clientDone =
        (u.clientDone || hdrs.any fun hdr => decide (hdr.testAction ≠ testActionTest)) := by
  induction hdrs generalizing u with
  | nil => exact ⟨rfl, (Bool.or_false _).symm⟩
  | cons hdr hdrs ih =>
      obtain ⟨hdog, hdone⟩ := ih (u.accept rxNow hdr)
      refine ⟨?_, ?_⟩
      · rw [List.foldl_cons, hdog, if_neg (List.cons_ne_nil _ _)]
        split <;> rfl
      · rw [List.foldl_cons, hdone, List.any_cons, ← Bool.or_assoc]
        rfl

theorem foldl_accept_rc (rxNow : Time) (hdrs : List LoadPDU) (u : UpTest) :
    (hdrs.foldl (fun u hdr => u.accept rxNow hdr) u).rc = u.rc := by
  induction hdrs generalizing u with
  | nil => rfl
  | cons hdr hdrs ih => exact ih (u.accept rxNow hdr)

/-- Reading does not move the rate. -/
theorem absorb_rc {s : Session} {u u' : UpTest} {r : BatchRead} (h : u.absorb s r = .ok u') :
    u'.rc = u.rc := by
  cases r with
  | timeout t => cases h; rfl
  | failed t => cases h; rfl
  | batch rxNow msgs =>
      rw [absorb, receive_eq] at h
      cases h
      exact foldl_accept_rc rxNow _ u

/-- The turn at `now` sends a status message. -/
def reports (u : UpTest) (now : Time) : Bool :=
  decide (u.nextStatus ≤ now) && decide (now ≤ u.watchdog)

/-- `prepare` as a function: the row looked up and the bytes sent do not
enter the state. -/
def prepared (s : Session) (u : UpTest) (now : Time) : UpTest :=
  if u.watchdog < now then { u with running := false }
  else if u.nextStatus ≤ now then (u.mark now).reported s now
  else u.mark now

theorem prepare_prepared {srv : Server} {s : Session} {u u' : UpTest} {now wall : Time}
    {sent : Option Bytes} (h : u.prepare srv s now wall = .ok (u', sent)) :
    u' = u.prepared s now := by
  unfold prepared
  rcases prepare_cases h with ⟨hdog, rfl, -⟩ | ⟨hdog, hdue, rfl, -⟩ | ⟨hdog, hdue, rfl, -⟩
  · rw [if_pos hdog]
  · rw [if_neg (Int.not_lt.mpr hdog), if_neg (Int.not_le.mpr hdue)]
  · rw [if_neg (Int.not_lt.mpr hdog), if_pos hdue]

/-- The controller and the accounting change with a status message only. -/
theorem prepared_parts (s : Session) (u : UpTest) (now : Time) :
    (u.prepared s now).rc =
        (if u.reports now then u.rc.adjust u.a.trialInput else u.rc) ∧
      (u.prepared s now).a =
        if u.reports now then (u.rolledUp s now).resetTrial else u.a := by
  unfold prepared reports
  by_cases hdog : u.watchdog < now
  · rw [if_pos hdog, decide_eq_false (Int.not_le.mpr hdog), Bool.and_false]
    exact ⟨rfl, rfl⟩
  · rw [if_neg hdog, decide_eq_true (Int.not_lt.mp hdog), Bool.and_true]
    by_cases hdue : u.nextStatus ≤ now
    · rw [if_pos hdue, decide_eq_true hdue]
      exact ⟨rfl, rfl⟩
    · rw [if_neg hdue, decide_eq_false hdue]
      exact ⟨rfl, rfl⟩

end UpTest

end Diagd.Udpst
