import Diagd.Lib.Transition
import Diagd.Tr143.Live
import Diagd.Tr143.Request

/-!
# The HTTP handler (`http.go`)

Any number of requests are served at the same time over one handler. A
request is a thread: it acquires a slot or is turned away, moves its data
with one `Write` or `Read` at a time, each with an arbitrary outcome, and
then runs its bookkeeping and its deferred calls in their order. Every step
of a thread is one atomic access to what the requests share (the semaphore
with the count of active transfers, a counter, the live registry).

A thread also keeps what the results are about: how often it has acquired
and released, and what its calls of `Write` and `Read` returned.
-/

namespace Diagd.Tr143

open GoStd

/-- `len(payloadBlock)`. -/
abbrev payloadBlockLen : Int64 := 1048576

/-! ## The handler -/

inductive LogLine where
  | rejected (reason peer ref : String)
  | event (msg test peer ref : String) (bytes : Int64) (durationMS : Int)
  deriving DecidableEq, Repr

structure HTTPHandler where
  /-- The tokens in the channel; `none` is the nil channel. -/
  sem : Option Nat
  downloads : UInt64 := 0
  uploads : UInt64 := 0
  rejects : UInt64 := 0
  bytesSent : UInt64 := 0
  bytesReceived : UInt64 := 0
  active : Int64 := 0
  liveReg : LiveRegistry := {}
  log : List LogLine := []
  deriving DecidableEq, Repr

def newHTTPHandler (cfg : HTTPConfig) : HTTPHandler where
  sem := if 0 < cfg.maxConcurrent then some 0 else none

/-- The three tests, by the names they are logged with. -/
inductive Test where
  | httpDownload | httpDownloadTimed | httpUpload
  deriving DecidableEq, Repr

def Test.name : Test → String
  | .httpDownload => "http_download"
  | .httpDownloadTimed => "http_download_timed"
  | .httpUpload => "http_upload"

def Test.isDownload : Test → Bool
  | .httpDownload | .httpDownloadTimed => true
  | .httpUpload => false

namespace HTTPHandler

/-- `h.acquire(w, r)`, without the reply. -/
def acquire (h : HTTPHandler) (cfg : HTTPConfig) (r : Request) : HTTPHandler × Bool :=
  match h.sem with
  | none => ({ h with active := h.active + 1 }, true)
  | some k =>
      if (k : Int) < cfg.maxConcurrent.toInt then
        ({ h with sem := some (k + 1), active := h.active + 1 }, true)
      else
        ({ h with rejects := h.rejects + 1,
                  log := h.log ++ [.rejected "capacity" r.remoteAddr r.ref] }, false)

/-- `h.release()`; it blocks on an empty channel. -/
def release (h : HTTPHandler) : Option HTTPHandler :=
  match h.sem with
  | none => some { h with active := h.active - 1 }
  | some 0 => none
  | some (k + 1) => some { h with sem := some k, active := h.active - 1 }

def event (h : HTTPHandler) (r : Request) (test : Test) (complete : Bool) (bytes : Int64)
    (start now : Time) : HTTPHandler :=
  { h with log := h.log ++ [.event (if complete then "test complete" else "test ended by client")
      test.name r.remoteAddr r.ref bytes (Duration.milliseconds (now - start))] }

/-- `h.downloads.Add(1)` or `h.uploads.Add(1)`. -/
def count (h : HTTPHandler) (test : Test) : HTTPHandler :=
  if test.isDownload then { h with downloads := h.downloads + 1 }
  else { h with uploads := h.uploads + 1 }

/-- `h.bytesSent.Add(uint64(n))` or `h.bytesReceived.Add(uint64(n))`. -/
def addBytes (h : HTTPHandler) (test : Test) (n : Int64) : HTTPHandler :=
  if test.isDownload then { h with bytesSent := h.bytesSent + n.toUInt64 }
  else { h with bytesReceived := h.bytesReceived + n.toUInt64 }

end HTTPHandler

/-! ## Threads -/

/-- A transfer that has begun: its start and its entry in the registry. -/
structure Transfer where
  test : Test
  start : Time
  lt : UInt64
  deriving DecidableEq, Repr

/-- What the loop of a download waits for. -/
inductive Goal where
  | size (n : Int64)
  | deadline (t : Time)
  deriving DecidableEq, Repr

/-- A transfer that has moved its data. -/
structure Result where
  xfer : Transfer
  bytes : Int64
  complete : Bool
  deriving DecidableEq, Repr

/-- How a request ended; a HEAD request was served without a transfer. -/
inductive Outcome where
  | answered (reply : Reply)
  | rejected (reply : Reply)
  | served (result : Option Result)
  deriving DecidableEq, Repr

/-- Where a request is. From `admitted` to `releasing` it holds a slot. -/
inductive Stage where
  | called
  | admitted (plan : Plan)
  | looping (goal : Goal) (sent : Int64) (xfer : Transfer)
  | writing (goal : Goal) (sent n : Int64) (xfer : Transfer)
  | copying (written counted : Int64) (xfer : Transfer)
  | counting (result : Result)
  | adding (result : Result)
  | closing (result : Result)
  | releasing (result : Option Result)
  | ended (outcome : Outcome)
  deriving DecidableEq, Repr

namespace Stage

/-- Between `acquire` and `release`. -/
def holds : Stage → Bool
  | .called | .ended _ => false
  | .admitted _ | .looping _ _ _ | .writing _ _ _ _ | .copying _ _ _ | .counting _ | .adding _
  | .closing _ | .releasing _ => true

def isEnded : Stage → Bool
  | .ended _ => true
  | .called | .admitted _ | .looping _ _ _ | .writing _ _ _ _ | .copying _ _ _ | .counting _
  | .adding _ | .closing _ | .releasing _ => false

/-- Refused for capacity. -/
def isRejected : Stage → Bool
  | .ended (.rejected _) => true
  | _ => false

end Stage

structure Thread where
  req : Request
  stage : Stage := .called
  headers : List (String × String) := []
  acquires : Nat := 0
  releases : Nat := 0
  writes : List Int64 := []
  reads : List Int64 := []
  deriving DecidableEq, Repr

/-- What `Read` returns besides a count. -/
inductive ReadResult where
  | more | eof | failed
  deriving DecidableEq, Repr

inductive Act where
  | serve
  | begin
  | check
  | write (wrote : Int64) (failed : Bool)
  | read (n : Int64) (res : ReadResult)
  | proceed
  deriving DecidableEq, Repr

/-- The headers set before the data. -/
def Plan.headers : Plan → List (String × String)
  | .sized size =>
      [("Content-Type", "application/octet-stream"), ("Content-Length", toString size.toInt),
        ("Connection", "close")]
  | .timed _ => [("Content-Type", "application/octet-stream"), ("Connection", "close")]
  | .upload => []

/-- The argument `complete` of `event`, after the loop was left. -/
def Goal.complete (goal : Goal) (sent : Int64) (failed : Bool) : Bool :=
  match goal with
  | .size n => sent == n
  | .deadline _ => !failed

/-- The block for the next `Write`. -/
def Goal.block (goal : Goal) (sent : Int64) : Int64 :=
  match goal with
  | .size n => if n - sent < payloadBlockLen then n - sent else payloadBlockLen
  | .deadline _ => payloadBlockLen

/-- The condition of the loop. -/
def Goal.unmet (goal : Goal) (sent : Int64) (now : Time) : Bool :=
  match goal with
  | .size n => decide (sent < n)
  | .deadline t => decide (now < t)

namespace Thread

variable (cfg : HTTPConfig) (h : HTTPHandler) (t : Thread) (now : Time)

/-- `ServeHTTP` and `acquire`. -/
def serve : HTTPHandler × Thread :=
  match cfg.serveHTTP t.req with
  | .error reply => (h, { t with stage := .ended (.answered reply) })
  | .ok plan =>
      match h.acquire cfg t.req with
      | (h', true) =>
          (h', { t with stage := .admitted plan, headers := plan.headers,
                        acquires := t.acquires + 1 })
      | (h', false) =>
          (h', { t with stage := .ended (.rejected (httpError "test capacity exceeded" 503)) })

/-- `h.liveReg.begin(test, ref, r.RemoteAddr)` at the start of the transfer. -/
def register (test : Test) (stage : Transfer → Stage) : HTTPHandler × Thread :=
  ({ h with liveReg := (h.liveReg.begin now test.name t.req.ref t.req.remoteAddr).1 },
    { t with stage := stage { test := test, start := now, lt := h.liveReg.seq + 1 } })

/-- From the slot to the transfer; a HEAD request ends here. -/
def start : Plan → HTTPHandler × Thread
  | .sized size =>
      if t.req.method = .head then (h, { t with stage := .releasing none })
      else register h t now .httpDownload (.looping (.size size) 0)
  | .timed d =>
      if t.req.method = .head then (h, { t with stage := .releasing none })
      else register h t now .httpDownloadTimed (.looping (.deadline (now + d)) 0)
  | .upload => register h t now .httpUpload (.copying 0 0)

/-- The loop condition. A negative block is a panic of the slice expression,
which runs the deferred calls as the end of the loop does. -/
def check (goal : Goal) (sent : Int64) (xfer : Transfer) : Thread :=
  if goal.unmet sent now && decide (0 ≤ goal.block sent) then
    { t with stage := .writing goal sent (goal.block sent) xfer }
  else { t with stage := .counting ⟨xfer, sent, goal.complete sent false⟩ }

/-- `lt.bytes.Store(n)`. -/
def stored (xfer : Transfer) (n : Int64) : HTTPHandler :=
  { h with liveReg := h.liveReg.store xfer.lt n }

/-- `w.Write` has returned. -/
def wrote (goal : Goal) (sent : Int64) (xfer : Transfer) (n : Int64) (failed : Bool) :
    HTTPHandler × Thread :=
  (stored h xfer (sent + n),
    { t with
      writes := t.writes ++ [n]
      stage :=
        if failed then .counting ⟨xfer, sent + n, goal.complete (sent + n) true⟩
        else .looping goal (sent + n) xfer })

/-- `c.r.Read` has returned; `io.Copy` goes on until an error, of which
`io.EOF` is none to its caller. -/
def read (written counted : Int64) (xfer : Transfer) (n : Int64) (res : ReadResult) :
    HTTPHandler × Thread :=
  (stored h xfer (counted + n),
    { t with
      reads := t.reads ++ [n]
      stage :=
        match res with
        | .more => .copying (written + n) (counted + n) xfer
        | .eof => .counting ⟨xfer, written + n, true⟩
        | .failed => .counting ⟨xfer, written + n, false⟩ })

/-- One step of a request; `none` where the action is not next. -/
def act (a : Act) : Option (HTTPHandler × Thread) :=
  match t.stage, a with
  | .called, .serve => some (serve cfg h t)
  | .admitted plan, .begin => some (start h t now plan)
  | .looping goal sent xfer, .check => some (h, check t now goal sent xfer)
  | .writing goal sent _ xfer, .write n failed => some (wrote h t goal sent xfer n failed)
  | .copying written counted xfer, .read n res => some (read h t written counted xfer n res)
  | .counting r, .proceed => some (h.count r.xfer.test, { t with stage := .adding r })
  | .adding r, .proceed =>
      some ((h.addBytes r.xfer.test r.bytes).event t.req r.xfer.test r.complete r.bytes
          r.xfer.start now, { t with stage := .closing r })
  | .closing r, .proceed =>
      some ({ h with liveReg := h.liveReg.complete now r.xfer.lt },
        { t with stage := .releasing (some r) })
  | .releasing result, .proceed =>
      h.release.map fun h' =>
        (h', { t with stage := .ended (.served result), releases := t.releases + 1 })
  | _, _ => none

end Thread

/-! ## What a step can do -/

/-- The steps of a request with their guards, and what they do to the
handler. -/
inductive Moves (cfg : HTTPConfig) (h : HTTPHandler) (t : Thread) (now : Time) :
    HTTPHandler → Thread → Prop where
  | answered {reply : Reply} (hstage : t.stage = .called)
      (hserve : cfg.serveHTTP t.req = .error reply) :
      Moves cfg h t now h { t with stage := .ended (.answered reply) }
  | admitted {plan : Plan} {h' : HTTPHandler} (hstage : t.stage = .called)
      (hserve : cfg.serveHTTP t.req = .ok plan) (hacquire : h.acquire cfg t.req = (h', true)) :
      Moves cfg h t now h' { t with stage := .admitted plan, headers := plan.headers,
                                    acquires := t.acquires + 1 }
  | rejected {plan : Plan} {h' : HTTPHandler} {reply : Reply} (hstage : t.stage = .called)
      (hserve : cfg.serveHTTP t.req = .ok plan) (hacquire : h.acquire cfg t.req = (h', false)) :
      Moves cfg h t now h' { t with stage := .ended (.rejected reply) }
  | headed {plan : Plan} (hstage : t.stage = .admitted plan) (hmethod : t.req.method = .head) :
      Moves cfg h t now h { t with stage := .releasing none }
  | download {plan : Plan} {goal : Goal} {test : Test} (hstage : t.stage = .admitted plan)
      (hplan : plan ≠ .upload) (hmethod : t.req.method ≠ .head) (htest : test.isDownload = true) :
      Moves cfg h t now (Thread.register h t now test (.looping goal 0)).1
        (Thread.register h t now test (.looping goal 0)).2
  | upload (hstage : t.stage = .admitted .upload) :
      Moves cfg h t now (Thread.register h t now .httpUpload (.copying 0 0)).1
        (Thread.register h t now .httpUpload (.copying 0 0)).2
  | continued {goal : Goal} {sent n : Int64} {xfer : Transfer}
      (hstage : t.stage = .looping goal sent xfer) :
      Moves cfg h t now h { t with stage := .writing goal sent n xfer }
  | left {goal : Goal} {sent : Int64} {xfer : Transfer} {complete : Bool}
      (hstage : t.stage = .looping goal sent xfer) :
      Moves cfg h t now h { t with stage := .counting ⟨xfer, sent, complete⟩ }
  | wrote {goal : Goal} {sent k : Int64} {xfer : Transfer} (n : Int64)
      (hstage : t.stage = .writing goal sent k xfer) :
      Moves cfg h t now (Thread.stored h xfer (sent + n))
        { t with writes := t.writes ++ [n], stage := .looping goal (sent + n) xfer }
  | writeFailed {goal : Goal} {sent k : Int64} {xfer : Transfer} {complete : Bool} (n : Int64)
      (hstage : t.stage = .writing goal sent k xfer) :
      Moves cfg h t now (Thread.stored h xfer (sent + n))
        { t with writes := t.writes ++ [n], stage := .counting ⟨xfer, sent + n, complete⟩ }
  | read {written counted : Int64} {xfer : Transfer} (n : Int64)
      (hstage : t.stage = .copying written counted xfer) :
      Moves cfg h t now (Thread.stored h xfer (counted + n))
        { t with reads := t.reads ++ [n], stage := .copying (written + n) (counted + n) xfer }
  | readLast {written counted : Int64} {xfer : Transfer} {complete : Bool} (n : Int64)
      (hstage : t.stage = .copying written counted xfer) :
      Moves cfg h t now (Thread.stored h xfer (counted + n))
        { t with reads := t.reads ++ [n], stage := .counting ⟨xfer, written + n, complete⟩ }
  | counted {r : Result} (hstage : t.stage = .counting r) :
      Moves cfg h t now (h.count r.xfer.test) { t with stage := .adding r }
  | added {r : Result} (hstage : t.stage = .adding r) :
      Moves cfg h t now ((h.addBytes r.xfer.test r.bytes).event t.req r.xfer.test r.complete r.bytes
        r.xfer.start now) { t with stage := .closing r }
  | closed {r : Result} (hstage : t.stage = .closing r) :
      Moves cfg h t now { h with liveReg := h.liveReg.complete now r.xfer.lt }
        { t with stage := .releasing (some r) }
  | released {result : Option Result} {h' : HTTPHandler} (hstage : t.stage = .releasing result)
      (hrelease : h.release = some h') :
      Moves cfg h t now h' { t with stage := .ended (.served result), releases := t.releases + 1 }

section Inversion

variable {cfg : HTTPConfig} {h h' : HTTPHandler} {t t' : Thread} {now : Time}

theorem moves_of_serve (hstage : t.stage = .called) (hserve : t.serve cfg h = (h', t')) :
    Moves cfg h t now h' t' := by
  unfold Thread.serve at hserve
  split at hserve
  · next hreply =>
      cases hserve
      exact .answered hstage hreply
  · next hplan =>
      split at hserve
      · next hacquire =>
          cases hserve
          exact .admitted hstage hplan hacquire
      · next hacquire =>
          cases hserve
          exact .rejected hstage hplan hacquire

theorem moves_of_start {plan : Plan} (hstage : t.stage = .admitted plan)
    (hstart : t.start h now plan = (h', t')) : Moves cfg h t now h' t' := by
  unfold Thread.start at hstart
  split at hstart
  · split at hstart
    · next hmethod =>
        cases hstart
        exact .headed hstage hmethod
    · next hmethod =>
        cases hstart
        exact .download hstage nofun hmethod rfl
  · split at hstart
    · next hmethod =>
        cases hstart
        exact .headed hstage hmethod
    · next hmethod =>
        cases hstart
        exact .download hstage nofun hmethod rfl
  · cases hstart
    exact .upload hstage

theorem moves_of_check {goal : Goal} {sent : Int64} {xfer : Transfer}
    (hstage : t.stage = .looping goal sent xfer) :
    Moves cfg h t now h (t.check now goal sent xfer) := by
  unfold Thread.check
  split
  · exact .continued hstage
  · exact .left hstage

theorem moves_of_wrote {goal : Goal} {sent k n : Int64} {xfer : Transfer} {failed : Bool}
    (hstage : t.stage = .writing goal sent k xfer)
    (hwrote : t.wrote h goal sent xfer n failed = (h', t')) : Moves cfg h t now h' t' := by
  cases hwrote
  cases failed with
  | true => exact .writeFailed n hstage
  | false => exact .wrote n hstage

theorem moves_of_read {written counted n : Int64} {xfer : Transfer} {res : ReadResult}
    (hstage : t.stage = .copying written counted xfer)
    (hread : t.read h written counted xfer n res = (h', t')) : Moves cfg h t now h' t' := by
  cases hread
  cases res with
  | more => exact .read n hstage
  | eof => exact .readLast n hstage
  | failed => exact .readLast n hstage

theorem moves_of_act {a : Act} (hact : t.act cfg h now a = some (h', t')) :
    Moves cfg h t now h' t' := by
  unfold Thread.act at hact
  split at hact
  · next hstage => exact moves_of_serve hstage (Option.some.inj hact)
  · next hstage => exact moves_of_start hstage (Option.some.inj hact)
  · next hstage =>
      cases hact
      exact moves_of_check hstage
  · next hstage => exact moves_of_wrote hstage (Option.some.inj hact)
  · next hstage => exact moves_of_read hstage (Option.some.inj hact)
  · next hstage =>
      cases hact
      exact .counted hstage
  · next hstage =>
      cases hact
      exact .added hstage
  · next hstage =>
      cases hact
      exact .closed hstage
  · next hstage =>
      obtain ⟨h'', hrelease, heq⟩ := Option.map_eq_some_iff.mp hact
      cases heq
      exact .released hstage hrelease
  · cases hact

end Inversion

/-! ## The server -/

/-- The handler with all requests ever made, and the time. -/
structure HTTPServer where
  clock : Time
  h : HTTPHandler
  threads : List Thread := []
  deriving DecidableEq, Repr

inductive HTTPEvent where
  | arrive (r : Request)
  | act (i : Nat) (now : Time) (a : Act)
  | live (now : Time) (order : IterOrder)

namespace HTTPServer

def init (cfg : HTTPConfig) (t₀ : Time) : HTTPServer where
  clock := t₀
  h := newHTTPHandler cfg

def step (cfg : HTTPConfig) (s : HTTPServer) : HTTPEvent → Option HTTPServer
  | .arrive r => some { s with threads := s.threads ++ [{ req := r }] }
  | .act i now a =>
      if s.clock ≤ now then
        (s.threads[i]?).bind fun t =>
          (t.act cfg s.h now a).map fun (h', t') =>
            { clock := now, h := h', threads := s.threads.set i t' }
      else none
  | .live now order =>
      if s.clock ≤ now then
        some { s with clock := now, h.liveReg := (s.h.liveReg.snapshot now order).1 }
      else none

end HTTPServer

end Diagd.Tr143
