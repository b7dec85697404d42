import Diagd.Lib.GoStd
import Diagd.Lib.Patches

/-!
# The UDP Echo Plus responder (`echo.go`, `echo_linux.go`)

`Serve` reads datagrams into one buffer, accounts for the drops the kernel
reports with them, and sends the buffer back with sixteen bytes rewritten in
place. A datagram of the model comes with what the outside decides: the
times at which the clock is read and whether the reply can be sent.

`unix.ParseSocketControlMessage` is a parameter; a result `none` is its
error. The words in a control message are in the byte order of the machine,
which is little-endian here.
-/

namespace Diagd.Tr143

open GoStd GoSlice

/-! ## Layout -/

abbrev echoOffRespSN : Nat := 4
abbrev echoOffRecvTime : Nat := 8
abbrev echoOffReplyTime : Nat := 12
abbrev echoOffFailureCount : Nat := 16
abbrev echoPlusMinLen : Nat := 20

/-- The size of the buffer of `Serve`. -/
abbrev echoBufLen : Nat := 65536

/-! ## Control messages -/

/-- `unix.SocketControlMessage`. -/
structure ControlMessage where
  level : Int
  type : Int
  data : Bytes
  deriving DecidableEq, Repr

abbrev solSocket : Int := 1
abbrev scmTimestampNs : Int := 35
abbrev soRxqOvfl : Int := 40

/-- The `n` bytes at `off` as an unsigned word of the machine. -/
def wordAt (b : Bytes) (off n : Nat) : Nat := decodeBE (rd b off n).reverse

/-- `time.Time{}`. -/
abbrev zeroTime : Time := -62135596800 * second

/-- `time.Unix(ts.Unix())` for the `Timespec` at the start of the data. -/
def timespec (data : Bytes) : Time :=
  (Int64.ofNat (wordAt data 0 8)).toInt * second + (Int64.ofNat (wordAt data 8 8)).toInt

namespace ControlMessage

def isDrops (m : ControlMessage) : Bool :=
  m.level == solSocket && m.type == soRxqOvfl && decide (4 ≤ m.data.length)

def drops (m : ControlMessage) : UInt32 := UInt32.ofNat (wordAt m.data 0 4)

/-- The body of the loop of `parseRxControl`. -/
def note (acc : Time × UInt32) (m : ControlMessage) : Time × UInt32 :=
  if m.level ≠ solSocket then acc
  else if m.type = scmTimestampNs then
    if 16 ≤ m.data.length then (timespec m.data, acc.2) else acc
  else if m.type = soRxqOvfl then
    if 4 ≤ m.data.length then (acc.1, m.drops) else acc
  else acc

end ControlMessage

abbrev ParseControl := Bytes → Option (List ControlMessage)

def parseRxControl (parse : ParseControl) (oob : Bytes) : Option (Time × UInt32) :=
  (parse oob).map fun msgs => msgs.foldl ControlMessage.note (zeroTime, 0)

/-! ## The server -/

structure EchoConfig where
  /-- `none` permits all sources. -/
  allow : Option (Addr → Bool) := none

/-- The counters, and the buffer of `Serve`. -/
structure EchoServer where
  epoch : Time
  received : UInt64 := 0
  responses : UInt32 := 0
  failures : UInt32 := 0
  lastDrops : UInt32 := 0
  buf : Bytes := List.replicate echoBufLen 0

/-- A datagram and the outside of its processing. -/
structure Datagram where
  payload : Bytes
  oob : Bytes := []
  peer : AddrPort
  readAt : Time := 0
  replyAt : Time := 0
  sendFails : Bool := false

/-- What was passed to `WriteToUDPAddrPort`: the server `respond` was called
on, the request as it was received and the packet. -/
structure Echo where
  server : EchoServer
  request : Bytes
  packet : Bytes
  sent : Bool

def EchoConfig.allows (cfg : EchoConfig) (peer : AddrPort) : Bool :=
  match cfg.allow with
  | none => true
  | some allow => allow peer.addr.unmap

namespace EchoServer

def stamp (s : EchoServer) (t : Time) : UInt32 := UInt32.ofInt (Duration.microseconds (t - s.epoch))

/-- The packet as `respond` rewrites it. -/
def fill (s : EchoServer) (pkt : Bytes) (rxTime now : Time) : Except Panic Bytes :=
  if echoPlusMinLen ≤ pkt.length then do
    let pkt ← putU32 pkt echoOffRespSN (s.responses + 1)
    let pkt ← putU32 pkt echoOffRecvTime (s.stamp rxTime)
    let pkt ← putU32 pkt echoOffFailureCount s.failures
    putU32 pkt echoOffReplyTime (s.stamp now)
  else .ok pkt

/-- The counters after the packet was sent or not. -/
def replied (s : EchoServer) (pkt : Bytes) (sendFails : Bool) : EchoServer :=
  if sendFails then { s with failures := s.failures + 1 }
  else if echoPlusMinLen ≤ pkt.length then { s with responses := s.responses + 1 }
  else s

/-- `s.respond(pkt, peer, rxTime)`; the packet is part of the buffer. -/
def respond (s : EchoServer) (pkt : Bytes) (rxTime now : Time) (sendFails : Bool) :
    Except Panic (EchoServer × Bytes) := do
  let pkt ← s.fill pkt rxTime now
  return (s.replied pkt sendFails, pkt)

/-- The drop counter that came with a datagram. -/
def noteDrops (s : EchoServer) (drops : UInt32) : EchoServer :=
  { s with
    failures := if s.lastDrops < drops then s.failures + (drops - s.lastDrops) else s.failures
    lastDrops := if drops ≠ 0 ∨ s.lastDrops ≠ 0 then drops else s.lastDrops }

/-- The control messages of a datagram, and its receive time. -/
def noteControl (s : EchoServer) (parse : ParseControl) (d : Datagram) : EchoServer × Time :=
  if d.oob.length = 0 then (s, d.readAt)
  else
    match parseRxControl parse d.oob with
    | none => (s, d.readAt)
    | some (t, drops) => (s.noteDrops drops, if t = zeroTime then d.readAt else t)

/-- The socket's read into the buffer. -/
def readMsg (s : EchoServer) (d : Datagram) : EchoServer × Nat :=
  ({ s with buf := wr s.buf 0 d.payload }, min d.payload.length s.buf.length)

end EchoServer

/-- `Serve` with the packets it has passed to the socket. -/
structure EchoRun where
  server : EchoServer
  echoes : List Echo := []

/-- One iteration of the loop of `Serve`. -/
def EchoRun.serveOne (cfg : EchoConfig) (parse : ParseControl) (r : EchoRun) (d : Datagram) :
    Except Panic EchoRun := do
  let (s, n) := r.server.readMsg d
  let (s, rxTime) := s.noteControl parse d
  if cfg.allows d.peer then
    let s := { s with received := s.received + 1 }
    let request ← slice s.buf 0 n
    let (s', packet) ← s.respond request rxTime d.replyAt d.sendFails
    return { server := { s' with buf := wr s'.buf 0 packet }
             echoes := r.echoes ++ [⟨s, request, packet, !d.sendFails⟩] }
  else return { r with server := s }

/-- `Serve` up to the first error of the socket. -/
def EchoRun.serve (cfg : EchoConfig) (parse : ParseControl) (r : EchoRun) (ds : List Datagram) :
    Except Panic EchoRun :=
  ds.foldlM (EchoRun.serveOne cfg parse) r

def newEchoServer (now : Time) : EchoServer := { epoch := now }

/-! ## The packet -/

/-- The writes of `respond`, in their order. -/
def EchoServer.stamps (s : EchoServer) (rxTime now : Time) : List Patch :=
  [⟨echoOffRespSN, encodeBE 4 (s.responses + 1).toNat⟩,
    ⟨echoOffRecvTime, encodeBE 4 (s.stamp rxTime).toNat⟩,
    ⟨echoOffFailureCount, encodeBE 4 s.failures.toNat⟩,
    ⟨echoOffReplyTime, encodeBE 4 (s.stamp now).toNat⟩]

section Packet

variable {s : EchoServer} {pkt : Bytes} {rxTime now : Time}

theorem fill_plus (hlen : 20 ≤ pkt.length) :
    s.fill pkt rxTime now = .ok (patch pkt (s.stamps rxTime now)) := by
  have hwrites : Writes pkt.length (fun b => putU32 b echoOffRespSN (s.responses + 1) >>= fun b =>
      putU32 b echoOffRecvTime (s.stamp rxTime) >>= fun b =>
      putU32 b echoOffFailureCount s.failures >>= fun b =>
      putU32 b echoOffReplyTime (s.stamp now)) (s.stamps rxTime now) :=
    (writes_putU32 (hlen.trans' (by decide))).step <|
      (writes_putU32 (hlen.trans' (by decide))).step <|
      (writes_putU32 (hlen.trans' (by decide))).step <| writes_putU32 (hlen.trans' (by decide))
  rw [EchoServer.fill, if_pos hlen]
  exact hwrites pkt rfl

theorem fill_plain (hlen : pkt.length < 20) : s.fill pkt rxTime now = .ok pkt := by
  rw [EchoServer.fill, if_neg (not_le.mpr hlen)]

/-- What a reply is to its request: the same length, other bytes only in the
four words of an Echo Plus packet, of which two are counters. -/
structure Echo.Framed (e : Echo) : Prop where
  length : e.packet.length = e.request.length
  outside : ∀ i, e.request.length < 20 ∨ i < 4 ∨ 20 ≤ i → e.packet[i]? = e.request[i]?
  number : 20 ≤ e.request.length → u32At e.packet 4 = e.server.responses + 1
  failures : 20 ≤ e.request.length → u32At e.packet 16 = e.server.failures

theorem stamps_spans : (s.stamps rxTime now).map Patch.span = [(4, 4), (8, 4), (16, 4), (12, 4)] := by
  simp [EchoServer.stamps, Patch.span]

theorem framed_of_patch (hlen : 20 ≤ pkt.length) (sent : Bool) :
    (Echo.mk s pkt (patch pkt (s.stamps rxTime now)) sent).Framed := by
  have htiled : Tiled pkt.length ((s.stamps rxTime now).map Patch.span) := by
    rw [stamps_spans]
    refine ⟨?_, by decide⟩
    intro span hspan
    fin_cases hspan <;> simp only <;> omega
  have hshows := shows_patch htiled
  refine ⟨patch_length _ _, ?_, fun _ => ?_, fun _ => ?_⟩
  · intro i hi
    have hout : i < 4 ∨ 20 ≤ i := hi.resolve_left (not_lt.mpr hlen)
    apply getElem?_patch_of_not_covered
    · intro w hw
      exact htiled.within w.span (List.mem_map_of_mem hw)
    · rw [stamps_spans]
      rintro ⟨span, hspan, hlo, hhi⟩
      fin_cases hspan <;> simp only at hlo hhi <;> omega
  · rw [← rd_eq_encodeU32 (by rw [patch_length]; omega)]
    exact hshows ⟨4, encodeBE 4 (s.responses + 1).toNat⟩ List.mem_cons_self
  · rw [← rd_eq_encodeU32 (by rw [patch_length]; omega)]
    exact hshows ⟨16, encodeBE 4 s.failures.toNat⟩ (by simp [EchoServer.stamps])

/-- `respond` does not panic. -/
theorem respond_spec (s : EchoServer) (pkt : Bytes) (rxTime now : Time) (sendFails sent : Bool) :
    ∃ packet, s.respond pkt rxTime now sendFails = .ok (s.replied packet sendFails, packet) ∧
      (Echo.mk s pkt packet sent).Framed := by
  by_cases hlen : 20 ≤ pkt.length
  · refine ⟨patch pkt (s.stamps rxTime now), ?_, framed_of_patch hlen sent⟩
    rw [EchoServer.respond, fill_plus hlen]
    rfl
  · refine ⟨pkt, ?_, rfl, fun _ _ => rfl, fun h => absurd h hlen, fun h => absurd h hlen⟩
    rw [EchoServer.respond, fill_plain (not_le.mp hlen)]
    rfl

end Packet

/-! ## What an iteration can do -/

/-- What the buffer holds of a datagram. -/
def Datagram.request (d : Datagram) : Bytes := d.payload.take echoBufLen

/-- The server after the read and the control messages. -/
def EchoServer.noted (s : EchoServer) (parse : ParseControl) (d : Datagram) : EchoServer :=
  ((s.readMsg d).1.noteControl parse d).1

/-- The server `respond` is called on. -/
def EchoServer.accepted (s : EchoServer) (parse : ParseControl) (d : Datagram) : EchoServer :=
  { s.noted parse d with received := (s.noted parse d).received + 1 }

inductive Serves (cfg : EchoConfig) (parse : ParseControl) (r : EchoRun) (d : Datagram) :
    EchoRun → Prop where
  | ignored (hdeny : cfg.allows d.peer = false) :
      Serves cfg parse r d { r with server := r.server.noted parse d }
  | echoed {packet : Bytes} (hallow : cfg.allows d.peer = true)
      (hframed : (Echo.mk (r.server.accepted parse d) d.request packet !d.sendFails).Framed) :
      Serves cfg parse r d
        { server := { (r.server.accepted parse d).replied packet d.sendFails with
                      buf := wr ((r.server.accepted parse d).replied packet d.sendFails).buf 0 packet }
          echoes := r.echoes ++ [⟨r.server.accepted parse d, d.request, packet, !d.sendFails⟩] }

section Serve

variable {cfg : EchoConfig} {parse : ParseControl} {s : EchoServer} {r r' : EchoRun} {d : Datagram}

/-- The control messages only touch the two drop counters. -/
theorem noted_frame (s : EchoServer) (parse : ParseControl) (d : Datagram) :
    (s.noted parse d).received = s.received ∧ (s.noted parse d).responses = s.responses ∧
      (s.noted parse d).buf = wr s.buf 0 d.payload := by
  unfold EchoServer.noted EchoServer.noteControl
  split
  · exact ⟨rfl, rfl, rfl⟩
  · split <;> exact ⟨rfl, rfl, rfl⟩

theorem replied_frame (s : EchoServer) (pkt : Bytes) (sendFails : Bool) :
    (s.replied pkt sendFails).received = s.received ∧ (s.replied pkt sendFails).buf = s.buf ∧
      (s.replied pkt sendFails).lastDrops = s.lastDrops := by
  unfold EchoServer.replied
  split
  · exact ⟨rfl, rfl, rfl⟩
  · split <;> exact ⟨rfl, rfl, rfl⟩

/-- The slice `buf[:n]` is the datagram just read. -/
theorem slice_read (b payload : Bytes) :
    slice (wr b 0 payload) 0 (min payload.length b.length) = .ok (payload.take b.length) := by
  rw [slice, if_pos ⟨Nat.zero_le _, by simp⟩]
  congr 1
  rw [sub, rd, wr, List.drop_zero, List.take_zero, List.nil_append, Nat.sub_zero, Nat.sub_zero]
  exact List.take_left' (by rw [List.length_take, Nat.min_comm])

/-- **An iteration of `Serve` returns**, and does one of two things. -/
theorem serveOne_spec (cfg : EchoConfig) (parse : ParseControl)
    (hbuf : r.server.buf.length = echoBufLen) (d : Datagram) :
    ∃ r', r.serveOne cfg parse d = .ok r' ∧ Serves cfg parse r d r' := by
  obtain ⟨-, -, hread⟩ := noted_frame r.server parse d
  have hslice : slice (r.server.accepted parse d).buf 0 (r.server.readMsg d).2 = .ok d.request := by
    rw [EchoServer.accepted, hread, EchoServer.readMsg, slice_read, hbuf]
    rfl
  unfold EchoRun.serveOne
  cases hallow : cfg.allows d.peer with
  | false => exact ⟨_, rfl, .ignored hallow⟩
  | true =>
      obtain ⟨packet, hrespond, hframed⟩ := respond_spec (r.server.accepted parse d) d.request
        ((r.server.readMsg d).1.noteControl parse d).2 d.replyAt d.sendFails (!d.sendFails)
      refine ⟨_, ?_, .echoed hallow hframed⟩
      change (slice (r.server.accepted parse d).buf 0 (r.server.readMsg d).2 >>= fun request =>
        (r.server.accepted parse d).respond request
          ((r.server.readMsg d).1.noteControl parse d).2 d.replyAt d.sendFails >>= _) = _
      rw [hslice, ok_bind, hrespond, ok_bind]
      rfl

theorem Serves.buf_length (hbuf : r.server.buf.length = echoBufLen)
    (h : Serves cfg parse r d r') : r'.server.buf.length = echoBufLen := by
  obtain ⟨-, -, hread⟩ := noted_frame r.server parse d
  cases h with
  | ignored _ => simp [hread, hbuf]
  | echoed _ _ => simp [(replied_frame _ _ _).2.1, EchoServer.accepted, hread, hbuf]

theorem serve_snoc {ds : List Datagram} {r₀ : EchoRun} (hbuf : r.server.buf.length = echoBufLen)
    (hserve : EchoRun.serve cfg parse r₀ ds = .ok r) (d : Datagram) :
    ∃ r', EchoRun.serve cfg parse r₀ (ds ++ [d]) = .ok r' ∧ Serves cfg parse r d r' := by
  obtain ⟨r', hone, hserves⟩ := serveOne_spec cfg parse hbuf d
  refine ⟨r', ?_, hserves⟩
  unfold EchoRun.serve at hserve ⊢
  rw [List.foldlM_append, hserve]
  simpa using hone

/-- The induction over a run of `Serve`. -/
theorem serve_induction (cfg : EchoConfig) (parse : ParseControl) (t₀ : Time)
    {P : List Datagram → EchoRun → Prop} (h0 : P [] { server := newEchoServer t₀ })
    (hstep : ∀ ds r d r', P ds r → Serves cfg parse r d r' → P (ds ++ [d]) r')
    (ds : List Datagram) :
    ∃ r, EchoRun.serve cfg parse { server := newEchoServer t₀ } ds = .ok r ∧
      r.server.buf.length = echoBufLen ∧ P ds r := by
  induction ds using List.reverseRecOn with
  | nil => exact ⟨_, rfl, List.length_replicate, h0⟩
  | append_singleton ds d ih =>
      obtain ⟨r, hserve, hbuf, hr⟩ := ih
      obtain ⟨r', hserve', hserves⟩ := serve_snoc hbuf hserve d
      exact ⟨r', hserve', hserves.buf_length hbuf, hstep ds r d r' hr hserves⟩

end Serve

end Diagd.Tr143
