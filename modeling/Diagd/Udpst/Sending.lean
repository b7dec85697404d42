import Diagd.Lib.Resumption
import Diagd.Udpst.Downstream
import Diagd.Udpst.RoundTrip

/-!
# Sending load datagrams (`sendLoop`'s `sendBurst`)

A burst is numbered, marshalled into the session's buffers and offered to
the kernel in batches. The kernel takes a first part of each batch, any part;
what it has not taken when it refuses is rolled back. `sendBurst` is a
program over the operations whose answers the code does not control: the
echo pointer, the clock, the random size and `WriteBatch`.

What one call does is said once, by the protocol `bursting`: it loads the
echo, reads the clock, makes a batch of datagrams (`Composed`), and offers
what the kernel has not accepted of it. There is one spec lemma for each of
the functions the call is made of; whatever else is known about a burst is a
view of this protocol.
-/

namespace Diagd.Udpst

open GoSlice GoStd Resumption

/-! ## Operations -/

inductive SendOp where
  /-- `echo.Load()` -/
  | loadEcho
  /-- `time.Now()` -/
  | now
  /-- `rand.Uint32N(n)`, which panics on 0 -/
  | rand (n : UInt32)
  /-- `bw.WriteBatch(msgs, 0)` -/
  | writeBatch (msgs : List Bytes)

/-- `WriteBatch` fails (`none`), or has accepted the first `n` messages. A
random number is below its bound. -/
abbrev SendOp.Res : SendOp → Type
  | .loadEcho => Option EchoState
  | .now => Time
  | .rand n => { r : UInt32 // 0 < n → r < n }
  | .writeBatch msgs => Option (Fin (msgs.length + 1))

abbrev sendSig : Sig := ⟨SendOp, SendOp.Res⟩

abbrev SendProg := Prog sendSig Panic

namespace Sending

abbrev loadEcho : SendProg (Option EchoState) := Prog.perform (S := sendSig) .loadEcho

abbrev timeNow : SendProg Time := Prog.perform (S := sendSig) .now

abbrev uint32N (n : UInt32) : SendProg { r : UInt32 // 0 < n → r < n } :=
  Prog.perform (S := sendSig) (.rand n)

abbrev writeBatch (msgs : List Bytes) : SendProg (Option (Fin (msgs.length + 1))) :=
  Prog.perform (S := sendSig) (.writeBatch msgs)

/-! ## State -/

/-- One of the buffers; with `randPayload` every seventh byte is filled. -/
def newBuffer (randPayload : Bool) : Bytes :=
  (List.range maxJPayloadSize).map fun j =>
    if randPayload ∧ loadHdrSize ≤ j ∧ (j - loadHdrSize) % 7 = 0 then UInt8.ofNat (j * 31) else 0

/-- What `sendLoop` keeps from burst to burst. -/
structure SendState where
  seq : UInt32 := 0
  bufs : List Bytes

def SendState.init (randPayload : Bool) : SendState where
  bufs := List.replicate (maxBurstSize + 1) (newBuffer randPayload)

/-- A burst in the making: `msgs` are the messages so far, `count` their
number. -/
structure Batch extends SendState where
  msgs : List Bytes := []

/-! ## The code -/

def minSize (ipv6 : Bool) : UInt32 :=
  if ipv6 then UInt32.ofNat (minPayloadSize - ipv6AddSize) else UInt32.ofNat minPayloadSize

abbrev maxSize : UInt32 := UInt32.ofNat maxJPayloadSize

/-- The two bounds of `add`. -/
def clampSize (ipv6 : Bool) (size : UInt32) : UInt32 :=
  let size := if size < minSize ipv6 then minSize ipv6 else size
  if maxSize < size then maxSize else size

/-- What a datagram echoes of the last status message: its two timestamps
and the response delay in milliseconds. -/
structure Echo where
  sec : UInt32 := 0
  nsec : UInt32 := 0
  respDelay : UInt16 := 0

def echoFields (es : Option EchoState) (now : Time) : Echo :=
  match es with
  | none => {}
  | some es =>
      let d := Duration.milliseconds (now - es.rxAt)
      { sec := es.sec
        nsec := es.nsec
        respDelay := if 0 ≤ d ∧ d < 65535 then UInt16.ofInt d else 65535 }

/-- The header of the next datagram, before its timestamp. -/
def loadHeader (action : UInt8) (echo : Echo) (seq size : UInt32) (now : Time) : LoadPDU where
  testAction := action
  seqNo := seq
  udpPayload := size.toUInt16
  spduTimeSec := echo.sec
  spduTimeNsec := echo.nsec
  timeSec := UInt32.ofInt (Time.unix now)
  timeNsec := UInt32.ofInt (Time.nanosecond now)
  rttRespDelay := echo.respDelay

/-- The closure `add`. -/
def addDatagram (ipv6 : Bool) (action : UInt8) (echo : Echo) (size : UInt32) (b : Batch) :
    SendProg Batch := do
  let now ← timeNow
  let buf ← Prog.lift (element b.bufs b.msgs.length)
  let buf ← Prog.lift
    ((loadHeader action echo (b.seq + 1) (clampSize ipv6 size) now).marshalInto buf)
  let msg ← Prog.lift (slice buf 0 (clampSize ipv6 size).toNat)
  return {
    seq := b.seq + 1
    bufs := b.bufs.set b.msgs.length buf
    msgs := b.msgs ++ [msg] }

/-- The size a field of the row stands for. -/
def fieldSize (ipv6 : Bool) (field : UInt32) : UInt32 :=
  let size := field &&& ~~~rateRandBit
  if ipv6 ∧ UInt32.ofNat ipv6AddSize < size then size - UInt32.ofNat ipv6AddSize else size

/-- The same, drawn at random below it when the field says so. -/
def chooseSize (ipv6 : Bool) (field : UInt32) : SendProg UInt32 :=
  if field &&& rateRandBit ≠ 0 ∧ minSize ipv6 < fieldSize ipv6 field then do
    let r ← uint32N (fieldSize ipv6 field - minSize ipv6 + 1)
    return minSize ipv6 + r.1
  else
    return fieldSize ipv6 field

/-- `for i := 0; i < burst; i++ { add(size) }`. -/
def addMany (ipv6 : Bool) (action : UInt8) (echo : Echo) (size : UInt32) :
    Nat → Batch → SendProg Batch
  | 0, b => return b
  | n + 1, b => do
      let b ← addDatagram ipv6 action echo size b
      addMany ipv6 action echo size n b

/-- The add-on datagram. -/
def addAddon (ipv6 : Bool) (action : UInt8) (echo : Echo) (addon : UInt32) (b : Batch) :
    SendProg Batch :=
  if 0 < addon then do
    let asize ← chooseSize ipv6 addon
    addDatagram ipv6 action echo asize b
  else
    return b

/-- `for sent < count`, with `msgs[sent:count]` as its argument; the result
is what the kernel did not accept, `count - sent`. -/
def writeAll : List Bytes → SendProg Nat
  | [] => return 0
  | m :: ms => do
      match ← writeBatch (m :: ms) with
      | none => return (m :: ms).length
      | some ⟨0, _⟩ => return (m :: ms).length
      | some ⟨n + 1, _⟩ => writeAll (ms.drop n)
termination_by msgs => msgs.length
decreasing_by simp

def sendBurst (ipv6 : Bool) (action : UInt8) (sizeField : UInt32) (burst : Nat) (addon : UInt32)
    (st : SendState) : SendProg SendState := do
  let es ← loadEcho
  let now ← timeNow
  let size ← chooseSize ipv6 sizeField
  let b ← addMany ipv6 action (echoFields es now) size burst { st with }
  let b ← addAddon ipv6 action (echoFields es now) addon b
  let unsent ← writeAll b.msgs
  -- roll back the sequence numbers the kernel did not accept
  return { seq := b.seq - UInt32.ofNat unsent, bufs := b.bufs }

/-- The calls `sendLoop` makes: the two transmitters of a row, and the stop
indication. -/
inductive Burst (t : RateTable) where
  | first (i : Fin t.rows.length)
  | second (i : Fin t.rows.length)
  | stop

def Burst.send {t : RateTable} (ipv6 : Bool) : Burst t → SendState → SendProg SendState
  | .first i => sendBurst ipv6 testActionTest t.rows[i].udpPayload1 t.rows[i].burstSize1.toNat 0
  | .second i => sendBurst ipv6 testActionTest t.rows[i].udpPayload2 t.rows[i].burstSize2.toNat
      t.rows[i].udpAddon2
  | .stop => sendBurst ipv6 testActionStop2 (minSize ipv6) 1 0

def sendBursts {t : RateTable} (ipv6 : Bool) : List (Burst t) → SendState → SendProg SendState
  | [], st => return st
  | c :: cs, st => do
      let st ← c.send ipv6 st
      sendBursts ipv6 cs st

/-! ## Datagrams -/

/-- The sequence number a datagram carries. -/
def seqNoOf (m : Bytes) : UInt32 := (LoadPDU.ofBytes m).seqNo

def actionOf (m : Bytes) : UInt8 := (LoadPDU.ofBytes m).testAction

/-- The datagram carries this echo. -/
structure Echoes (echo : Echo) (m : Bytes) : Prop where
  sec : (LoadPDU.ofBytes m).spduTimeSec = echo.sec
  nsec : (LoadPDU.ofBytes m).spduTimeNsec = echo.nsec
  respDelay : (LoadPDU.ofBytes m).rttRespDelay = echo.respDelay

/-- A datagram the receiver accepts, that states its own length, between the
bounds of its address family. -/
structure Sized (ipv6 : Bool) (m : Bytes) : Prop where
  load : IsLoad m
  payload : (LoadPDU.ofBytes m).udpPayload.toNat = m.length
  min : (minSize ipv6).toNat ≤ m.length
  max : m.length ≤ maxJPayloadSize

section Datagrams

theorem header_le_minSize (ipv6 : Bool) : loadHdrSize ≤ (minSize ipv6).toNat := by
  cases ipv6 <;> decide

theorem clampSize_bounds (ipv6 : Bool) (size : UInt32) :
    (minSize ipv6).toNat ≤ (clampSize ipv6 size).toNat ∧
      (clampSize ipv6 size).toNat ≤ maxJPayloadSize := by
  have hmin : minSize ipv6 ≤ maxSize := by cases ipv6 <;> decide
  have hmax : maxSize.toNat = maxJPayloadSize := rfl
  rw [UInt32.le_iff_toNat_le] at hmin
  simp only [clampSize]
  split_ifs with hlow hhigh hhigh <;> simp only [UInt32.lt_iff_toNat_lt] at * <;> omega

/-- The header over the start of a buffer, and the slice that is sent. -/
theorem marshalInto_slice {p : LoadPDU} {buf : Bytes} {size : Nat} (hp : p.Valid)
    (hmin : loadHdrSize ≤ size) (hmax : size ≤ buf.length) :
    ∃ buf', p.marshalInto buf = .ok buf' ∧ buf'.length = buf.length ∧
      slice buf' 0 size = .ok (sub buf' 0 size) ∧ (sub buf' 0 size).length = size ∧
      IsLoad (sub buf' 0 size) ∧ LoadPDU.ofBytes (sub buf' 0 size) = p := by
  have hroom : loadHdrSize ≤ buf.length := Nat.le_trans hmin hmax
  have hmarshal := writes_loadPDU p hroom buf rfl
  set buf' := patch buf (p.blocks ++ [⟨30, [0, 0]⟩]) with hbuf'
  have hlen : buf'.length = buf.length := patch_length _ _
  have hsub : (sub buf' 0 size).length = size := by
    rw [sub_length (by omega)]
    rfl
  have hparse : parseLoadHdr buf' = .ok (.ok p) := by
    have hinv := (load_inverse hroom).decode_encode p hp
    rwa [hmarshal, ok_bind] at hinv
  have hshows := ((parseLoadHdr_iff_shows (hlen.symm ▸ hroom)).mp hparse).2
  -- the header lies within the slice
  have hwithin : ∀ s ∈ p.blocks.map Patch.span, s.1 + s.2 ≤ size - 0 := by
    intro s hs
    rw [loadPDU_spans] at hs
    have hhdr : ∀ s ∈ [(0, 2), (2, 1), (3, 1), (4, 4), (8, 2), (10, 2), (12, 4), (16, 4), (20, 4),
        (24, 4), (28, 2)], s.1 + s.2 ≤ loadHdrSize := by decide
    exact Nat.le_trans (hhdr s hs) hmin
  have hslice : Shows (sub buf' 0 size) p.blocks := by
    rw [← shows_shift size hwithin]
    simpa using hshows
  obtain ⟨hload, hfields⟩ := parseLoadHdr_eq_ok.mp
    ((parseLoadHdr_iff_shows (hsub.symm ▸ hmin)).mpr ⟨hp, hslice⟩)
  exact ⟨buf', hmarshal, hlen, slice_ok (Nat.zero_le _) (by omega), hsub, hload, hfields.symm⟩

end Datagrams

/-! ## What a call does -/

/-- `n` numbers from `k + 1` on, modulo 2^32. -/
def numbers (k n : Nat) : List UInt32 := (List.range' (k + 1) n).map UInt32.ofNat

@[simp] theorem numbers_length (k n : Nat) : (numbers k n).length = n := by
  simp [numbers]

theorem numbers_add (k m n : Nat) : numbers k (m + n) = numbers k m ++ numbers (k + m) n := by
  rw [numbers, numbers, numbers, ← List.map_append, ← List.range'_append_1]
  congr 3
  omega

/-- How many messages an answer to `WriteBatch` accepts. -/
def taken {n : Nat} : Option (Fin (n + 1)) → Nat
  | none => 0
  | some i => i

theorem taken_le {n : Nat} (r : Option (Fin (n + 1))) : taken r ≤ n := by
  cases r with
  | none => exact Nat.zero_le n
  | some i => exact Nat.le_of_lt_succ i.2

/-- The payload a field of the row asks for, if it is not randomised. -/
def datagramSize (ipv6 : Bool) (field : UInt32) : Nat := (clampSize ipv6 (fieldSize ipv6 field)).toNat

/-- The payloads of a burst and its add-on. -/
def burstSizes (ipv6 : Bool) (sizeField : UInt32) (burst : Nat) (addon : UInt32) : List Nat :=
  List.replicate burst (datagramSize ipv6 sizeField) ++
    if 0 < addon then [datagramSize ipv6 addon] else []

/-- What `sendBurst` is called with. -/
structure Order where
  action : UInt8
  sizeField : UInt32
  burst : Nat
  addon : UInt32

namespace Order

def send (ipv6 : Bool) (w : Order) (st : SendState) : SendProg SendState :=
  sendBurst ipv6 w.action w.sizeField w.burst w.addon st

/-- The number of its datagrams. -/
def count (w : Order) : Nat := w.burst + if 0 < w.addon then 1 else 0

/-- No size is randomised. -/
def Plain (w : Order) : Prop := w.sizeField &&& rateRandBit = 0 ∧ w.addon &&& rateRandBit = 0

def sizes (ipv6 : Bool) (w : Order) : List Nat := burstSizes ipv6 w.sizeField w.burst w.addon

/-- The action is one of the protocol's, and the buffers suffice. -/
structure Fits (w : Order) : Prop where
  action : w.action ≤ testActionStop2
  burst : w.burst ≤ maxBurstSize

theorem Fits.count_le {w : Order} (h : w.Fits) : w.count ≤ maxBurstSize + 1 := by
  have hburst := h.burst
  unfold count
  split <;> omega

end Order

/-- The batch of a call with `k` datagrams accepted before it, which has
loaded `es` and read the clock as `at_`. -/
structure Composed (ipv6 : Bool) (w : Order) (k : Nat) (es : Option EchoState) (at_ : Time)
    (msgs : List Bytes) : Prop where
  numbered : msgs.map seqNoOf = numbers k msgs.length
  sized : ∀ m ∈ msgs, Sized ipv6 m
  marked : ∀ m ∈ msgs, actionOf m = w.action ∧ Echoes (echoFields es at_) m
  count : msgs.length = w.count
  sizes : w.Plain → msgs.map List.length = w.sizes ipv6

/-- How far a call has come: `j` datagrams of its batch are accepted. -/
inductive Progress where
  | begun
  | loaded (es : Option EchoState)
  | building (es : Option EchoState) (at_ : Time)
  | offering (es : Option EchoState) (at_ : Time) (batch : List Bytes) (j : Nat)

/-- The operations of a call, in their order. -/
def bursting (ipv6 : Bool) (w : Order) (k : Nat) : Protocol sendSig Progress where
  Allowed
    | .begun, .loadEcho => True
    | .loaded _, .now => True
    | .building _ _, .now => True
    | .building _ _, .rand n => 0 < n
    | .building es at_, .writeBatch msgs => Composed ipv6 w k es at_ msgs
    | .offering es at_ batch j, .writeBatch msgs =>
        Composed ipv6 w k es at_ batch ∧ j ≤ batch.length ∧ msgs = batch.drop j
    | _, _ => False
  next
    | .begun, .loadEcho, es => .loaded es
    | .loaded es, .now, at_ => .building es at_
    | .building es at_, .writeBatch msgs, r => .offering es at_ msgs (taken r)
    | .offering es at_ batch j, .writeBatch _, r => .offering es at_ batch (j + taken r)
    | st, _, _ => st

namespace Progress

/-- The datagrams of the call accepted so far. -/
def accepted : Progress → Nat
  | .offering _ _ _ j => j
  | .begun | .loaded _ | .building _ _ => 0

/-- A call that has returned has offered its batch, unless that was empty. -/
def Over (ipv6 : Bool) (w : Order) (k : Nat) : Progress → Prop
  | .offering es at_ batch j => Composed ipv6 w k es at_ batch ∧ j ≤ batch.length
  | .building _ _ => w.count = 0
  | .begun | .loaded _ => False

end Progress

/-- Between bursts: the next number follows the last one accepted. -/
structure Ready (k : Nat) (st : SendState) : Prop where
  seq : st.seq = UInt32.ofNat k
  bufs : st.bufs.length = maxBurstSize + 1
  sizes : ∀ buf ∈ st.bufs, buf.length = maxJPayloadSize

/-- While a batch is built. -/
structure Built (ipv6 : Bool) (w : Order) (k : Nat) (es : Option EchoState) (at_ : Time)
    (b : Batch) : Prop where
  ready : Ready (k + b.msgs.length) b.toSendState
  numbered : b.msgs.map seqNoOf = numbers k b.msgs.length
  sized : ∀ m ∈ b.msgs, Sized ipv6 m
  marked : ∀ m ∈ b.msgs, actionOf m = w.action ∧ Echoes (echoFields es at_) m

section Call

variable {ipv6 : Bool} {w : Order} {k : Nat} {es : Option EchoState} {at_ : Time} {b : Batch}
  {st : SendState}

/-- One more datagram keeps the batch in order if it has the next number. -/
theorem Built.snoc {msg buf : Bytes} (hb : Built ipv6 w k es at_ b)
    (hbuf : buf.length = maxJPayloadSize) (hmsg : seqNoOf msg = b.seq + 1)
    (hsized : Sized ipv6 msg)
    (hmarked : actionOf msg = w.action ∧ Echoes (echoFields es at_) msg) :
    Built ipv6 w k es at_ {
      seq := b.seq + 1
      bufs := b.bufs.set b.msgs.length buf
      msgs := b.msgs ++ [msg] } := by
  have hseq : b.seq + 1 = UInt32.ofNat (k + b.msgs.length + 1) := by
    rw [hb.ready.seq, UInt32.ofNat_add (k + b.msgs.length)]
    rfl
  have hcount : (b.msgs ++ [msg]).length = b.msgs.length + 1 := List.length_append
  refine ⟨⟨?_, ?_, ?_⟩, ?_, ?_, ?_⟩
  · rw [hcount]
    exact hseq
  · rw [List.length_set, hb.ready.bufs]
  · intro x hx
    rcases List.mem_or_eq_of_mem_set hx with hold | rfl
    · exact hb.ready.sizes x hold
    · exact hbuf
  · rw [hcount, numbers_add, List.map_append, hb.numbered, List.map_singleton, hmsg, hseq]
    rfl
  · exact List.forall_mem_append.mpr ⟨hb.sized, List.forall_mem_singleton.mpr hsized⟩
  · exact List.forall_mem_append.mpr ⟨hb.marked, List.forall_mem_singleton.mpr hmarked⟩

/-- One more datagram, of the size asked for within its bounds. -/
theorem addDatagram_conforms (haction : w.action ≤ testActionStop2) (size : UInt32)
    (hb : Built ipv6 w k es at_ b) (hroom : b.msgs.length ≤ maxBurstSize) :
    Conforms (bursting ipv6 w k) (.building es at_)
      (addDatagram ipv6 w.action (echoFields es at_) size b) fun b' p =>
        p = .building es at_ ∧ Built ipv6 w k es at_ b' ∧
          b'.msgs.map List.length = b.msgs.map List.length ++ [(clampSize ipv6 size).toNat] := by
  obtain ⟨hmin, hmax⟩ := clampSize_bounds ipv6 size
  obtain ⟨buf, hmem, hbuf⟩ := element_ok (Int.natCast_nonneg b.msgs.length)
    (show (b.msgs.length : Int) < b.bufs.length by rw [hb.ready.bufs]; omega)
  have hlen := hb.ready.sizes buf hmem
  refine Conforms.perform_bind trivial fun now => ?_
  rw [hbuf, Prog.lift_ok, Prog.ret_bind]
  obtain ⟨buf', hmarshal, hlen', hslice, hsize, hload, hfields⟩ :=
    marshalInto_slice
      (show (loadHeader w.action (echoFields es at_) (b.seq + 1) (clampSize ipv6 size) now).Valid from
        ⟨haction, UInt8.le_iff_toNat_le.mpr (Nat.zero_le 1)⟩)
      (Nat.le_trans (header_le_minSize ipv6) hmin) (hlen.symm ▸ hmax)
  rw [hmarshal, Prog.lift_ok, Prog.ret_bind, hslice, Prog.lift_ok, Prog.ret_bind]
  set msg := sub buf' 0 (clampSize ipv6 size).toNat
  refine Conforms.ret ⟨rfl, hb.snoc (hlen'.trans hlen) ?_ ⟨hload, ?_, ?_, ?_⟩ ⟨?_, ?_⟩, ?_⟩
  · rw [seqNoOf, hfields]
    rfl
  · rw [hfields, hsize]
    show (clampSize ipv6 size).toUInt16.toNat = _
    rw [UInt32.toNat_toUInt16]
    exact Nat.mod_eq_of_lt (Nat.lt_of_le_of_lt hmax (by decide))
  · exact hsize.symm ▸ hmin
  · exact hsize.symm ▸ hmax
  · rw [actionOf, hfields]
    rfl
  · refine ⟨?_, ?_, ?_⟩ <;> rw [hfields] <;> rfl
  · rw [List.map_append, List.map_singleton, hsize]

theorem addMany_conforms (haction : w.action ≤ testActionStop2) (size : UInt32) {n : Nat}
    (hb : Built ipv6 w k es at_ b) (hroom : b.msgs.length + n ≤ maxBurstSize + 1) :
    Conforms (bursting ipv6 w k) (.building es at_)
      (addMany ipv6 w.action (echoFields es at_) size n b) fun b' p =>
        p = .building es at_ ∧ Built ipv6 w k es at_ b' ∧ b'.msgs.map List.length =
          b.msgs.map List.length ++ List.replicate n (clampSize ipv6 size).toNat := by
  induction n generalizing b with
  | zero => exact Conforms.ret ⟨rfl, hb, by simp⟩
  | succ n ih =>
      refine Conforms.bind (addDatagram_conforms haction size hb (by omega)) ?_
      rintro b' _ ⟨rfl, hb', hsizes⟩
      have hcount := congrArg List.length hsizes
      simp only [List.length_append, List.length_map, List.length_singleton] at hcount
      have hrest := ih hb' (by omega)
      rwa [hsizes, List.append_assoc, List.singleton_append, ← List.replicate_succ] at hrest

/-- The random draw is never made from an empty range. -/
theorem chooseSize_conforms (field : UInt32) :
    Conforms (bursting ipv6 w k) (.building es at_) (chooseSize ipv6 field) fun size p =>
      p = .building es at_ ∧ (field &&& rateRandBit = 0 → size = fieldSize ipv6 field) := by
  unfold chooseSize
  split
  · rename_i hfield
    have hrange : 0 < fieldSize ipv6 field - minSize ipv6 + 1 := by
      have hlt := UInt32.lt_iff_toNat_lt.mp hfield.2
      have hmin : 32 ≤ (minSize ipv6).toNat := header_le_minSize ipv6
      have hsize := (fieldSize ipv6 field).toNat_lt
      rw [UInt32.lt_iff_toNat_lt, UInt32.toNat_add, UInt32.toNat_sub_of_le _ _ (by
        rw [UInt32.le_iff_toNat_le]; omega)]
      show 0 < (_ + 1) % 2 ^ 32
      omega
    exact Conforms.perform_bind hrange fun _ => Conforms.ret ⟨rfl, fun h => (hfield.1 h).elim⟩
  · exact Conforms.ret ⟨rfl, fun _ => rfl⟩

theorem addAddon_conforms (haction : w.action ≤ testActionStop2) (addon : UInt32)
    (hb : Built ipv6 w k es at_ b) (hroom : b.msgs.length ≤ maxBurstSize) :
    Conforms (bursting ipv6 w k) (.building es at_)
      (addAddon ipv6 w.action (echoFields es at_) addon b) fun b' p =>
        p = .building es at_ ∧ Built ipv6 w k es at_ b' ∧
          ∃ size, (addon &&& rateRandBit = 0 → size = fieldSize ipv6 addon) ∧
            b'.msgs.map List.length = b.msgs.map List.length ++
              if 0 < addon then [(clampSize ipv6 size).toNat] else [] := by
  unfold addAddon
  split
  · refine Conforms.bind (chooseSize_conforms addon) ?_
    rintro asize _ ⟨rfl, hasize⟩
    refine (addDatagram_conforms haction asize hb hroom).mono ?_
    rintro b' _ ⟨rfl, hb', hsizes⟩
    exact ⟨rfl, hb', asize, hasize, hsizes⟩
  · exact Conforms.ret ⟨rfl, hb, fieldSize ipv6 addon, fun _ => rfl, by simp⟩

/-- Offering what is left of the batch. -/
theorem offering_step {batch : List Bytes} {j : Nat} {p : Progress}
    (hbatch : Composed ipv6 w k es at_ batch) (hj : j ≤ batch.length)
    (hp : p = .building es at_ ∧ j = 0 ∨ p = .offering es at_ batch j) :
    (bursting ipv6 w k).Allowed p (.writeBatch (batch.drop j)) ∧
      ∀ r, (bursting ipv6 w k).next p (.writeBatch (batch.drop j)) r =
        .offering es at_ batch (j + taken r) := by
  rcases hp with ⟨rfl, rfl⟩ | rfl
  · exact ⟨hbatch, fun r => congrArg (Progress.offering es at_ batch) (Nat.zero_add _).symm⟩
  · exact ⟨⟨hbatch, hj, rfl⟩, fun _ => rfl⟩

/-- What is left of the batch is offered until all is accepted or nothing
more is. The induction is on what is left. -/
theorem writeAll_conforms {batch : List Bytes} {j : Nat} {p : Progress}
    (hbatch : Composed ipv6 w k es at_ batch) (hj : j ≤ batch.length)
    (hp : p = .building es at_ ∧ j = 0 ∨ p = .offering es at_ batch j) :
    Conforms (bursting ipv6 w k) p (writeAll (batch.drop j)) fun unsent p' =>
      p'.Over ipv6 w k ∧ p'.accepted + unsent = batch.length := by
  induction h : (batch.drop j).length using Nat.strong_induction_on generalizing j p with
  | _ len ih =>
      subst h
      cases hrest : batch.drop j with
      | nil =>
          rw [writeAll]
          have hall : j = batch.length :=
            Nat.le_antisymm hj (List.drop_eq_nil_iff.mp hrest)
          rcases hp with ⟨rfl, rfl⟩ | rfl
          · exact Conforms.ret ⟨hbatch.count.symm.trans hall.symm, hall⟩
          · exact Conforms.ret ⟨⟨hbatch, hj⟩, hall⟩
      | cons m ms =>
          have hleft : batch.length = j + (ms.length + 1) := by
            have hlen := congrArg List.length hrest
            rw [List.length_drop, List.length_cons] at hlen
            omega
          obtain ⟨hallowed, hnext⟩ := offering_step hbatch hj hp
          rw [hrest] at hallowed hnext
          rw [writeAll]
          refine Conforms.perform_bind hallowed fun r => ?_
          rw [hnext r]
          rcases r with _ | ⟨_ | n, hlt⟩
          · exact Conforms.ret ⟨⟨hbatch, hj⟩, hleft.symm⟩
          · exact Conforms.ret ⟨⟨hbatch, hj⟩, hleft.symm⟩
          · have hn : n ≤ ms.length := Nat.le_of_lt_succ (Nat.lt_of_succ_lt_succ hlt)
            have hdrop : ms.drop n = batch.drop (j + (n + 1)) := by
              rw [← List.drop_drop, hrest, List.drop_succ_cons]
            show Conforms (bursting ipv6 w k) (.offering es at_ batch (j + (n + 1))) (writeAll (ms.drop n)) _
            rw [hdrop]
            refine ih _ ?_ (by omega) (.inr rfl) rfl
            rw [← hdrop, hrest, List.length_drop, List.length_cons]
            omega

/-- **A call of `sendBurst`** makes its batch, offers it, and leaves the
numbering where the kernel stopped. -/
theorem sendBurst_conforms (hw : w.Fits) (hst : Ready k st) :
    Conforms (bursting ipv6 w k) .begun (w.send ipv6 st) fun st' p =>
      p.Over ipv6 w k ∧ Ready (k + p.accepted) st' := by
  have hburst := hw.burst
  refine Conforms.perform_bind trivial fun es => ?_
  refine Conforms.perform_bind trivial fun now => ?_
  have hempty : Built ipv6 w k es now { st with } := ⟨hst, rfl, by simp, by simp⟩
  refine Conforms.bind (chooseSize_conforms w.sizeField) ?_
  rintro size _ ⟨rfl, hsize⟩
  refine Conforms.bind (addMany_conforms hw.action size hempty ?_) ?_
  · simpa using Nat.le_succ_of_le hburst
  rintro b _ ⟨rfl, hb, hsizes⟩
  have hcount : b.msgs.length = w.burst := by simpa using congrArg List.length hsizes
  refine Conforms.bind (addAddon_conforms hw.action w.addon hb (hcount.symm ▸ hburst)) ?_
  rintro b' _ ⟨rfl, hb', asize, hasize, hsizes'⟩
  have hbatch : Composed ipv6 w k es now b'.msgs := by
    rw [hsizes, List.map_nil, List.nil_append] at hsizes'
    refine ⟨hb'.numbered, hb'.sized, hb'.marked, ?_, ?_⟩
    · have hlen := congrArg List.length hsizes'
      rw [List.length_map, List.length_append, List.length_replicate] at hlen
      rw [hlen, Order.count]
      split <;> rfl
    · rintro ⟨hfield, haddon⟩
      rw [hsizes', hsize hfield, hasize haddon]
      rfl
  refine Conforms.bind (writeAll_conforms hbatch (Nat.zero_le _) (.inl ⟨rfl, rfl⟩)) ?_
  rintro unsent p ⟨hover, hall⟩
  refine Conforms.ret ⟨hover, ?_, hb'.ready.bufs, hb'.ready.sizes⟩
  show b'.seq - UInt32.ofNat unsent = UInt32.ofNat (k + p.accepted)
  rw [hb'.ready.seq, ← hall, ← Nat.add_assoc, UInt32.ofNat_add, add_sub_cancel_right]

end Call

/-! ## The calls of the loop -/

namespace Burst

variable {t : RateTable}

def order (ipv6 : Bool) : Burst t → Order
  | .first i => ⟨testActionTest, t.rows[i].udpPayload1, t.rows[i].burstSize1.toNat, 0⟩
  | .second i => ⟨testActionTest, t.rows[i].udpPayload2, t.rows[i].burstSize2.toNat,
      t.rows[i].udpAddon2⟩
  | .stop => ⟨testActionStop2, minSize ipv6, 1, 0⟩

theorem send_eq (ipv6 : Bool) (c : Burst t) : c.send ipv6 = (c.order ipv6).send ipv6 := by
  cases c <;> rfl

theorem order_fits (ht : AllBounded t.rows) (ipv6 : Bool) (c : Burst t) : (c.order ipv6).Fits := by
  have htest : testActionTest ≤ testActionStop2 := by decide
  cases c with
  | first i => exact ⟨htest, (ht _ (List.getElem_mem i.2)).1⟩
  | second i => exact ⟨htest, (ht _ (List.getElem_mem i.2)).2⟩
  | stop => exact ⟨UInt8.le_refl testActionStop2, show 1 ≤ maxBurstSize by decide⟩

end Burst

theorem send_conforms {t : RateTable} (ht : AllBounded t.rows) {ipv6 : Bool} (c : Burst t) {k : Nat}
    {st : SendState} (hst : Ready k st) :
    Conforms (bursting ipv6 (c.order ipv6) k) .begun (c.send ipv6 st) fun st' p =>
      p.Over ipv6 (c.order ipv6) k ∧ Ready (k + p.accepted) st' := by
  rw [c.send_eq]
  exact sendBurst_conforms (c.order_fits ht ipv6) hst

theorem ready_init (randPayload : Bool) : Ready 0 (SendState.init randPayload) := by
  refine ⟨rfl, List.length_replicate, ?_⟩
  intro buf hbuf
  rw [(List.mem_replicate.mp hbuf).2, newBuffer, List.length_map, List.length_range]

end Sending

end Diagd.Udpst
