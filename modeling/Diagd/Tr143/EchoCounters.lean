import Diagd.Lib.Account
import Diagd.Lib.Transition
import Diagd.Tr143.Echo

/-!
# The counters of the Echo Plus responder

Over any run of `Serve`: the replies that were sent are numbered without a
gap and differ from their requests only in the four words of the format
(`echo_numbered`). The failure count has the failed sends, and the drops
the kernel reports up to the first time its 32-bit counter wraps
(`drops_counted_iff`).
-/

namespace Diagd.Tr143

open GoStd GoSlice Account

/-! ## Replies -/

/-- The Echo Plus replies that were sent. -/
def plusSent (echoes : List Echo) : List Echo :=
  echoes.filter fun e => e.sent && decide (20 ≤ e.request.length)

theorem plusSent_snoc (echoes : List Echo) (e : Echo) :
    plusSent (echoes ++ [e])
      = plusSent echoes ++ if e.sent && decide (20 ≤ e.request.length) then [e] else [] := by
  rw [plusSent, List.filter_append]
  cases h : e.sent && decide (20 ≤ e.request.length) <;> simp [plusSent, h]

theorem replied_responses (s : EchoServer) (pkt : Bytes) (sendFails : Bool) :
    (s.replied pkt sendFails).responses
      = s.responses + if !sendFails && decide (20 ≤ pkt.length) then 1 else 0 := by
  unfold EchoServer.replied
  cases sendFails with
  | true => simp
  | false => by_cases hlen : 20 ≤ pkt.length <;> simp [hlen]

theorem replied_failures (s : EchoServer) (pkt : Bytes) (sendFails : Bool) :
    (s.replied pkt sendFails).failures = s.failures + if sendFails then 1 else 0 := by
  unfold EchoServer.replied
  cases sendFails with
  | true => simp
  | false => by_cases hlen : 20 ≤ pkt.length <;> simp [hlen]

/-- What holds of the replies after the datagrams `ds`. -/
structure Numbered (cfg : EchoConfig) (ds : List Datagram) (r : EchoRun) : Prop where
  responses : r.server.responses = UInt32.ofNat (plusSent r.echoes).length
  numbers : (plusSent r.echoes).map (fun e => u32At e.packet 4)
    = (List.range' 1 (plusSent r.echoes).length).map UInt32.ofNat
  framed : ∀ e ∈ r.echoes, e.Framed
  received : r.server.received = UInt64.ofNat (ds.countP fun d => cfg.allows d.peer)
  requests : r.echoes.map (fun e => (e.request, e.sent))
    = (ds.filter fun d => cfg.allows d.peer).map fun d => (d.request, !d.sendFails)

theorem Numbered.step {cfg : EchoConfig} {parse : ParseControl} {ds : List Datagram}
    {r r' : EchoRun} {d : Datagram} (h : Numbered cfg ds r) (hserves : Serves cfg parse r d r') :
    Numbered cfg (ds ++ [d]) r' := by
  obtain ⟨hreceived, hresponses, -⟩ := noted_frame r.server parse d
  cases hserves with
  | ignored hdeny =>
      refine ⟨hresponses.trans h.responses, h.numbers, h.framed, ?_, ?_⟩
      · simpa [hdeny] using hreceived.trans h.received
      · simpa [hdeny] using h.requests
  | @echoed packet hallow hframed =>
      have hlen : packet.length = d.request.length := hframed.length
      have hbefore : (r.server.accepted parse d).responses = UInt32.ofNat (plusSent r.echoes).length :=
        hresponses.trans h.responses
      refine ⟨?_, ?_, ?_, ?_, ?_⟩
      · rw [plusSent_snoc, replied_responses, hlen, hbefore]
        split
        · rw [List.length_append, UInt32.ofNat_add]
          rfl
        · simp
      · rw [plusSent_snoc]
        split
        · next hplus =>
            have hnumber := hframed.number (by simpa using (Bool.and_eq_true_iff.mp hplus).2)
            rw [hbefore] at hnumber
            rw [List.map_append, List.length_append, h.numbers, List.length_singleton,
              List.range'_1_concat, List.map_append, List.map_singleton, List.map_singleton, hnumber,
              Nat.add_comm 1, UInt32.ofNat_add]
            rfl
        · simpa using h.numbers
      · intro e he
        rcases List.mem_append.mp he with hold | hnew
        · exact h.framed e hold
        · exact List.mem_singleton.mp hnew ▸ hframed
      · rw [(replied_frame _ _ _).1, EchoServer.accepted, hreceived, h.received]
        simp [hallow, UInt64.ofNat_add]
      · simp [hallow, h.requests]

/-- **Echo Plus numbering and framing.** `Serve` processes every sequence of
datagrams without a panic. The Echo Plus replies that were sent are numbered
1, 2, 3, … modulo 2^32, whatever else was echoed, failed or ignored; each
reply has the length of its request and its bytes outside the four words,
and carries the failure count from before it; there is one reply for each
datagram from an allowed source, and `received` counts them. -/
theorem echo_numbered (cfg : EchoConfig) (parse : ParseControl) (t₀ : Time) (ds : List Datagram) :
    ∃ r, EchoRun.serve cfg parse { server := newEchoServer t₀ } ds = .ok r ∧
      (plusSent r.echoes).map (fun e => u32At e.packet 4)
        = (List.range' 1 (plusSent r.echoes).length).map UInt32.ofNat ∧
      (∀ e ∈ r.echoes, e.packet.length = e.request.length ∧
        (∀ i, e.request.length < 20 ∨ i < 4 ∨ 20 ≤ i → e.packet[i]? = e.request[i]?) ∧
        (20 ≤ e.request.length → u32At e.packet 16 = e.server.failures)) ∧
      r.echoes.map (fun e => (e.request, e.sent))
        = (ds.filter fun d => cfg.allows d.peer).map (fun d => (d.request, !d.sendFails)) ∧
      r.server.received = UInt64.ofNat (ds.countP fun d => cfg.allows d.peer) := by
  obtain ⟨r, hserve, -, h⟩ := serve_induction cfg parse t₀ (P := Numbered cfg)
    ⟨rfl, rfl, by simp, rfl, rfl⟩ (fun _ _ _ _ h hserves => h.step hserves) ds
  refine ⟨r, hserve, h.numbers, ?_, h.requests, h.received⟩
  intro e he
  have hframed := h.framed e he
  exact ⟨hframed.length, hframed.outside, hframed.failures⟩

/-! ## Drops -/

/-- The control messages of a datagram carry the drop counter; the message
may be missing when the counter is 0. -/
def Carries (parse : ParseControl) (oob : Bytes) (counter : UInt32) : Prop :=
  oob ≠ [] ∧ ∃ msgs, parse oob = some msgs ∧
    ((∃ m, msgs.filter ControlMessage.isDrops = [m] ∧ m.drops = counter) ∨
      (msgs.filter ControlMessage.isDrops = [] ∧ counter = 0))

/-- What `Serve` adds for a counter that was `last` at the datagram before. -/
def counted (last drops : UInt32) : UInt32 := if last < drops then drops - last else 0

theorem note_snd (acc : Time × UInt32) (m : ControlMessage) :
    (ControlMessage.note acc m).2 = if m.isDrops then m.drops else acc.2 := by
  unfold ControlMessage.note ControlMessage.isDrops
  by_cases hlevel : m.level = solSocket
  · by_cases hstamp : m.type = scmTimestampNs
    · by_cases hlen : 16 ≤ m.data.length <;> simp [hlevel, hstamp, hlen]
    · by_cases hdrops : m.type = soRxqOvfl
      · by_cases hlen : 4 ≤ m.data.length <;> simp [hlevel, hdrops, hlen]
      · simp [hlevel, hstamp, hdrops]
  · simp [hlevel]

theorem foldl_note_snd (msgs : List ControlMessage) (acc : Time × UInt32) :
    (msgs.foldl ControlMessage.note acc).2
      = (msgs.filter ControlMessage.isDrops).foldl (fun _ m => m.drops) acc.2 := by
  induction msgs generalizing acc with
  | nil => rfl
  | cons m msgs ih =>
      rw [List.foldl_cons, ih, note_snd]
      cases hdrops : m.isDrops <;> simp [hdrops]

section Drops

variable {cfg : EchoConfig} {parse : ParseControl} {s : EchoServer} {r r' : EchoRun} {d : Datagram}
  {counter : UInt32}

theorem Carries.parseRxControl (h : Carries parse d.oob counter) :
    ∃ t, parseRxControl parse d.oob = some (t, counter) := by
  obtain ⟨-, msgs, hparse, hdrops⟩ := h
  have hsnd : (msgs.foldl ControlMessage.note (zeroTime, 0)).2 = counter := by
    rw [foldl_note_snd]
    rcases hdrops with ⟨m, hone, rfl⟩ | ⟨hnone, rfl⟩
    · rw [hone]
      rfl
    · rw [hnone]
      rfl
  exact ⟨(msgs.foldl ControlMessage.note (zeroTime, 0)).1, by
    rw [Tr143.parseRxControl, hparse, Option.map_some, ← hsnd]⟩

theorem noteDrops_lastDrops (s : EchoServer) (drops : UInt32) :
    (s.noteDrops drops).lastDrops = drops := by
  by_cases hstore : drops ≠ 0 ∨ s.lastDrops ≠ 0
  · exact if_pos hstore
  · -- the guard skips the store only when both values are 0
    obtain ⟨hdrops, hlast⟩ := not_or.mp hstore
    exact (if_neg hstore).trans ((not_not.mp hlast).trans (not_not.mp hdrops).symm)

theorem noteDrops_failures (s : EchoServer) (drops : UInt32) :
    (s.noteDrops drops).failures = s.failures + counted s.lastDrops drops := by
  by_cases hmore : s.lastDrops < drops <;> simp [EchoServer.noteDrops, counted, hmore]

theorem Carries.noted (h : Carries parse d.oob counter) :
    (s.noted parse d).lastDrops = counter ∧
      (s.noted parse d).failures = s.failures + counted s.lastDrops counter := by
  obtain ⟨t, hparse⟩ := h.parseRxControl
  have hoob : d.oob.length ≠ 0 := fun hlen => h.1 (List.length_eq_zero_iff.mp hlen)
  have hnoted : s.noted parse d = (s.readMsg d).1.noteDrops counter := by
    simp [EchoServer.noted, EchoServer.noteControl, hoob, hparse]
  rw [hnoted]
  exact ⟨noteDrops_lastDrops _ _, noteDrops_failures _ _⟩

/-- The sends that failed. -/
def failedSends (echoes : List Echo) : Nat := echoes.countP fun e => !e.sent

/-- One datagram adds what its counter adds, and 1 if its reply was not sent. -/
theorem Serves.failures (hserves : Serves cfg parse r d r') (h : Carries parse d.oob counter) :
    r'.server.lastDrops = counter ∧
      ∃ k, failedSends r'.echoes = failedSends r.echoes + k ∧
        r'.server.failures
          = r.server.failures + counted r.server.lastDrops counter + UInt32.ofNat k := by
  obtain ⟨hlast, hfailures⟩ := h.noted (s := r.server)
  cases hserves with
  | ignored _ => exact ⟨hlast, 0, rfl, by simpa using hfailures⟩
  | @echoed packet _ _ =>
      refine ⟨(replied_frame _ _ _).2.2.trans hlast, d.sendFails.toNat, ?_, ?_⟩
      · simp only [failedSends, List.countP_append]
        cases d.sendFails <;> simp
      · rw [replied_failures, EchoServer.accepted, hfailures]
        cases d.sendFails <;> simp

end Drops

/-- A datagram with the number of drops since the one before. -/
structure Delivery where
  dropped : Nat
  datagram : Datagram

/-- The kernel's side: fewer than 2^31 drops between two deliveries, and
each datagram carries the number of all drops so far, modulo 2^32. -/
def KernelCounts (parse : ParseControl) (ds : List Delivery) : Prop :=
  ∀ pre x post, ds = pre ++ x :: post → x.dropped < 2 ^ 31 ∧
    Carries parse x.datagram.oob (UInt32.ofNat (total Delivery.dropped pre + x.dropped))

theorem counted_of_lt {n k : Nat} (h : n + k < 2 ^ 32) :
    counted (UInt32.ofNat n) (UInt32.ofNat (n + k)) = UInt32.ofNat k := by
  have hn : (UInt32.ofNat n).toNat = n := UInt32.toNat_ofNat_of_lt' (by
    change n < 2 ^ 32
    omega)
  have hnk : (UInt32.ofNat (n + k)).toNat = n + k := UInt32.toNat_ofNat_of_lt' h
  unfold counted
  split
  · rw [UInt32.ofNat_add]
    abel
  · next hle =>
      rw [UInt32.lt_iff_toNat_lt, hn, hnk] at hle
      have hzero : k = 0 := by omega
      rw [hzero]
      rfl

/-- The counter has wrapped: the difference is lost. -/
theorem counted_of_wrap {n k : Nat} (hn : n < 2 ^ 32) (hk : k < 2 ^ 31) (h : 2 ^ 32 ≤ n + k) :
    counted (UInt32.ofNat n) (UInt32.ofNat (n + k)) = 0 := by
  have hn' : (UInt32.ofNat n).toNat = n := UInt32.toNat_ofNat_of_lt' hn
  have hnk : (UInt32.ofNat (n + k)).toNat = n + k - 2 ^ 32 := by
    rw [UInt32.toNat_ofNat']
    omega
  apply if_neg
  rw [UInt32.lt_iff_toNat_lt, hn', hnk]
  omega

section Kernel

variable {cfg : EchoConfig} {parse : ParseControl} {t₀ : Time}

theorem KernelCounts.of_append {ds more : List Delivery} (h : KernelCounts parse (ds ++ more)) :
    KernelCounts parse ds := by
  rintro pre x post rfl
  exact h pre x (post ++ more) (by simp)

theorem kernelCounts_nil : KernelCounts parse [] := by
  intro pre x post h
  simp at h

theorem KernelCounts.snoc {ds : List Delivery} {x : Delivery} (h : KernelCounts parse ds)
    (hfew : x.dropped < 2 ^ 31)
    (hcarries : Carries parse x.datagram.oob
      (UInt32.ofNat (total Delivery.dropped ds + x.dropped))) : KernelCounts parse (ds ++ [x]) := by
  intro pre y post hsplit
  rcases Transition.snoc_split hsplit with ⟨-, rfl, rfl⟩ | ⟨post', -, hinit⟩
  · exact ⟨hfew, hcarries⟩
  · exact h pre y post' hinit

theorem serve_buf_length {ds : List Datagram} {r : EchoRun}
    (hserve : EchoRun.serve cfg parse { server := newEchoServer t₀ } ds = .ok r) :
    r.server.buf.length = echoBufLen := by
  obtain ⟨r', hserve', hbuf, -⟩ := serve_induction cfg parse t₀ (P := fun _ _ => True) trivial
    (fun _ _ _ _ _ _ => trivial) ds
  rw [hserve] at hserve'
  exact Except.ok.inj hserve' ▸ hbuf

/-- Until the counter wraps, every drop and every failed send is counted. -/
theorem drops_counted (cfg : EchoConfig) (t₀ : Time) {ds : List Delivery}
    (hkernel : KernelCounts parse ds)
    (hsum : total Delivery.dropped ds < 2 ^ 32) :
    ∃ r, EchoRun.serve cfg parse { server := newEchoServer t₀ } (ds.map Delivery.datagram) = .ok r ∧
      r.server.lastDrops = UInt32.ofNat (total Delivery.dropped ds) ∧
      r.server.failures = UInt32.ofNat (total Delivery.dropped ds + failedSends r.echoes) := by
  induction ds using List.reverseRecOn with
  | nil => exact ⟨_, rfl, rfl, rfl⟩
  | append_singleton ds x ih =>
      obtain ⟨-, hcarries⟩ := hkernel ds x [] rfl
      rw [total_append, total_singleton] at hsum ⊢
      obtain ⟨r, hserve, hlast, hfailures⟩ := ih hkernel.of_append (by omega)
      obtain ⟨r', hserve', hserves⟩ := serve_snoc (serve_buf_length hserve) hserve x.datagram
      obtain ⟨hlast', k, hfailed, hfailures'⟩ := hserves.failures hcarries
      refine ⟨r', by rw [List.map_append]; exact hserve', hlast', ?_⟩
      rw [hfailures', hlast, hfailures, counted_of_lt hsum, hfailed]
      simp only [UInt32.ofNat_add]
      abel

/-- The drops of the delivery at which the counter wraps are lost. -/
theorem drops_lost (cfg : EchoConfig) (t₀ : Time) {ds : List Delivery} {x : Delivery}
    (hkernel : KernelCounts parse (ds ++ [x]))
    (hsum : total Delivery.dropped ds < 2 ^ 32)
    (hwrap : 2 ^ 32 ≤ total Delivery.dropped ds + x.dropped) :
    ∃ r, EchoRun.serve cfg parse { server := newEchoServer t₀ }
        ((ds ++ [x]).map Delivery.datagram) = .ok r ∧
      r.server.failures = UInt32.ofNat (total Delivery.dropped ds + failedSends r.echoes) := by
  obtain ⟨hfew, hcarries⟩ := hkernel ds x [] rfl
  obtain ⟨r, hserve, hlast, hfailures⟩ := drops_counted cfg t₀ hkernel.of_append hsum
  obtain ⟨r', hserve', hserves⟩ := serve_snoc (serve_buf_length hserve) hserve x.datagram
  obtain ⟨-, k, hfailed, hfailures'⟩ := hserves.failures hcarries
  refine ⟨r', by rw [List.map_append]; exact hserve', ?_⟩
  rw [hfailures', hlast, hfailures, counted_of_wrap hsum hfew hwrap, hfailed]
  simp only [UInt32.ofNat_add]
  abel

/-- Fewer than 2^32 drops more or less make a difference. -/
theorem ofNat_ne {n k m : Nat} (hpos : 0 < k) (hk : k < 2 ^ 32) :
    UInt32.ofNat (n + m) ≠ UInt32.ofNat (n + k + m) := by
  intro heq
  have hnat := congrArg UInt32.toNat heq
  rw [UInt32.toNat_ofNat', UInt32.toNat_ofNat'] at hnat
  omega

end Kernel

/-- **When the failure count is right.** After each datagram it is, modulo
2^32, the number of drops and failed sends so far, exactly if the kernel's
counter has not wrapped. -/
theorem drops_counted_iff (cfg : EchoConfig) (parse : ParseControl) (t₀ : Time)
    {ds : List Delivery} (hkernel : KernelCounts parse ds) :
    (∀ pre post, ds = pre ++ post →
      ∃ r, EchoRun.serve cfg parse { server := newEchoServer t₀ } (pre.map Delivery.datagram)
          = .ok r ∧
        r.server.failures = UInt32.ofNat (total Delivery.dropped pre + failedSends r.echoes)) ↔
      total Delivery.dropped ds < 2 ^ 32 := by
  constructor
  · intro hcount
    by_contra hsum
    obtain ⟨pre, x, post, rfl, hlt, hwrap⟩ := exists_crossing (by decide) (not_lt.mp hsum)
    have hkernel' : KernelCounts parse (pre ++ [x]) :=
      KernelCounts.of_append (by simpa using hkernel : KernelCounts parse (pre ++ [x] ++ post))
    obtain ⟨r, hserve, hfailures⟩ := hcount (pre ++ [x]) post (by simp)
    obtain ⟨r', hserve', hfailures'⟩ := drops_lost cfg t₀ hkernel' hlt hwrap
    obtain rfl : r = r' := Except.ok.inj (hserve.symm.trans hserve')
    obtain ⟨hfew, -⟩ := hkernel' pre x [] rfl
    rw [hfailures', total_append, total_singleton] at hfailures
    exact ofNat_ne (by omega) (by omega) hfailures
  · rintro hsum pre post rfl
    rw [total_append] at hsum
    obtain ⟨r, hserve, -, hfailures⟩ := drops_counted cfg t₀ hkernel.of_append (by omega)
    exact ⟨r, hserve, hfailures⟩

/-- Control data that is one message with the drop counter. -/
def dropsOnly : ParseControl := fun oob => some [⟨solSocket, soRxqOvfl, oob⟩]

/-- 2^31 - 1 drops, with the counter that is then in the control data. -/
def flood (counter : Bytes) : Delivery where
  dropped := 2 ^ 31 - 1
  datagram := { payload := [], oob := counter, peer := ⟨.v4 0, 7⟩ }

def twoFloods : List Delivery := [flood [0xff, 0xff, 0xff, 0x7f], flood [0xfe, 0xff, 0xff, 0xff]]

theorem kernelCounts_twoFloods : KernelCounts dropsOnly twoFloods := by
  refine KernelCounts.snoc (KernelCounts.snoc kernelCounts_nil (by decide) ?_)
    (by decide : (flood [0xfe, 0xff, 0xff, 0xff]).dropped < 2 ^ 31) ?_
  · exact ⟨by decide, _, rfl, .inl ⟨_, rfl, by decide⟩⟩
  · exact ⟨by decide, _, rfl, .inl ⟨_, rfl, by decide⟩⟩

theorem drops_counted_iff_twoFloods :
    KernelCounts dropsOnly twoFloods ∧
      ((∀ pre post, twoFloods = pre ++ post →
        ∃ r, EchoRun.serve {} dropsOnly { server := newEchoServer 0 } (pre.map Delivery.datagram)
            = .ok r ∧
          r.server.failures = UInt32.ofNat (total Delivery.dropped pre + failedSends r.echoes)) ↔
        total Delivery.dropped twoFloods < 2 ^ 32) :=
  ⟨kernelCounts_twoFloods, drops_counted_iff {} dropsOnly 0 kernelCounts_twoFloods⟩

/-- A third flood takes the counter past 2^32, and its drops are missing. -/
theorem drops_lost_thirdFlood :
    KernelCounts dropsOnly (twoFloods ++ [flood [0xfd, 0xff, 0xff, 0x7f]]) ∧
      ∃ r, EchoRun.serve {} dropsOnly { server := newEchoServer 0 }
          ((twoFloods ++ [flood [0xfd, 0xff, 0xff, 0x7f]]).map Delivery.datagram) = .ok r ∧
        r.server.failures ≠ UInt32.ofNat
          (total Delivery.dropped (twoFloods ++ [flood [0xfd, 0xff, 0xff, 0x7f]])
            + failedSends r.echoes) := by
  have hkernel : KernelCounts dropsOnly (twoFloods ++ [flood [0xfd, 0xff, 0xff, 0x7f]]) :=
    kernelCounts_twoFloods.snoc (by decide) ⟨by decide, _, rfl, .inl ⟨_, rfl, by decide⟩⟩
  obtain ⟨r, hserve, hfailures⟩ := drops_lost {} 0 hkernel (by decide) (by decide)
  refine ⟨hkernel, r, hserve, ?_⟩
  rw [hfailures, total_append, total_singleton]
  exact ofNat_ne (by decide) (by decide)

end Diagd.Tr143
