import Diagd.Lib.Account
import Diagd.Tr143.Http

/-!
# Slots and counters are conserved

What a request has taken from the handler can be read off its stage: whether
it holds a slot (`holds`), and what it has added to the counters (`share`).
Each step changes the handler by the difference (`moves_slotsOut`,
`moves_value`), so in every interleaving the handler is the sum over its
requests. A thread's own record of what it did agrees with its stage
(`Thread.Wf`).
-/

namespace Diagd.Tr143

open GoStd Account

/-! ## Slots -/

/-- The handler has `n` slots out. -/
structure SlotsOut (cfg : HTTPConfig) (n : Nat) (h : HTTPHandler) : Prop where
  active : h.active = Int64.ofNat n
  sem : h.sem = if 0 < cfg.maxConcurrent then some n else none
  bound : 0 < cfg.maxConcurrent → (n : Int) ≤ cfg.maxConcurrent.toInt

section SlotsOut

variable {cfg : HTTPConfig} {n : Nat} {h h' : HTTPHandler}

theorem newHTTPHandler_slotsOut (cfg : HTTPConfig) : SlotsOut cfg 0 (newHTTPHandler cfg) where
  active := rfl
  sem := rfl
  bound hpos := Int.le_of_lt (Int64.lt_iff_toInt_lt.mp hpos)

/-- Only the channel and the count of active transfers matter. -/
theorem SlotsOut.congr (hs : SlotsOut cfg n h) (hactive : h'.active = h.active)
    (hsem : h'.sem = h.sem) : SlotsOut cfg n h' :=
  ⟨hactive.trans hs.active, hsem.trans hs.sem, hs.bound⟩

theorem acquire_slotsOut (hs : SlotsOut cfg n h) {r : Request} {got : Bool}
    (hacquire : h.acquire cfg r = (h', got)) : SlotsOut cfg (n + got.toNat) h' := by
  have hsem := hs.sem
  unfold HTTPHandler.acquire at hacquire
  split at hacquire
  · next hnone =>
      cases hacquire
      have hpos : ¬0 < cfg.maxConcurrent := by
        intro hpos
        rw [hnone, if_pos hpos] at hsem
        cases hsem
      exact ⟨by simp [hs.active, Int64.ofNat_add], by simp [hnone, hpos], fun h => absurd h hpos⟩
  · next k hsome =>
      have hpos : 0 < cfg.maxConcurrent ∧ k = n := by
        rw [hsome] at hsem
        split at hsem <;> cases hsem
        exact ⟨‹_›, rfl⟩
      obtain ⟨hpos, rfl⟩ := hpos
      split at hacquire
      · next hfree =>
          cases hacquire
          exact ⟨by simp [hs.active, Int64.ofNat_add], by simp [hpos], fun _ => by simpa using hfree⟩
      · cases hacquire
        exact hs.congr rfl rfl

/-- A slot that is out can be given back: `release` does not block. -/
theorem release_slotsOut (hs : SlotsOut cfg (n + 1) h) :
    ∃ h', h.release = some h' ∧ SlotsOut cfg n h' := by
  unfold HTTPHandler.release
  rw [hs.sem]
  by_cases hpos : 0 < cfg.maxConcurrent
  · rw [if_pos hpos]
    refine ⟨_, rfl, by simp [hs.active, Int64.ofNat_add], by simp [hpos], fun _ => ?_⟩
    have hbound := hs.bound hpos
    push_cast at hbound
    omega
  · rw [if_neg hpos]
    exact ⟨_, rfl, by simp [hs.active, Int64.ofNat_add], by simp [hpos], fun h => absurd h hpos⟩

end SlotsOut

section Moves

variable {cfg : HTTPConfig} {h h' : HTTPHandler} {t t' : Thread} {now : Time}

theorem moves_slotsOut {k : Nat} (hs : SlotsOut cfg (k + t.stage.holds.toNat) h)
    (hmove : Moves cfg h t now h' t') : SlotsOut cfg (k + t'.stage.holds.toNat) h' := by
  cases hmove with
  | answered hstage _ => simpa [hstage, Stage.holds] using hs
  | admitted hstage _ hacquire =>
      simpa [Stage.holds] using acquire_slotsOut (by simpa [hstage, Stage.holds] using hs) hacquire
  | rejected hstage _ hacquire =>
      simpa [Stage.holds] using acquire_slotsOut (by simpa [hstage, Stage.holds] using hs) hacquire
  | released hstage hrelease =>
      obtain ⟨h'', hrelease', hs'⟩ := release_slotsOut (by simpa [hstage, Stage.holds] using hs)
      rw [hrelease] at hrelease'
      cases hrelease'
      simpa [Stage.holds] using hs'
  | counted hstage =>
      rw [hstage] at hs
      refine hs.congr ?_ ?_ <;> · unfold HTTPHandler.count; split <;> rfl
  | added hstage =>
      rw [hstage] at hs
      refine hs.congr ?_ ?_ <;> · unfold HTTPHandler.event HTTPHandler.addBytes; split <;> rfl
  | headed hstage _ | download hstage _ _ _ | upload hstage | continued hstage | left hstage
  | wrote _ hstage | writeFailed _ hstage | read _ hstage | readLast _ hstage | closed hstage =>
      rw [hstage] at hs
      exact hs.congr rfl rfl

/-! ## Counters -/

inductive Counter where
  | downloads | uploads | rejects | bytesSent | bytesReceived
  deriving DecidableEq, Repr

def HTTPHandler.value (h : HTTPHandler) : Counter → UInt64
  | .downloads => h.downloads
  | .uploads => h.uploads
  | .rejects => h.rejects
  | .bytesSent => h.bytesSent
  | .bytesReceived => h.bytesReceived

/-- One transfer of its kind. -/
def Result.one (r : Result) : Counter → UInt64
  | .downloads => if r.xfer.test.isDownload then 1 else 0
  | .uploads => if r.xfer.test.isDownload then 0 else 1
  | .rejects | .bytesSent | .bytesReceived => 0

/-- Its bytes. -/
def Result.volume (r : Result) : Counter → UInt64
  | .bytesSent => if r.xfer.test.isDownload then r.bytes.toUInt64 else 0
  | .bytesReceived => if r.xfer.test.isDownload then 0 else r.bytes.toUInt64
  | .downloads | .uploads | .rejects => 0

/-- What a request has added to the counters so far. -/
def Stage.share : Stage → Counter → UInt64
  | .adding r => r.one
  | .closing r | .releasing (some r) | .ended (.served (some r)) => r.one + r.volume
  | .ended (.rejected _) => Pi.single .rejects 1
  | .called | .admitted _ | .looping _ _ _ | .writing _ _ _ _ | .copying _ _ _ | .counting _
  | .releasing none | .ended (.served none) | .ended (.answered _) => 0

theorem count_value (r : Result) : (h.count r.xfer.test).value = h.value + r.one := by
  funext c
  cases hd : r.xfer.test.isDownload <;> cases c <;>
    simp [HTTPHandler.count, HTTPHandler.value, Result.one, hd]

theorem addBytes_value (r : Result) :
    (h.addBytes r.xfer.test r.bytes).value = h.value + r.volume := by
  funext c
  cases hd : r.xfer.test.isDownload <;> cases c <;>
    simp [HTTPHandler.addBytes, HTTPHandler.value, Result.volume, hd]

theorem event_value (r : Request) (test : Test) (complete : Bool) (bytes : Int64)
    (start now : Time) : (h.event r test complete bytes start now).value = h.value := by
  funext c
  cases c <;> rfl

theorem acquire_value {r : Request} {got : Bool} (hacquire : h.acquire cfg r = (h', got)) :
    h'.value = h.value + if got then 0 else Pi.single .rejects 1 := by
  unfold HTTPHandler.acquire at hacquire
  split at hacquire
  · cases hacquire
    funext c
    cases c <;> simp [HTTPHandler.value]
  · split at hacquire <;> cases hacquire <;> funext c <;> cases c <;> simp [HTTPHandler.value]

theorem release_value (hrelease : h.release = some h') : h'.value = h.value := by
  unfold HTTPHandler.release at hrelease
  split at hrelease <;> cases hrelease <;> funext c <;> cases c <;> rfl

/-- Each step changes the counters by what it adds to the request's share. -/
theorem moves_value (hmove : Moves cfg h t now h' t') :
    h'.value + t.stage.share = h.value + t'.stage.share := by
  cases hmove with
  | answered hstage _ => rw [hstage]; rfl
  | admitted hstage _ hacquire => rw [hstage, acquire_value hacquire]; simp [Stage.share]
  | rejected hstage _ hacquire => rw [hstage, acquire_value hacquire]; simp [Stage.share]
  | counted hstage => rw [hstage, count_value]; simp [Stage.share]
  | added hstage =>
      rw [hstage, event_value, addBytes_value]
      simp only [Stage.share]
      abel
  | closed hstage => rw [hstage]; rfl
  | @released result _ hstage hrelease =>
      rw [hstage, release_value hrelease]
      cases result <;> rfl
  | headed hstage _ | download hstage _ _ _ | upload hstage | continued hstage | left hstage
  | wrote _ hstage | writeFailed _ hstage | read _ hstage | readLast _ hstage =>
      rw [hstage]
      rfl

end Moves

/-! ## What a thread has done -/

/-- The bytes of a list of calls, as the counters add them. -/
def bytesOf (calls : List Int64) : UInt64 := total Int64.toUInt64 calls

theorem bytesOf_snoc (calls : List Int64) (n : Int64) :
    bytesOf (calls ++ [n]) = bytesOf calls + n.toUInt64 := by
  rw [bytesOf, bytesOf, total_append, total_singleton]

def Stage.acquired : Stage → Nat
  | .called | .ended (.answered _) | .ended (.rejected _) => 0
  | .admitted _ | .looping _ _ _ | .writing _ _ _ _ | .copying _ _ _ | .counting _ | .adding _
  | .closing _ | .releasing _ | .ended (.served _) => 1

def Stage.released : Stage → Nat
  | .ended (.served _) => 1
  | .called | .ended (.answered _) | .ended (.rejected _) | .admitted _ | .looping _ _ _
  | .writing _ _ _ _ | .copying _ _ _ | .counting _ | .adding _ | .closing _ | .releasing _ => 0

def Method.isUpload : Method → Bool
  | .put | .post => true
  | .get | .head | .other => false

/-- The result is that of the thread's own transfer. -/
structure Result.Of (r : Result) (t : Thread) : Prop where
  get : r.xfer.test.isDownload = true → t.req.method = .get
  put : r.xfer.test.isDownload = false → t.req.method.isUpload = true
  sent : r.volume .bytesSent = bytesOf t.writes
  received : r.volume .bytesReceived = bytesOf t.reads

/-- The local state of a stage agrees with the calls made so far. -/
def Thread.Agrees (cfg : HTTPConfig) (t : Thread) : Prop :=
  match t.stage with
  | .called | .ended (.answered _) | .ended (.rejected _) => t.writes = [] ∧ t.reads = []
  | .admitted plan => plan.Fits cfg t.req ∧ t.writes = [] ∧ t.reads = []
  | .looping _ sent xfer | .writing _ sent _ xfer =>
      xfer.test.isDownload = true ∧ t.req.method = .get ∧ sent.toUInt64 = bytesOf t.writes ∧
        t.reads = []
  | .copying written _ xfer =>
      xfer.test.isDownload = false ∧ t.req.method.isUpload = true ∧
        written.toUInt64 = bytesOf t.reads ∧ t.writes = []
  | .counting r | .adding r | .closing r | .releasing (some r) | .ended (.served (some r)) => r.Of t
  | .releasing none | .ended (.served none) =>
      t.req.method = .head ∧ t.writes = [] ∧ t.reads = []

structure Thread.Wf (cfg : HTTPConfig) (t : Thread) : Prop where
  acquires : t.acquires = t.stage.acquired
  releases : t.releases = t.stage.released
  admissible : t.acquires ≠ 0 → ∃ plan, cfg.serveHTTP t.req = .ok plan
  agrees : t.Agrees cfg

section Wf

variable {cfg : HTTPConfig} {h h' : HTTPHandler} {t t' : Thread} {now : Time}

theorem Plan.Fits.get {r : Request} {plan : Plan} (hfits : plan.Fits cfg r) (hplan : plan ≠ .upload)
    (hmethod : r.method ≠ .head) : r.method = .get := by
  cases plan with
  | sized size => exact hfits.1.resolve_right hmethod
  | timed d => exact hfits.1.resolve_right hmethod
  | upload => exact absurd rfl hplan

/-- The result of a download. -/
theorem Result.of_download {r : Result} (htest : r.xfer.test.isDownload = true)
    (hmethod : t.req.method = .get) (hbytes : r.bytes.toUInt64 = bytesOf t.writes)
    (hreads : t.reads = []) : r.Of t where
  get _ := hmethod
  put hup := by rw [htest] at hup; cases hup
  sent := by simpa [Result.volume, htest] using hbytes
  received := by simp [Result.volume, htest, hreads, bytesOf]

theorem Result.of_upload {r : Result} (htest : r.xfer.test.isDownload = false)
    (hmethod : t.req.method.isUpload = true) (hbytes : r.bytes.toUInt64 = bytesOf t.reads)
    (hwrites : t.writes = []) : r.Of t where
  get hdown := by rw [htest] at hdown; cases hdown
  put _ := hmethod
  sent := by simp [Result.volume, htest, hwrites, bytesOf]
  received := by simpa [Result.volume, htest] using hbytes

theorem moves_agrees (hagrees : t.Agrees cfg) (hmove : Moves cfg h t now h' t') :
    t'.Agrees cfg := by
  unfold Thread.Agrees at hagrees
  cases hmove with
  | answered hstage _ | rejected hstage _ _ | continued hstage =>
      rw [hstage] at hagrees
      exact hagrees
  | admitted hstage hserve _ =>
      rw [hstage] at hagrees
      exact ⟨serveHTTP_fits hserve, hagrees⟩
  | headed hstage hmethod =>
      rw [hstage] at hagrees
      exact ⟨hmethod, hagrees.2⟩
  | download hstage hplan hmethod htest =>
      rw [hstage] at hagrees
      obtain ⟨hfits, hwrites, hreads⟩ := hagrees
      refine ⟨htest, hfits.get hplan hmethod, ?_, hreads⟩
      rw [Thread.register, hwrites]
      rfl
  | upload hstage =>
      rw [hstage] at hagrees
      obtain ⟨hfits, hwrites, hreads⟩ := hagrees
      refine ⟨rfl, ?_, ?_, hwrites⟩
      · rcases hfits with hput | hpost <;> simp [Thread.register, Method.isUpload, *]
      · rw [Thread.register, hreads]
        rfl
  | left hstage =>
      rw [hstage] at hagrees
      obtain ⟨htest, hmethod, hbytes, hreads⟩ := hagrees
      exact Result.of_download htest hmethod hbytes hreads
  | wrote n hstage =>
      rw [hstage] at hagrees
      obtain ⟨htest, hmethod, hbytes, hreads⟩ := hagrees
      exact ⟨htest, hmethod, by rw [bytesOf_snoc, Int64.toUInt64_add, hbytes], hreads⟩
  | writeFailed n hstage =>
      rw [hstage] at hagrees
      obtain ⟨htest, hmethod, hbytes, hreads⟩ := hagrees
      exact Result.of_download htest hmethod (by rw [bytesOf_snoc, Int64.toUInt64_add, hbytes]) hreads
  | read n hstage =>
      rw [hstage] at hagrees
      obtain ⟨htest, hmethod, hbytes, hwrites⟩ := hagrees
      exact ⟨htest, hmethod, by rw [bytesOf_snoc, Int64.toUInt64_add, hbytes], hwrites⟩
  | readLast n hstage =>
      rw [hstage] at hagrees
      obtain ⟨htest, hmethod, hbytes, hwrites⟩ := hagrees
      exact Result.of_upload htest hmethod (by rw [bytesOf_snoc, Int64.toUInt64_add, hbytes]) hwrites
  | counted hstage | added hstage | closed hstage =>
      rw [hstage] at hagrees
      exact ⟨hagrees.get, hagrees.put, hagrees.sent, hagrees.received⟩
  | @released result _ hstage _ =>
      rw [hstage] at hagrees
      cases result with
      | none => exact hagrees
      | some r => exact ⟨hagrees.get, hagrees.put, hagrees.sent, hagrees.received⟩

theorem moves_wf (hwf : t.Wf cfg) (hmove : Moves cfg h t now h' t') : t'.Wf cfg := by
  have hagrees := moves_agrees hwf.agrees hmove
  obtain ⟨hacq, hrel, hadm, -⟩ := hwf
  cases hmove with
  | admitted hstage hserve _ =>
      rw [hstage] at hacq hrel
      exact ⟨by simp [hacq, Stage.acquired], hrel, fun _ => ⟨_, hserve⟩, hagrees⟩
  | released hstage _ =>
      rw [hstage] at hacq hrel
      exact ⟨hacq, by simp [hrel, Stage.released], hadm, hagrees⟩
  | answered hstage _ | rejected hstage _ _ | headed hstage _ | download hstage _ _ _
  | upload hstage | continued hstage | left hstage | wrote _ hstage | writeFailed _ hstage
  | read _ hstage | readLast _ hstage | counted hstage | added hstage | closed hstage =>
      rw [hstage] at hacq hrel
      exact ⟨hacq, hrel, hadm, hagrees⟩

/-- What a request is to have added when it has ended, by what it was and
did. -/
def Thread.due (t : Thread) : Counter → UInt64
  | .downloads => if t.req.method = .get ∧ t.acquires = 1 then 1 else 0
  | .uploads => if t.req.method.isUpload ∧ t.acquires = 1 then 1 else 0
  | .rejects => if t.stage.isRejected then 1 else 0
  | .bytesSent => bytesOf t.writes
  | .bytesReceived => bytesOf t.reads

/-- One transfer, of the kind the method asks for. -/
theorem Result.Of.one_eq {r : Result} (hof : r.Of t) :
    r.one .downloads = (if t.req.method = .get then 1 else 0) ∧
      r.one .uploads = if t.req.method.isUpload then 1 else 0 := by
  cases htest : r.xfer.test.isDownload with
  | true => simp [Result.one, htest, hof.get htest, Method.isUpload]
  | false =>
      have hup := hof.put htest
      have hget : t.req.method ≠ .get := by
        intro hget
        rw [hget] at hup
        cases hup
      simp [Result.one, htest, hup, hget]

theorem Thread.due_of_result {r : Result} (hacq : t.acquires = 1)
    (hstage : t.stage.isRejected = false) (hof : r.Of t) : r.one + r.volume = t.due := by
  obtain ⟨hdownloads, huploads⟩ := hof.one_eq
  funext c
  cases c with
  | downloads => simp [Thread.due, hacq, hdownloads, Result.volume]
  | uploads => simp [Thread.due, hacq, huploads, Result.volume]
  | rejects => simp [Thread.due, hstage, Result.one, Result.volume]
  | bytesSent => simpa [Thread.due, Result.one] using hof.sent
  | bytesReceived => simpa [Thread.due, Result.one] using hof.received

/-- A request without a transfer can only have been refused for capacity. -/
theorem Thread.due_of_idle (hnone : t.acquires = 0 ∨ t.req.method = .head) (hwrites : t.writes = [])
    (hreads : t.reads = []) : t.due = if t.stage.isRejected then Pi.single .rejects 1 else 0 := by
  have hcount : t.due .downloads = 0 ∧ t.due .uploads = 0 := by
    rcases hnone with hacq | hmethod
    · simp [Thread.due, hacq]
    · simp [Thread.due, hmethod, Method.isUpload]
  funext c
  cases c with
  | downloads => rw [hcount.1]; split <;> rfl
  | uploads => rw [hcount.2]; split <;> rfl
  | rejects => cases hrej : t.stage.isRejected <;> simp [Thread.due, hrej]
  | bytesSent => rw [Thread.due, hwrites]; split <;> rfl
  | bytesReceived => rw [Thread.due, hreads]; split <;> rfl

theorem Thread.Wf.share_eq_due (hwf : t.Wf cfg) (hended : t.stage.isEnded = true) :
    t.stage.share = t.due := by
  obtain ⟨hacq, -, -, hagrees⟩ := hwf
  unfold Thread.Agrees at hagrees
  cases hstage : t.stage with
  | ended outcome =>
      rw [hstage] at hacq hagrees
      cases outcome with
      | answered reply =>
          rw [Thread.due_of_idle (.inl hacq) hagrees.1 hagrees.2, hstage]
          rfl
      | rejected reply =>
          rw [Thread.due_of_idle (.inl hacq) hagrees.1 hagrees.2, hstage]
          rfl
      | served result =>
          cases result with
          | none =>
              rw [Thread.due_of_idle (.inr hagrees.1) hagrees.2.1 hagrees.2.2, hstage]
              rfl
          | some r => exact Thread.due_of_result hacq (by rw [hstage]; rfl) hagrees
  | called | admitted _ | looping _ _ _ | writing _ _ _ _ | copying _ _ _ | counting _ | adding _
  | closing _ | releasing _ =>
      rw [hstage] at hended
      cases hended

end Wf

/-! ## Every interleaving -/

/-- The handler is the sum over its requests. -/
structure Conserved (cfg : HTTPConfig) (s : HTTPServer) : Prop where
  slots : SlotsOut cfg (total (fun t => t.stage.holds.toNat) s.threads) s.h
  value : s.h.value = total (fun t => t.stage.share) s.threads
  wf : ∀ t ∈ s.threads, t.Wf cfg

theorem conserved_init (cfg : HTTPConfig) (t₀ : Time) : Conserved cfg (HTTPServer.init cfg t₀) where
  slots := newHTTPHandler_slotsOut cfg
  value := by
    funext c
    cases c <;> rfl
  wf := by simp [HTTPServer.init]

theorem Conserved.act {cfg : HTTPConfig} {s : HTTPServer} {i : Nat} {t t' : Thread}
    {h' : HTTPHandler} {now : Time} (hinv : Conserved cfg s) (ht : s.threads[i]? = some t)
    (hmove : Moves cfg s.h t now h' t') :
    Conserved cfg { clock := now, h := h', threads := s.threads.set i t' } where
  slots := by
    obtain ⟨k, hall, hset⟩ := total_frame (f := fun t : Thread => t.stage.holds.toNat) ht
    have hslots := hinv.slots
    rw [hall] at hslots
    rw [hset]
    exact moves_slotsOut hslots hmove
  value := total_set_of_balance ht hinv.value (moves_value hmove)
  wf := by
    intro u hu
    rcases List.mem_or_eq_of_mem_set hu with hold | rfl
    · exact hinv.wf u hold
    · exact moves_wf (hinv.wf t (List.mem_of_getElem? ht)) hmove

theorem conserved_step {cfg : HTTPConfig} {s s' : HTTPServer} {e : HTTPEvent}
    (hinv : Conserved cfg s) (hstep : s.step cfg e = some s') : Conserved cfg s' := by
  cases e with
  | arrive r =>
      cases hstep
      refine ⟨?_, ?_, ?_⟩
      · simpa [total_append, Stage.holds] using hinv.slots
      · simpa [total_append, Stage.share] using hinv.value
      · intro t ht
        rcases List.mem_append.mp ht with hold | hnew
        · exact hinv.wf t hold
        · obtain rfl := List.mem_singleton.mp hnew
          exact ⟨rfl, rfl, fun h => absurd rfl h, rfl, rfl⟩
  | act i now a =>
      obtain ⟨-, hbody⟩ := Option.ite_none_right_eq_some.mp hstep
      obtain ⟨t, ht, hmap⟩ := Option.bind_eq_some_iff.mp hbody
      obtain ⟨⟨h', t'⟩, hact, rfl⟩ := Option.map_eq_some_iff.mp hmap
      exact hinv.act ht (moves_of_act hact)
  | live now order =>
      obtain ⟨-, hsome⟩ := Option.ite_none_right_eq_some.mp hstep
      cases hsome
      exact ⟨hinv.slots.congr rfl rfl, hinv.value, hinv.wf⟩

theorem conserved_of_reachable {cfg : HTTPConfig} {t₀ : Time} {s : HTTPServer}
    (h : Transition.Reachable (HTTPServer.step cfg) (HTTPServer.init cfg t₀) s) : Conserved cfg s :=
  h.invariant (conserved_init cfg t₀) fun _ _ _ => conserved_step

/-- The number of requests that hold a slot. -/
def HTTPServer.holders (s : HTTPServer) : Nat := s.threads.countP fun t => t.stage.holds

theorem total_holds (threads : List Thread) :
    total (fun t => t.stage.holds.toNat) threads = threads.countP fun t => t.stage.holds := by
  have hsum := total_indicator (fun t : Thread => t.stage.holds) 1 threads
  simpa [Bool.toNat, Bool.cond_eq_ite] using hsum

/-- The number of requests with `p`, in a counter. -/
theorem total_countP (p : Thread → Bool) (threads : List Thread) :
    total (fun t => if p t then (1 : UInt64) else 0) threads
      = UInt64.ofNat (threads.countP p) := by
  have hone : ∀ n : Nat, n • (1 : UInt64) = UInt64.ofNat n := by
    intro n
    induction n with
    | zero => simp
    | succ n ih => rw [succ_nsmul, ih, UInt64.ofNat_add]; rfl
  rw [total_indicator, hone]

/-- No request is stuck: in particular none waits for `release`. -/
theorem act_enabled {cfg : HTTPConfig} {h : HTTPHandler} {t : Thread} {k : Nat}
    (hs : SlotsOut cfg (k + t.stage.holds.toNat) h) (hopen : t.stage.isEnded = false) (now : Time) :
    ∃ a, (t.act cfg h now a).isSome = true := by
  unfold Thread.act
  cases hstage : t.stage with
  | called => exact ⟨.serve, rfl⟩
  | admitted plan => exact ⟨.begin, rfl⟩
  | looping goal sent xfer => exact ⟨.check, rfl⟩
  | writing goal sent n xfer => exact ⟨.write 0 false, rfl⟩
  | copying written counted xfer => exact ⟨.read 0 .eof, rfl⟩
  | counting r => exact ⟨.proceed, rfl⟩
  | adding r => exact ⟨.proceed, rfl⟩
  | closing r => exact ⟨.proceed, rfl⟩
  | releasing result =>
      rw [hstage] at hs
      obtain ⟨h', hrelease, -⟩ := release_slotsOut hs
      exact ⟨.proceed, by simp [hrelease]⟩
  | ended outcome =>
      rw [hstage] at hopen
      cases hopen

theorem Conserved.step_enabled {cfg : HTTPConfig} {s : HTTPServer} (hinv : Conserved cfg s)
    {i : Nat} {t : Thread} (ht : s.threads[i]? = some t) (hopen : t.stage.isEnded = false) :
    ∃ a, (s.step cfg (.act i s.clock a)).isSome = true := by
  obtain ⟨k, hall, -⟩ := total_frame (f := fun t : Thread => t.stage.holds.toNat) ht
  have hslots := hinv.slots
  rw [hall] at hslots
  obtain ⟨a, hact⟩ := act_enabled hslots hopen s.clock
  exact ⟨a, by simpa [HTTPServer.step, ht] using hact⟩

/-! ## The way out -/

/-- The steps of a request from the end of its transfer to its release. -/
def Stage.stepsLeft : Stage → Option Nat
  | .counting _ => some 4
  | .adding _ => some 3
  | .closing _ => some 2
  | .releasing _ => some 1
  | .ended (.served _) => some 0
  | .called | .admitted _ | .looping _ _ _ | .writing _ _ _ _ | .copying _ _ _
  | .ended (.answered _) | .ended (.rejected _) => none

/-- What ends the transfer of a request early or for good: the return of a
HEAD request, a failed `Write`, and a `Read` with an error or `io.EOF`. -/
def Act.isLast (r : Request) : Act → Bool
  | .begin => r.method == .head
  | .write _ failed => failed
  | .read _ res => res != .more
  | .serve | .check | .proceed => false

section WayOut

variable {cfg : HTTPConfig} {s s' : HTTPServer} {i : Nat} {t : Thread}

theorem Thread.act_last {h h' : HTTPHandler} {t' : Thread} {now : Time} {a : Act}
    (hagrees : t.Agrees cfg) (hact : t.act cfg h now a = some (h', t'))
    (hlast : a.isLast t.req = true) : t'.stage.stepsLeft.isSome = true := by
  unfold Thread.Agrees at hagrees
  unfold Thread.act at hact
  split at hact
  · cases hlast
  · next plan hstage =>
      have hhead : t.req.method = .head := by simpa [Act.isLast] using hlast
      rw [hstage] at hagrees
      cases plan with
      | sized size =>
          rw [Thread.start, if_pos hhead] at hact
          cases hact
          rfl
      | timed d =>
          rw [Thread.start, if_pos hhead] at hact
          cases hact
          rfl
      | upload =>
          have hmethod := hagrees.1
          simp [Plan.Fits, hhead] at hmethod
  · cases hlast
  · obtain rfl : _ = true := hlast
    cases hact
    rfl
  · next res _ =>
      cases res with
      | more => cases hlast
      | eof | failed =>
          cases hact
          rfl
  · cases hlast
  · cases hlast
  · cases hlast
  · cases hlast
  · cases hact

theorem Thread.act_proceed {h : HTTPHandler} {k n : Nat} (now : Time)
    (hs : SlotsOut cfg (k + t.stage.holds.toNat) h) (hleft : t.stage.stepsLeft = some (n + 1)) :
    ∃ h' t', t.act cfg h now .proceed = some (h', t') ∧ t'.stage.stepsLeft = some n := by
  unfold Thread.act
  cases hstage : t.stage with
  | counting r | adding r | closing r =>
      rw [hstage] at hleft
      cases hleft
      exact ⟨_, _, rfl, rfl⟩
  | releasing result =>
      rw [hstage] at hleft hs
      cases hleft
      obtain ⟨h', hrelease, -⟩ := release_slotsOut hs
      exact ⟨h', _, by rw [hrelease]; rfl, rfl⟩
  | ended outcome =>
      rw [hstage] at hleft
      cases outcome <;> cases hleft
  | called | admitted _ | looping _ _ _ | writing _ _ _ _ | copying _ _ _ =>
      rw [hstage] at hleft
      cases hleft

theorem Conserved.step_last (hinv : Conserved cfg s) (ht : s.threads[i]? = some t) {now : Time}
    {a : Act} (hstep : s.step cfg (.act i now a) = some s') (hlast : a.isLast t.req = true) :
    ∃ t', s'.threads[i]? = some t' ∧ t'.stage.stepsLeft.isSome = true := by
  obtain ⟨-, hbody⟩ := Option.ite_none_right_eq_some.mp hstep
  rw [ht, Option.bind_some] at hbody
  obtain ⟨⟨h', t'⟩, hact, rfl⟩ := Option.map_eq_some_iff.mp hbody
  refine ⟨t', List.getElem?_set_self (List.getElem?_eq_some_iff.mp ht).1, ?_⟩
  exact Thread.act_last (hinv.wf t (List.mem_of_getElem? ht)).agrees hact hlast

/-- **The rest of a request reaches its release.** The induction is on the
steps that are left, none of which can be held up. -/
theorem Conserved.runs_out {n : Nat} (hinv : Conserved cfg s) (ht : s.threads[i]? = some t)
    (hleft : t.stage.stepsLeft = some n) :
    ∃ s' t', Transition.run (HTTPServer.step cfg) s
        (List.replicate n (.act i s.clock .proceed)) = some s' ∧
      s'.threads[i]? = some t' ∧ t'.stage.isEnded = true ∧ t'.acquires = 1 ∧ t'.releases = 1 := by
  induction n generalizing s t with
  | zero =>
      refine ⟨s, t, rfl, ht, ?_⟩
      rw [(hinv.wf t (List.mem_of_getElem? ht)).acquires,
        (hinv.wf t (List.mem_of_getElem? ht)).releases]
      cases hstage : t.stage with
      | ended outcome =>
          rw [hstage] at hleft
          cases outcome <;> cases hleft
          exact ⟨rfl, rfl, rfl⟩
      | called | admitted _ | looping _ _ _ | writing _ _ _ _ | copying _ _ _ | counting _
      | adding _ | closing _ | releasing _ =>
          rw [hstage] at hleft
          cases hleft
  | succ n ih =>
      obtain ⟨k, hall, -⟩ := total_frame (f := fun t : Thread => t.stage.holds.toNat) ht
      have hslots := hinv.slots
      rw [hall] at hslots
      obtain ⟨h', t', hact, hleft'⟩ := Thread.act_proceed s.clock hslots hleft
      have hstep : s.step cfg (.act i s.clock .proceed)
          = some { clock := s.clock, h := h', threads := s.threads.set i t' } := by
        simp [HTTPServer.step, ht, hact]
      obtain ⟨s'', t'', hrun, hend⟩ := ih (conserved_step hinv hstep)
        (List.getElem?_set_self (List.getElem?_eq_some_iff.mp ht).1) hleft'
      exact ⟨s'', t'', Transition.run_cons.mpr ⟨_, hstep, hrun⟩, hend⟩

end WayOut

/-- The slots of a thread by its own record. -/
theorem Thread.Wf.once {cfg : HTTPConfig} {t : Thread} (hwf : t.Wf cfg) :
    t.acquires ≤ 1 ∧ t.releases ≤ t.acquires ∧
      (t.stage.holds = true ↔ t.acquires = 1 ∧ t.releases = 0) ∧
      (t.stage.isEnded = true → t.releases = t.acquires) := by
  rw [hwf.acquires, hwf.releases]
  cases t.stage with
  | ended outcome =>
      cases outcome <;> simp [Stage.acquired, Stage.released, Stage.holds]
  | called | admitted _ | looping _ _ _ | writing _ _ _ _ | copying _ _ _ | counting _ | adding _
  | closing _ | releasing _ => simp [Stage.acquired, Stage.released, Stage.holds, Stage.isEnded]

theorem Conserved.value_of_ended {cfg : HTTPConfig} {s : HTTPServer} (hinv : Conserved cfg s)
    (hended : ∀ t ∈ s.threads, t.stage.isEnded = true) (c : Counter) :
    s.h.value c = total (fun t => t.due c) s.threads := by
  rw [hinv.value, total_apply]
  exact total_congr fun t ht => congrFun ((hinv.wf t ht).share_eq_due (hended t ht)) c

/-- **Slots are conserved.** In every state of every interleaving, `active`
is the number of requests between `acquire` and `release`, and so is the
occupancy of the semaphore, which bounds it; a request acquires at most once,
not at all if it is refused, and has released when it ends, which nothing
keeps it from: whatever ends its transfer, its remaining steps reach the
release. Once all requests have ended, the counters say what they did. -/
theorem slots_conserved (cfg : HTTPConfig) (t₀ : Time) {s : HTTPServer}
    (hreach : Transition.Reachable (HTTPServer.step cfg) (HTTPServer.init cfg t₀) s) :
    (s.h.active = Int64.ofNat s.holders ∧
      (0 < cfg.maxConcurrent → s.h.sem = some s.holders ∧ s.h.active.toInt = s.holders ∧
        (s.holders : Int) ≤ cfg.maxConcurrent.toInt)) ∧
    (∀ t ∈ s.threads, t.acquires ≤ 1 ∧ t.releases ≤ t.acquires ∧
      (t.stage.holds = true ↔ t.acquires = 1 ∧ t.releases = 0) ∧
      (t.stage.isEnded = true → t.releases = t.acquires) ∧
      ∀ reply, cfg.serveHTTP t.req = .error reply → t.acquires = 0) ∧
    (∀ i t, s.threads[i]? = some t → t.stage.isEnded = false →
      ∃ a, (s.step cfg (.act i s.clock a)).isSome = true) ∧
    (∀ i t, s.threads[i]? = some t →
      (∀ now a s', s.step cfg (.act i now a) = some s' → a.isLast t.req = true →
        ∃ t', s'.threads[i]? = some t' ∧ t'.stage.stepsLeft.isSome = true) ∧
      ∀ n, t.stage.stepsLeft = some n →
        ∃ s' t', Transition.run (HTTPServer.step cfg) s
            (List.replicate n (.act i s.clock .proceed)) = some s' ∧
          s'.threads[i]? = some t' ∧ t'.stage.isEnded = true ∧
          t'.acquires = 1 ∧ t'.releases = 1) ∧
    ((∀ t ∈ s.threads, t.stage.isEnded = true) →
      s.h.downloads = UInt64.ofNat
        (s.threads.countP fun t => t.req.method = .get ∧ t.acquires = 1) ∧
      s.h.uploads = UInt64.ofNat
        (s.threads.countP fun t => t.req.method.isUpload ∧ t.acquires = 1) ∧
      s.h.rejects = UInt64.ofNat (s.threads.countP fun t => t.stage.isRejected) ∧
      s.h.bytesSent = total (fun t => bytesOf t.writes) s.threads ∧
      s.h.bytesReceived = total (fun t => bytesOf t.reads) s.threads) := by
  have hinv := conserved_of_reachable hreach
  have hslots := hinv.slots
  rw [total_holds] at hslots
  refine ⟨⟨hslots.active, fun hpos => ?_⟩, fun t ht => ?_, fun i t => hinv.step_enabled,
    fun i t ht => ⟨fun now a s' => hinv.step_last ht, fun n => hinv.runs_out ht⟩, fun hended => ?_⟩
  · have hbound := hslots.bound hpos
    have hlt : s.holders < 2 ^ 63 := by
      have hmax := cfg.maxConcurrent.toInt_lt
      unfold HTTPServer.holders
      omega
    refine ⟨hslots.sem.trans (if_pos hpos), ?_, hbound⟩
    rw [hslots.active]
    exact Int64.toInt_ofNat_of_lt hlt
  · obtain ⟨hacq, hrel, hholds, hended⟩ := (hinv.wf t ht).once
    refine ⟨hacq, hrel, hholds, hended, fun reply hreply => ?_⟩
    by_contra hne
    obtain ⟨plan, hplan⟩ := (hinv.wf t ht).admissible hne
    rw [hreply] at hplan
    cases hplan
  · have hvalue := hinv.value_of_ended hended
    refine ⟨?_, ?_, ?_, hvalue .bytesSent, hvalue .bytesReceived⟩
    · rw [← total_countP]
      simpa [Thread.due, HTTPHandler.value] using hvalue .downloads
    · rw [← total_countP]
      simpa [Thread.due, HTTPHandler.value] using hvalue .uploads
    · rw [← total_countP]
      exact hvalue .rejects

/-- With one slot, an upload arrives while a download of 5 bytes holds it. -/
def oneSlotRun : List HTTPEvent :=
  [.arrive { method := .get, path := "/5".toList }, .arrive { method := .put },
    .act 0 0 .serve, .act 0 0 .begin, .act 0 0 .check, .act 1 0 .serve,
    .act 0 0 (.write 5 false), .act 0 0 .check, .act 0 0 .proceed, .act 0 0 .proceed,
    .act 0 0 .proceed, .act 0 0 .proceed]

/-- Another upload, of 3 bytes, and a download that fails after 2. -/
def laterRun : List HTTPEvent :=
  [.arrive { method := .put }, .act 2 second .serve, .act 2 second .begin,
    .act 2 second (.read 3 .more), .act 2 second (.read 0 .eof), .act 2 second .proceed,
    .act 2 second .proceed, .act 2 second .proceed, .act 2 second .proceed,
    .arrive { method := .get, path := "/5".toList }, .act 3 second .serve, .act 3 second .begin,
    .act 3 second .check, .act 3 second (.write 2 true), .act 3 second .proceed,
    .act 3 second .proceed, .act 3 second .proceed, .act 3 second .proceed]

theorem slots_conserved_oneSlot :
    ∃ s, Transition.run (HTTPServer.step { maxConcurrent := 1 })
        (HTTPServer.init { maxConcurrent := 1 } 0) (oneSlotRun ++ laterRun) = some s ∧
      s.h.downloads = 2 ∧ s.h.uploads = 1 ∧ s.h.rejects = 1 ∧ s.h.bytesSent = 7 ∧
      s.h.bytesReceived = 3 := by
  have hrun := Option.eq_some_of_isSome (o := Transition.run
    (HTTPServer.step { maxConcurrent := 1 }) (HTTPServer.init { maxConcurrent := 1 } 0)
    (oneSlotRun ++ laterRun)) (by decide +kernel)
  obtain ⟨-, -, -, -, hcounters⟩ :=
    slots_conserved { maxConcurrent := 1 } 0 ⟨oneSlotRun ++ laterRun, hrun⟩
  obtain ⟨hdownloads, huploads, hrejects, hsent, hreceived⟩ := hcounters (by decide +kernel)
  refine ⟨_, hrun, hdownloads.trans ?_, huploads.trans ?_, hrejects.trans ?_, hsent.trans ?_,
    hreceived.trans ?_⟩ <;> decide +kernel

end Diagd.Tr143
