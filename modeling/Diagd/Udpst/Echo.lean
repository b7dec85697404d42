import Diagd.Udpst.LoadStream

/-!
# What a datagram echoes

The main goroutine stores the timestamps of each status PDU in `echo`, and a
burst looks there once, before it reads its clock. Every call of `sendBurst`
leaves a record of both in the sender's `log`; the datagrams of the call are
compared with the record of that call, and the record with the states that
have been stored.
-/

namespace Diagd.Udpst

open GoSlice GoStd Resumption

namespace Sending

variable {t : RateTable} {ipv6 : Bool}

/-! ## The record of a call -/

/-- The content of `echo` once `n` of the states have been stored. -/
def echoAt (heard : List EchoState) : Nat → Option EchoState
  | 0 => none
  | n + 1 => heard[n]?

/-- The look is one of this test: the states it counts are the ones stored by
then, and it found the last of them. -/
structure Look.Of (heard : List EchoState) (l : Look) : Prop where
  stores_le : l.stores ≤ heard.length
  echo : l.echo = echoAt heard l.stores
  before : ∀ es ∈ heard.take l.stores, es.rxAt ≤ l.time
  behind : ∀ es ∈ heard.drop l.stores, l.time ≤ es.rxAt

/-- A call looks at `echo`, then reads the clock, and writes what it has found
into each of its datagrams. -/
structure BurstLog.Of (heard : List EchoState) (clock : Time) (r : BurstLog) : Prop where
  look : ∀ l ∈ r.look, l.Of heard ∧ l.time ≤ clock
  clock : ∀ at_ ∈ r.clock, at_ ≤ clock ∧ ∀ l ∈ r.look, l.time ≤ at_
  sent : ∀ m ∈ r.sent, ∃ l at_, r.look = some l ∧ r.clock = some at_ ∧
    Echoes (echoFields l.echo at_) m

/-- A call never goes back to an older state than an earlier one has seen. -/
def BurstLog.Ordered (r r' : BurstLog) : Prop :=
  ∀ l ∈ r.look, ∀ l' ∈ r'.look, l.stores ≤ l'.stores

/-- The record of a call that has come so far. -/
def Mark.Noted : Mark → BurstLog → Prop
  | .fresh, r => r = {}
  | .loaded es, r => ∃ l, r = { look := some l } ∧ l.echo = es
  | .stamped es at_, r => ∃ l, r.look = some l ∧ r.clock = some at_ ∧ l.echo = es

section Record

variable {v : View} {env : SendEnv} {heard : List EchoState} {clock clock' : Time} {l : Look}
  {r r' : BurstLog} {mk : Mark} {action : UInt8} {o : SendOp}

theorem echoAt_append {n : Nat} (h : n ≤ heard.length) (e : EchoState) :
    echoAt (heard ++ [e]) n = echoAt heard n := by
  cases n with
  | zero => rfl
  | succ n => exact List.getElem?_append_left h

theorem echoAt_mem {n : Nat} {es : EchoState} (h : echoAt heard n = some es) :
    es ∈ heard.take n := by
  cases n with
  | zero => cases h
  | succ n =>
      obtain ⟨hn, rfl⟩ := List.getElem?_eq_some_iff.mp h
      exact List.mem_take_iff_getElem.mpr ⟨n, by omega, rfl⟩

/-- A state that is stored later is not one the call can have seen. -/
theorem Look.Of.hear (h : l.Of heard) {e : EchoState} (he : l.time ≤ e.rxAt) :
    l.Of (heard ++ [e]) where
  stores_le := by
    rw [List.length_append]
    exact Nat.le_add_right_of_le h.stores_le
  echo := by rw [echoAt_append h.stores_le, h.echo]
  before := by
    rw [List.take_append_of_le_length h.stores_le]
    exact h.before
  behind := by
    rw [List.drop_append_of_le_length h.stores_le]
    intro es hes
    rcases List.mem_append.mp hes with hold | hnew
    · exact h.behind es hold
    · rw [List.mem_singleton.mp hnew]
      exact he

/-- A look at what is there now. -/
theorem Look.of_view (hecho : v.echo = echoAt heard v.stores) (hstores : v.stores = heard.length)
    {now : Time} (hheard : ∀ es ∈ heard, es.rxAt ≤ now) : Look.Of heard ⟨v.echo, v.stores, now⟩ where
  stores_le := hstores.le
  echo := hecho
  before := fun es hes => hheard es (List.mem_of_mem_take hes)
  behind := by
    intro es hes
    rw [hstores, List.drop_length] at hes
    cases hes

theorem BurstLog.Of.mono (h : r.Of heard clock) (hle : clock ≤ clock') : r.Of heard clock' where
  look := fun l hl => ⟨(h.look l hl).1, (h.look l hl).2.trans hle⟩
  clock := fun at_ hat => ⟨(h.clock at_ hat).1.trans hle, (h.clock at_ hat).2⟩
  sent := h.sent

theorem BurstLog.Of.hear (h : r.Of heard clock) {e : EchoState} (he : clock ≤ e.rxAt) :
    r.Of (heard ++ [e]) e.rxAt where
  look := fun l hl => ⟨(h.look l hl).1.hear ((h.look l hl).2.trans he), (h.look l hl).2.trans he⟩
  clock := fun at_ hat => ⟨(h.clock at_ hat).1.trans he, (h.clock at_ hat).2⟩
  sent := h.sent

theorem note_sent (v : View) (env : SendEnv) (o : SendOp) (r : BurstLog) :
    (r.note v env o).sent = r.sent ++ acceptedBy o (answer v.echo env o) := by
  cases o <;> simp [BurstLog.note, acceptedBy]

/-- One operation of a call is noted in its record, whose look is the present
one if it is new. -/
theorem Mark.Noted.step (h : mk.Noted r) (hallowed : (marking action).Allowed mk o)
    (hr : r.Of heard clock) (hle : clock ≤ env.now)
    (hlook : Look.Of heard ⟨v.echo, v.stores, env.now⟩) :
    ((marking action).next mk o (answer v.echo env o)).Noted (r.note v env o) ∧
      (r.note v env o).Of heard env.now ∧
      ((r.note v env o).look = r.look ∨
        (r.note v env o).look = some ⟨v.echo, v.stores, env.now⟩) := by
  have hstill := hr.mono hle
  match mk, o, hallowed with
  | .fresh, .loadEcho, _ =>
      obtain rfl : r = {} := h
      refine ⟨⟨_, rfl, rfl⟩, ⟨?_, nofun, by simp [BurstLog.note]⟩, .inr rfl⟩
      rintro _ ⟨⟩
      exact ⟨hlook, le_refl _⟩
  | .loaded es, .now, _ =>
      obtain ⟨l, rfl, hl⟩ := h
      refine ⟨⟨l, rfl, rfl, hl⟩, ⟨hstill.look, ?_, by simp [BurstLog.note]⟩, .inl rfl⟩
      rintro _ ⟨⟩
      exact ⟨le_refl _, fun l' hl' => (hstill.look l' hl').2⟩
  | .stamped es at_, .now, _ =>
      obtain ⟨l, hl, hat, hes⟩ := h
      have hsame : r.note v env .now = r := by
        simp only [BurstLog.note, hat, Option.getD_some]
        rw [← hat]
      rw [hsame]
      exact ⟨⟨l, hl, hat, hes⟩, hstill, .inl rfl⟩
  | .stamped es at_, .rand _, _ => exact ⟨h, hstill, .inl rfl⟩
  | .stamped es at_, .writeBatch msgs, hmsgs =>
      obtain ⟨l, hl, hat, rfl⟩ := h
      refine ⟨⟨l, hl, hat, rfl⟩, ⟨hstill.look, hstill.clock, ?_⟩, .inl rfl⟩
      intro m hm
      rcases List.mem_append.mp hm with hold | hnew
      · exact hstill.sent m hold
      · exact ⟨l, at_, hl, hat, (hmsgs m (List.mem_of_mem_take hnew)).2⟩

end Record

/-! ## The log of the sender -/

structure Echoing (heard : List EchoState) (clock : Time) (x : Sender t) : Prop where
  sent : x.sent = x.log.flatMap BurstLog.sent
  count : x.log.length = x.begun.length
  holds : ∀ r ∈ x.log, r.Of heard clock
  sorted : x.log.Pairwise BurstLog.Ordered
  burst : ∀ p rest d, x.stage = .bursting p rest d → ∃ logs r mk, x.log = logs ++ [r] ∧
    Conforms (marking (turnAction d)) mk p (fun _ _ => True) ∧ mk.Noted r

section Log

variable {v : View} {env : SendEnv} {x x' : Sender t} {heard : List EchoState} {clock clock' : Time}

theorem Echoing.mono (h : Echoing heard clock x) (hle : clock ≤ clock') : Echoing heard clock' x :=
  { h with holds := fun r hr => (h.holds r hr).mono hle }

theorem Echoing.hear (h : Echoing heard clock x) {e : EchoState} (he : clock ≤ e.rxAt) :
    Echoing (heard ++ [e]) e.rxAt x :=
  { h with holds := fun r hr => (h.holds r hr).hear he }

/-- A new call has not looked yet. -/
theorem Echoing.begin (ht : AllBounded t.rows) (h : Echoing heard clock x) (hacts : x.stage.Acts)
    (hnum : Numbered ipv6 x) {c : Burst t} {rest : List (Burst t)} {d : Option Duration}
    (hstage : x.stage = .sending (c :: rest) d) :
    Echoing heard clock { x with
      stage := .bursting (c.send ipv6 x.st) rest d
      begun := x.begun ++ [c]
      log := x.log ++ [{}] } where
  sent := by
    rw [List.flatMap_append]
    simpa using h.sent
  count := by simp [h.count]
  holds := by
    intro r hr
    rcases List.mem_append.mp hr with hold | hnew
    · exact h.holds r hold
    · rw [List.mem_singleton.mp hnew]
      exact ⟨nofun, nofun, by simp⟩
  sorted := by
    refine List.pairwise_append.mpr ⟨h.sorted, List.pairwise_singleton _ _, ?_⟩
    intro r _ r' hr' l _ l' hl'
    rw [List.mem_singleton.mp hr'] at hl'
    cases hl'
  burst := by
    rintro p rest d ⟨⟩
    rw [hstage] at hacts
    exact ⟨x.log, {}, .fresh, rfl,
      hacts _ List.mem_cons_self ▸ send_marks ht _ (hnum.ready hstage), rfl⟩

/-- The look of an operation, if it is one, comes after all the looks before. -/
theorem Echoing.op (h : Echoing heard clock x) (hle : clock ≤ env.now)
    (hlook : Look.Of heard ⟨v.echo, v.stores, env.now⟩) (hstores : v.stores = heard.length)
    {o : SendOp} {k : o.Res → SendProg SendState} {rest : List (Burst t)} {d : Option Duration}
    (hstage : x.stage = .bursting (.op o k) rest d) :
    Echoing heard env.now { x with
      stage := .bursting (k (answer v.echo env o)) rest d
      sent := x.sent ++ acceptedBy o (answer v.echo env o)
      log := x.log.modifyLast (BurstLog.note v env o) } := by
  obtain ⟨logs, r, mk, hlog, hfollows, hnoted⟩ := h.burst _ _ _ hstage
  obtain ⟨hallowed, hcont⟩ := Conforms.op_iff.mp hfollows
  have hholds := h.holds
  have hsorted := h.sorted
  have hsent := h.sent
  have hcount := h.count
  rw [hlog] at hholds hsorted hsent hcount
  obtain ⟨hold, -, hlast⟩ := List.pairwise_append.mp hsorted
  obtain ⟨hnoted', hof, hnew⟩ := hnoted.step hallowed (hholds r (by simp)) hle hlook
  rw [hlog, List.modifyLast_concat]
  refine ⟨?_, ?_, ?_, ?_, ?_⟩
  · show x.sent ++ _ = (logs ++ [r.note v env o]).flatMap BurstLog.sent
    simp only [hsent, List.flatMap_append, List.flatMap_singleton, note_sent, List.append_assoc]
  · rw [← hcount]
    simp
  · intro r' hr'
    rcases List.mem_append.mp hr' with hr' | hr'
    · exact (hholds r' (List.mem_append_left _ hr')).mono hle
    · rw [List.mem_singleton.mp hr']
      exact hof
  · refine List.pairwise_append.mpr ⟨hold, List.pairwise_singleton _ _, ?_⟩
    intro r₁ hr₁ r₂ hr₂ l₁ hl₁ l₂ hl₂
    rw [List.mem_singleton.mp hr₂] at hl₂
    rcases hnew with heq | heq
    · rw [heq] at hl₂
      exact hlast r₁ hr₁ r (List.mem_singleton_self r) l₁ hl₁ l₂ hl₂
    · rw [heq] at hl₂
      cases hl₂
      show l₁.stores ≤ v.stores
      rw [hstores]
      exact ((hholds r₁ (List.mem_append_left _ hr₁)).look l₁ hl₁).1.stores_le
  · rintro p rest d ⟨⟩
    exact ⟨logs, _, _, rfl, hcont _, hnoted'⟩

theorem Echoing.step (ht : AllBounded t.rows) (h : Echoing heard clock x) (hle : clock ≤ env.now)
    (hlook : Look.Of heard ⟨v.echo, v.stores, env.now⟩) (hstores : v.stores = heard.length)
    (hacts : x.stage.Acts) (hnum : Numbered ipv6 x) (hmove : SenderMoves ipv6 v env x x') :
    Echoing heard env.now x' := by
  obtain ⟨hsent, hcount, hholds, hsorted, -⟩ := h.mono hle
  cases hmove with
  | op hstage => exact h.op hle hlook hstores hstage
  | begin hstage => exact (h.mono hle).begin ht hacts hnum hstage
  | doze hstage hto =>
      refine ⟨hsent, hcount, hholds, hsorted, ?_⟩
      rintro p rest d rfl
      exact hto.elim
  | start | leave | enter | stop | goOn | idle | pick | rouse | turn | finish | pause | returns
  | resume | quit => exact ⟨hsent, hcount, hholds, hsorted, nofun⟩

end Log

end Sending

/-! ## The whole test -/

/-- What a status PDU of the client, once it is read, puts into `echo`. -/
def DownLabel.stored (s : Session) : DownLabel → Option EchoState
  | .main (.read (.datagram rx)) =>
      match DownTest.statusOf s rx with
      | .ok (some st) => some ⟨st.timeSec, st.timeNsec, rx.now⟩
      | .ok none | .error _ => none
  | .main (.read (.timeout _)) | .main (.read (.failed _)) | .main (.check _)
  | .main (.proceed _) | .timer _ | .sender _ => none

/-- The log of the sender against the states that have been stored. -/
structure Echoed {t : RateTable} (x : DownSystem t) : Prop where
  echoing : Sending.Echoing x.heard x.clock x.sender
  echo : x.d.echo = Sending.echoAt x.heard x.heard.length
  heard_le : ∀ es ∈ x.heard, es.rxAt ≤ x.clock

section Test

variable {t : RateTable} {s : Session} {d : DownTest} {x x' : DownSystem t} {l : DownLabel}

/-- A step stores what its label says. -/
theorem heard_step (hstep : x.step s l = some x') :
    x'.heard = x.heard ++ (l.stored s).toList := by
  have hnone : ∀ l : DownLabel, l.stored s = none → x.heard = x.heard ++ (l.stored s).toList := by
    intro l hl
    rw [hl]
    exact (List.append_nil _).symm
  obtain ⟨-, -, y, hmove, rfl⟩ := downMoves_of_step hstep
  cases hmove with
  | hear hmain hst =>
      simp only [DownLabel.stored, hst]
      rfl
  | @ignore r hmain hfail hread =>
      refine hnone _ ?_
      cases r with
      | datagram rx => simp only [DownLabel.stored, hread rx rfl]
      | timeout | failed => rfl
  | goOn | expire | fail | finish | steer | close | join | timer | sender | panic =>
      exact hnone _ rfl

theorem heard_run {ls : List DownLabel} (hrun : Transition.run (DownSystem.step s) x ls = some x') :
    x'.heard = x.heard ++ ls.filterMap (DownLabel.stored s) := by
  induction ls generalizing x with
  | nil =>
      cases hrun
      exact (List.append_nil _).symm
  | cons l ls ih =>
      obtain ⟨y, hstep, hrest⟩ := Transition.run_cons.mp hrun
      rw [ih hrest, heard_step hstep, List.append_assoc]
      cases hl : l.stored s with
      | none => rw [List.filterMap_cons_none hl]; rfl
      | some es => rw [List.filterMap_cons_some hl]; rfl

theorem prepare_echo (d : DownTest) (now : Time) : (d.prepare now).echo = d.echo := by
  unfold DownTest.prepare
  split <;> rfl

/-- A step that leaves `echo` and the sender alone. -/
theorem Echoed.frame (h : Echoed x) (hecho : d.echo = x.d.echo) {now : Time}
    (hle : x.clock ≤ now) (main : MainStage) (stop done : Bool) (crashed : Option Panic) :
    Echoed { x with
      d := d, main := main, stop := stop, done := done, crashed := crashed, clock := now } where
  echoing := h.echoing.mono hle
  echo := hecho.trans h.echo
  heard_le := fun es hes => (h.heard_le es hes).trans hle

theorem Echoed.hear (h : Echoed x) (rx : Rx) (st : StatusPDU) (hle : x.clock ≤ rx.now) :
    Echoed { x.hear rx.now st with clock := rx.now } where
  echoing := h.echoing.hear hle
  echo := by
    show some (EchoState.mk st.timeSec st.timeNsec rx.now) =
      Sending.echoAt (x.heard ++ [_]) (x.heard ++ [_]).length
    simp [Sending.echoAt]
  heard_le := by
    intro es hes
    rcases List.mem_append.mp hes with hold | hnew
    · exact (h.heard_le es hold).trans hle
    · rw [List.mem_singleton.mp hnew]

theorem Echoed.send (ht : AllBounded t.rows) (h : Echoed x) (hs : Streaming s x)
    {env : Sending.SendEnv} {snd : Sending.Sender t}
    (hmove : Sending.SenderMoves s.ipv6 x.view env x.sender snd) (hle : x.clock ≤ env.now) :
    Echoed { x with sender := snd, clock := env.now } where
  echoing := by
    obtain ⟨a, b, hphased⟩ := hs.phased
    have hlook : Sending.Look.Of x.heard ⟨x.view.echo, x.view.stores, env.now⟩ :=
      Sending.Look.of_view h.echo rfl fun es hes => (h.heard_le es hes).trans hle
    exact h.echoing.step ht hle hlook rfl hphased.acts hs.numbered hmove
  echo := h.echo
  heard_le := fun es hes => (h.heard_le es hes).trans hle

/-- One step of any of the three. -/
theorem Echoed.step (ht : AllBounded t.rows) (h : Echoed x) (hs : Streaming s x)
    (hstep : x.step s l = some x') : Echoed x' := by
  obtain ⟨-, hle, y, hmove, rfl⟩ := downMoves_of_step hstep
  cases hmove with
  | goOn | expire => exact h.frame (prepare_echo _ _) hle _ _ _ _
  | hear => exact h.hear _ _ hle
  | sender hmove => exact h.send ht hs hmove hle
  | ignore | fail | finish | steer | close | join | timer | panic =>
      refine h.frame ?_ hle _ _ _ _
      rfl

theorem echoed_of_reachable {srv : Server} {s₀ : Session} {req : TestActPDU} {rx : Rx}
    {start : Time} {x : DownSystem srv.table}
    (hx : DownReachable srv (s₀.activate srv req rx) start x) :
    Echoed x := by
  have ht := allBounded_table srv
  refine (hx.invariant (I := fun x => Streaming (s₀.activate srv req rx) x ∧
    Echoed x) ⟨streaming_of_reachable ⟨[], rfl⟩, ?_⟩ ?_).2
  · exact ⟨⟨rfl, rfl, by simp [DownSystem.init], .nil, nofun⟩, rfl, by simp [DownSystem.init]⟩
  · rintro x l x' ⟨hs, h⟩ hstep
    exact ⟨hs.step ht hstep, h.step ht hs hstep⟩

end Test

/-! ## Results -/

/-- The response delay of an echo: whole milliseconds, at most 65535. -/
theorem echoFields_respDelay {es : EchoState} {now : Time} (h : es.rxAt ≤ now) :
    ((Sending.echoFields (some es) now).respDelay.toNat : Int) =
      min ((now - es.rxAt) / 1000000) 65535 := by
  have hnonneg : (0 : Int) ≤ now - es.rxAt := Int.sub_nonneg.mpr h
  have hq : 0 ≤ (now - es.rxAt) / 1000000 := Int.ediv_nonneg hnonneg (by decide)
  have hd : Duration.milliseconds (now - es.rxAt) = (now - es.rxAt) / 1000000 :=
    Int.tdiv_eq_ediv_of_nonneg hnonneg
  simp only [Sending.echoFields, hd]
  generalize (now - es.rxAt) / 1000000 = q at hq ⊢
  split
  · next hsmall =>
      rw [toNat_uint16_ofInt hq (hsmall.2.trans (by decide)), min_eq_left hsmall.2.le]
  · next hlarge =>
      rw [min_eq_right (not_lt.mp fun hlt => hlarge ⟨hq, hlt⟩)]
      rfl

/-- A datagram that echoes the newest status PDU: with none stored when its
burst looked it echoes nothing; otherwise the last one stored by then, with
the time from its reading to the burst's clock. -/
structure EchoesNewest (heard : List EchoState) (l : Sending.Look) (at_ : Time) (m : Bytes) :
    Prop where
  silent : l.stores = 0 → (LoadPDU.ofBytes m).spduTimeSec = 0 ∧
    (LoadPDU.ofBytes m).spduTimeNsec = 0 ∧ (LoadPDU.ofBytes m).rttRespDelay = 0
  newest : ∀ n es, l.stores = n + 1 → heard[n]? = some es →
    (LoadPDU.ofBytes m).spduTimeSec = es.sec ∧ (LoadPDU.ofBytes m).spduTimeNsec = es.nsec ∧
      ((LoadPDU.ofBytes m).rttRespDelay.toNat : Int) = min ((at_ - es.rxAt) / 1000000) 65535

theorem echoesNewest {heard : List EchoState} {l : Sending.Look} {at_ : Time} {m : Bytes}
    (hl : l.Of heard) (hat : l.time ≤ at_)
    (hm : Sending.Echoes (Sending.echoFields l.echo at_) m) : EchoesNewest heard l at_ m := by
  rw [hl.echo] at hm
  constructor
  · intro hzero
    rw [hzero] at hm
    exact ⟨hm.sec, hm.nsec, hm.respDelay⟩
  · intro n es hn hes
    have hecho : Sending.echoAt heard l.stores = some es := by rw [hn]; exact hes
    have hrx : es.rxAt ≤ at_ := (hl.before es (Sending.echoAt_mem hecho)).trans hat
    rw [hecho] at hm
    refine ⟨hm.sec, hm.nsec, ?_⟩
    rw [hm.respDelay]
    exact echoFields_respDelay hrx

/-- **Every datagram echoes the newest status PDU.** The states `echo` takes
are those of the client's status PDUs that have been read, each once, in their
order. Each call of `sendBurst` has its record, and what the kernel has
accepted is, call by call, what the records hold. A call looks at `echo` before
it reads its clock; its datagrams carry the state that was the newest when it
looked, and how many milliseconds before its clock that one was read; and a
later call never goes back to an older state. -/
theorem echo_newest (srv : Server) (s₀ : Session) (req : TestActPDU) (rx : Rx) (start : Time)
    {ls : List DownLabel} {x : DownSystem srv.table}
    (hrun : Transition.run (DownSystem.step (s₀.activate srv req rx))
      (DownSystem.init srv (s₀.activate srv req rx) start) ls = some x) :
    x.heard = ls.filterMap (DownLabel.stored (s₀.activate srv req rx)) ∧
      x.sender.log.length = x.sender.begun.length ∧
      x.sender.sent = x.sender.log.flatMap Sending.BurstLog.sent ∧
      x.sender.log.Pairwise Sending.BurstLog.Ordered ∧
      ∀ r ∈ x.sender.log, ∀ m ∈ r.sent, ∃ l at_, r.look = some l ∧ r.clock = some at_ ∧
        l.Of x.heard ∧ l.time ≤ at_ ∧ at_ ≤ x.clock ∧ EchoesNewest x.heard l at_ m := by
  have hinv := echoed_of_reachable ⟨ls, hrun⟩
  obtain ⟨hsent, hcount, hholds, hsorted, -⟩ := hinv.echoing
  refine ⟨heard_run hrun, hcount, hsent, hsorted, ?_⟩
  intro r hr m hm
  obtain ⟨l, at_, hl, hat, hecho⟩ := (hholds r hr).sent m hm
  have hof := ((hholds r hr).look l hl).1
  obtain ⟨hclock, hafter⟩ := (hholds r hr).clock at_ hat
  exact ⟨l, at_, hl, hat, hof, hafter l hl, hclock, echoesNewest hof (hafter l hl) hecho⟩

/-- A test datagram is sent after 5 ms, a status PDU is read after two seconds,
and a stop indication is sent 100 ms later. -/
def oneEcho : List DownLabel :=
  [.main (.check 0), .sender { now := 0 }] ++
    List.replicate 13 (.sender { now := 5 * millisecond, accepts := some 1 }) ++
    [.main (.read (statusTurn 0 1 testActionTest).read), .timer (2 * second)] ++
    List.replicate 8 (.sender { now := 2100 * millisecond, accepts := some 1 })

theorem echo_newest_oneEcho : ∃ x r r' m m', DownReachable briefServer briefSession 0 x ∧
    x.sender.log = [r, r'] ∧ r.sent = [m] ∧ r'.sent = [m'] ∧
    (∃ l at_, r.look = some l ∧ r.clock = some at_ ∧ l.stores = 0 ∧
      EchoesNewest x.heard l at_ m) ∧
    ∃ l at_, r'.look = some l ∧ r'.clock = some at_ ∧ l.stores = 1 ∧
      EchoesNewest x.heard l at_ m' := by
  have hrun : (Transition.run (DownSystem.step briefSession)
      (DownSystem.init briefServer briefSession 0) oneEcho).map
        (fun x => x.sender.log.map fun r => (r.sent.length, r.look.map (·.stores))) =
          some [(1, some 0), (1, some 1)] := by
    decide +kernel
  obtain ⟨x, hx, hlog⟩ := Option.map_eq_some_iff.mp hrun
  have hreach : DownReachable briefServer briefSession 0 x := ⟨_, hx⟩
  obtain ⟨-, -, -, -, hall⟩ := echo_newest briefServer _ _ _ 0 hx
  obtain ⟨r, rest, hcons, hr, hrest⟩ := List.map_eq_cons_iff.mp hlog
  obtain ⟨r', others, rfl, hr', hnil⟩ := List.map_eq_cons_iff.mp hrest
  obtain rfl := List.map_eq_nil_iff.mp hnil
  obtain ⟨hsent, hstores⟩ := Prod.mk.inj hr
  obtain ⟨hsent', hstores'⟩ := Prod.mk.inj hr'
  obtain ⟨m, hm⟩ := List.length_eq_one_iff.mp hsent
  obtain ⟨m', hm'⟩ := List.length_eq_one_iff.mp hsent'
  obtain ⟨l, at_, hl, hat, -, -, -, hecho⟩ := hall r (by simp [hcons]) m (by simp [hm])
  obtain ⟨l', at_', hl', hat', -, -, -, hecho'⟩ := hall r' (by simp [hcons]) m' (by simp [hm'])
  rw [hl] at hstores
  rw [hl'] at hstores'
  exact ⟨x, r, r', m, m', hreach, hcons, hm, hm',
    ⟨l, at_, hl, hat, Option.some.inj hstores, hecho⟩,
    l', at_', hl', hat', Option.some.inj hstores', hecho'⟩

end Diagd.Udpst
