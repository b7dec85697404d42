import Diagd.Lib.Transition
import Diagd.Udpst.RateSearch
import Diagd.Udpst.SendLoop

/-!
# The goroutines of a downstream test (`runDownstream`, `sendLoop`, `sleepUntil`)

Three parties share a downstream test: the main goroutine reads status PDUs
and steers, the goroutine of `sendLoop` sends the load, and a timer raises
`stop`. They meet in the atomics `index` and `echo`, the flag `stop` and the
channels `done` and `sendEnd`, and nowhere else.

Every access to one of these is a step of its own, and so is every clock
reading and every call of the kernel, so that the others can move in between.
The sender is a component that only sees a `View` of the others. Its turns
are those of `Schedule.turn`: `next1`, `next2` and `caught` are local to it,
and computing them before the bursts are sent makes no difference to anyone.

The fields `turns`, `begun`, `sent`, `log` and `heard` record what has
happened, and `View.stores` how much of it is visible; no step reads them.
-/

namespace Diagd.Udpst

open GoSlice GoStd Resumption

namespace Sending

variable {t : RateTable}

/-! ## The sender -/

/-- What the sender sees of the others: the two atomics, the flag, and
whether `done` is closed. -/
structure View where
  index : Int
  echo : Option EchoState
  /-- how often `echo` has been set -/
  stores : Nat
  stop : Bool
  done : Bool

/-- What the world decides at a step of the sender: the clock, a random
number, the part of a batch the kernel accepts, and whether a `select` takes
the channel `done`. -/
structure SendEnv where
  now : Time
  rand : UInt32 := 0
  accepts : Option Nat := none
  takesDone : Bool := false

theorem draw_lt (rand n : UInt32) (h : 0 < n) : (if rand < n then rand else 0) < n := by
  split
  · assumption
  · exact h

/-- A number below `n`. -/
def draw (rand n : UInt32) : { r : UInt32 // 0 < n → r < n } :=
  ⟨if rand < n then rand else 0, draw_lt rand n⟩

theorem portion_lt (k n : Nat) : min k n < n + 1 := Nat.lt_succ_of_le (Nat.min_le_right k n)

/-- The first `k` of `n` datagrams, or all of them. -/
def portion (k n : Nat) : Fin (n + 1) := ⟨min k n, portion_lt k n⟩

/-- The answer to a pending operation of `sendBurst`. -/
def answer (echo : Option EchoState) (env : SendEnv) : (o : SendOp) → o.Res
  | .loadEcho => echo
  | .now => env.now
  | .rand n => draw env.rand n
  | .writeBatch msgs => env.accepts.map fun k => portion k msgs.length

/-- The datagrams the kernel takes with an answer. -/
def acceptedBy : (o : SendOp) → o.Res → List Bytes
  | .writeBatch msgs, r => msgs.take (taken r)
  | .loadEcho, _ | .now, _ | .rand _, _ => []

/-- A call of `sendBurst` looks at `echo`. -/
structure Look where
  echo : Option EchoState
  stores : Nat
  time : Time

/-- What has happened in a call of `sendBurst`: its look at `echo`, the clock
it read next, and the datagrams the kernel accepted. -/
structure BurstLog where
  look : Option Look := none
  clock : Option Time := none
  sent : List Bytes := []

def BurstLog.note (v : View) (env : SendEnv) (o : SendOp) (r : BurstLog) : BurstLog :=
  match o with
  | .loadEcho => { r with look := some ⟨v.echo, v.stores, env.now⟩ }
  | .now => { r with clock := some (r.clock.getD env.now) }
  | .rand _ => r
  | .writeBatch _ => { r with sent := r.sent ++ acceptedBy o (answer v.echo env o) }

inductive Stage (t : RateTable) where
  /-- before `next1` and `next2` are set -/
  | starting
  /-- at the `select` on `done` that begins a turn -/
  | top
  /-- `stop.Load()` is next -/
  | polling
  /-- `index.Load()` is next -/
  | picking
  /-- in `sleepUntil(wake)`, about to read the clock -/
  | sleeping (i : Fin t.rows.length) (wake : Time)
  /-- in its `select`, with the timer set to `ends` -/
  | napping (i : Fin t.rows.length) (wake ends : Time)
  /-- in its last, busy loop -/
  | spinning (i : Fin t.rows.length) (wake : Time)
  /-- `now = time.Now()` after the sleep -/
  | waking (i : Fin t.rows.length)
  /-- between two bursts of a turn; `pause` is the wait after the last one -/
  | sending (rest : List (Burst t)) (pause : Option Duration)
  /-- in `sendBurst` -/
  | bursting (p : SendProg SendState) (rest : List (Burst t)) (pause : Option Duration)
  /-- in a `select` on `done` and a timer that is set to `ends` -/
  | pausing (ends : Time)
  | returned

structure Sender (t : RateTable) where
  stage : Stage t := .starting
  sch : Schedule := ⟨0, 0⟩
  st : SendState
  /-- the turns that have read their clock or the stop flag -/
  turns : List (LoopTurn t) := []
  /-- the calls of `sendBurst` -/
  begun : List (Burst t) := []
  /-- the datagrams the kernel has accepted -/
  sent : List Bytes := []
  /-- what has happened in each of the calls -/
  log : List BurstLog := []

/-- `Rows[index]`. -/
def rowAt (t : RateTable) (index : Int) : Except Panic (Fin t.rows.length) :=
  if h : 0 ≤ index ∧ index < t.rows.length then .ok ⟨index.toNat, by omega⟩
  else .error (.index index t.rows.length)

/-- A `select` on `done` and a timer. It may take either if both are ready. -/
def selectDone (v : View) (env : SendEnv) (ends : Time) (onDone onTimer : Stage t) :
    Option (Stage t) :=
  if env.takesDone then (if v.done then some onDone else none)
  else if ends ≤ env.now then some onTimer else none

namespace Sender

/-- A turn has been decided on: its bursts are to be sent. -/
def serve (x : Sender t) (turn : LoopTurn t) (pause : Option Duration) : Sender t :=
  { x with
    stage := .sending (x.sch.turn turn).2 pause
    sch := (x.sch.turn turn).1
    turns := x.turns ++ [turn] }

/-- The stage after `index.Load()`: a row without an active transmitter has
no wake time and is waited out. -/
def picked (x : Sender t) (now : Time) (i : Fin t.rows.length) : Stage t :=
  match x.sch.wakeAt (t.rows.get i) with
  | none => .pausing (now + 10 * millisecond)
  | some wake => .sleeping i wake

/-- The body of `sleepUntil`, from the clock reading on. -/
def slept (now : Time) (i : Fin t.rows.length) (wake : Time) : Stage t :=
  if wake - now ≤ 0 then .waking i
  else if 500 * microsecond < wake - now then
    .napping i wake (now + (wake - now - 200 * microsecond))
  else .spinning i wake

/-- One step; `none` where the sender cannot move, an error is a panic. -/
def step (ipv6 : Bool) (v : View) (env : SendEnv) (x : Sender t) :
    Option (Except Panic (Sender t)) :=
  match x.stage with
  | .starting => some (.ok { x with
      stage := .top
      sch := Schedule.init env.now ((5 + env.rand.toNat % 46 : Nat) * millisecond) })
  | .top => some (.ok { x with stage := if v.done then .returned else .polling })
  | .polling => some (.ok
      (if v.stop then x.serve .stop (some (50 * millisecond)) else { x with stage := .picking }))
  | .picking => some (do
      let i ← rowAt t v.index
      return { x with stage := x.picked env.now i })
  | .sleeping i wake => some (.ok { x with stage := slept env.now i wake })
  | .napping i wake ends =>
      (selectDone v env ends (.waking i) (.sleeping i wake)).map fun stage =>
        .ok { x with stage := stage }
  | .spinning i wake =>
      some (.ok { x with stage := if env.now < wake then .spinning i wake else .waking i })
  | .waking i => some (.ok (x.serve (.row i env.now) none))
  | .sending [] none => some (.ok { x with stage := .top })
  | .sending [] (some pause) => some (.ok { x with stage := .pausing (env.now + pause) })
  | .sending (c :: cs) pause => some (.ok { x with
      stage := .bursting (c.send ipv6 x.st) cs pause
      begun := x.begun ++ [c]
      log := x.log ++ [{}] })
  | .bursting (.ret st) rest pause => some (.ok { x with stage := .sending rest pause, st := st })
  | .bursting (.crash e) _ _ => some (.error e)
  | .bursting (.op o k) rest pause => some (.ok { x with
      stage := .bursting (k (answer v.echo env o)) rest pause
      sent := x.sent ++ acceptedBy o (answer v.echo env o)
      log := x.log.modifyLast (BurstLog.note v env o) })
  | .pausing ends =>
      (selectDone v env ends .returned .top).map fun stage => .ok { x with stage := stage }
  | .returned => none

end Sender

/-! ### What a step of the sender can do -/

/-- In `sleepUntil(wake)`, for a turn on row `i`. -/
def Stage.Asleep (i : Fin t.rows.length) (wake : Time) : Stage t → Prop
  | .sleeping j w | .napping j w _ | .spinning j w => j = i ∧ w = wake
  | .starting | .top | .polling | .picking | .waking _ | .sending _ _ | .bursting _ _ _
  | .pausing _ | .returned => False

/-- The steps of the sender with their guards. -/
inductive SenderMoves (ipv6 : Bool) (v : View) (env : SendEnv) (x : Sender t) : Sender t → Prop where
  | start (hstage : x.stage = .starting) {delay : Duration} (hmin : 5 * millisecond ≤ delay)
      (hmax : delay ≤ 50 * millisecond) :
      SenderMoves ipv6 v env x { x with stage := .top, sch := Schedule.init env.now delay }
  | leave (hstage : x.stage = .top) (hdone : v.done = true) :
      SenderMoves ipv6 v env x { x with stage := .returned }
  | enter (hstage : x.stage = .top) (hdone : v.done = false) :
      SenderMoves ipv6 v env x { x with stage := .polling }
  | stop (hstage : x.stage = .polling) (hstop : v.stop = true) :
      SenderMoves ipv6 v env x (x.serve .stop (some (50 * millisecond)))
  | goOn (hstage : x.stage = .polling) (hstop : v.stop = false) :
      SenderMoves ipv6 v env x { x with stage := .picking }
  | idle {i : Fin t.rows.length} (hstage : x.stage = .picking) (hrow : rowAt t v.index = .ok i)
      (hwake : x.sch.wakeAt (t.rows.get i) = none) (ends : Time) :
      SenderMoves ipv6 v env x { x with stage := .pausing ends }
  | pick {i : Fin t.rows.length} {wake : Time} (hstage : x.stage = .picking)
      (hrow : rowAt t v.index = .ok i) (hwake : x.sch.wakeAt (t.rows.get i) = some wake) :
      SenderMoves ipv6 v env x { x with stage := .sleeping i wake }
  | doze {i : Fin t.rows.length} {wake : Time} {stage : Stage t} (hstage : x.stage.Asleep i wake)
      (hto : stage.Asleep i wake) : SenderMoves ipv6 v env x { x with stage := stage }
  | rouse {i : Fin t.rows.length} {wake : Time} (hstage : x.stage.Asleep i wake)
      (hover : wake ≤ env.now ∨ v.done = true) :
      SenderMoves ipv6 v env x { x with stage := .waking i }
  | turn {i : Fin t.rows.length} (hstage : x.stage = .waking i) :
      SenderMoves ipv6 v env x (x.serve (.row i env.now) none)
  | finish (hstage : x.stage = .sending [] none) :
      SenderMoves ipv6 v env x { x with stage := .top }
  | pause {d : Duration} (hstage : x.stage = .sending [] (some d)) :
      SenderMoves ipv6 v env x { x with stage := .pausing (env.now + d) }
  | begin {c : Burst t} {rest : List (Burst t)} {d : Option Duration}
      (hstage : x.stage = .sending (c :: rest) d) :
      SenderMoves ipv6 v env x
        { x with
          stage := .bursting (c.send ipv6 x.st) rest d
          begun := x.begun ++ [c]
          log := x.log ++ [{}] }
  | returns {st : SendState} {rest : List (Burst t)} {d : Option Duration}
      (hstage : x.stage = .bursting (.ret st) rest d) :
      SenderMoves ipv6 v env x { x with stage := .sending rest d, st := st }
  | op {o : SendOp} {k : o.Res → SendProg SendState} {rest : List (Burst t)} {d : Option Duration}
      (hstage : x.stage = .bursting (.op o k) rest d) :
      SenderMoves ipv6 v env x
        { x with
          stage := .bursting (k (answer v.echo env o)) rest d
          sent := x.sent ++ acceptedBy o (answer v.echo env o)
          log := x.log.modifyLast (BurstLog.note v env o) }
  | resume {ends : Time} (hstage : x.stage = .pausing ends) (hover : ends ≤ env.now) :
      SenderMoves ipv6 v env x { x with stage := .top }
  | quit {ends : Time} (hstage : x.stage = .pausing ends) (hdone : v.done = true) :
      SenderMoves ipv6 v env x { x with stage := .returned }

section Inversion

variable {ipv6 : Bool} {v : View} {env : SendEnv} {x x' : Sender t}

/-- Both outcomes of a `select`. -/
theorem selectDone_eq_some {ends : Time} {onDone onTimer stage : Stage t}
    (h : selectDone v env ends onDone onTimer = some stage) :
    (v.done = true ∧ stage = onDone) ∨ (ends ≤ env.now ∧ stage = onTimer) := by
  unfold selectDone at h
  split at h
  · obtain ⟨hdone, hstage⟩ := Option.ite_none_right_eq_some.mp h
    exact .inl ⟨hdone, (Option.some.inj hstage).symm⟩
  · obtain ⟨hover, hstage⟩ := Option.ite_none_right_eq_some.mp h
    exact .inr ⟨hover, (Option.some.inj hstage).symm⟩

theorem slept_cases (now : Time) (i : Fin t.rows.length) (wake : Time) :
    (wake ≤ now ∧ Sender.slept now i wake = .waking i) ∨ (Sender.slept now i wake).Asleep i wake := by
  unfold Sender.slept
  split
  · rename_i hover
    exact .inl ⟨sub_nonpos.mp hover, rfl⟩
  · split
    · exact .inr ⟨rfl, rfl⟩
    · exact .inr ⟨rfl, rfl⟩

/-- `5+rand.IntN(46)` milliseconds. -/
theorem startDelay_bounds (n : Nat) :
    5 * millisecond ≤ ((5 + n % 46 : Nat) * millisecond : Int) ∧
      ((5 + n % 46 : Nat) * millisecond : Int) ≤ 50 * millisecond := by
  have hlow : (5 * 1000000 : Int) ≤ (5 + n % 46 : Nat) * 1000000 := by omega
  have hhigh : ((5 + n % 46 : Nat) * 1000000 : Int) ≤ 50 * 1000000 := by omega
  exact ⟨hlow, hhigh⟩

/-- **Every step of the sender is one of the moves.** -/
theorem senderMoves_of_step (h : x.step ipv6 v env = some (.ok x')) :
    SenderMoves ipv6 v env x x' := by
  unfold Sender.step at h
  split at h
  · next hstage =>
      cases h
      exact .start hstage (startDelay_bounds _).1 (startDelay_bounds _).2
  · next hstage =>
      cases h
      cases hdone : v.done with
      | true => exact .leave hstage hdone
      | false => exact .enter hstage hdone
  · next hstage =>
      cases h
      cases hstop : v.stop with
      | true => exact .stop hstage hstop
      | false => exact .goOn hstage hstop
  · next hstage =>
      obtain ⟨i, hrow, hret⟩ := bind_eq_ok.mp (Option.some.inj h)
      cases hret
      unfold Sender.picked
      cases hwake : x.sch.wakeAt (t.rows.get i) with
      | none => exact .idle hstage hrow hwake _
      | some wake => exact .pick hstage hrow hwake
  · next i wake hstage =>
      cases h
      have hasleep : x.stage.Asleep i wake := by rw [hstage]; exact ⟨rfl, rfl⟩
      rcases slept_cases env.now i wake with ⟨hover, heq⟩ | hdoze
      · rw [heq]
        exact .rouse hasleep (.inl hover)
      · exact .doze hasleep hdoze
  · next i wake ends hstage =>
      have hasleep : x.stage.Asleep i wake := by rw [hstage]; exact ⟨rfl, rfl⟩
      obtain ⟨stage, hsel, heq⟩ := Option.map_eq_some_iff.mp h
      cases heq
      rcases selectDone_eq_some hsel with ⟨hdone, rfl⟩ | ⟨-, rfl⟩
      · exact .rouse hasleep (.inr hdone)
      · exact .doze hasleep ⟨rfl, rfl⟩
  · next i wake hstage =>
      have hasleep : x.stage.Asleep i wake := by rw [hstage]; exact ⟨rfl, rfl⟩
      cases h
      split
      · exact .doze hasleep ⟨rfl, rfl⟩
      · next hover => exact .rouse hasleep (.inl (Int.not_lt.mp hover))
  · next hstage =>
      cases h
      exact .turn hstage
  · next hstage =>
      cases h
      exact .finish hstage
  · next hstage =>
      cases h
      exact .pause hstage
  · next hstage =>
      cases h
      exact .begin hstage
  · next hstage =>
      cases h
      exact .returns hstage
  · cases h
  · next hstage =>
      cases h
      exact .op hstage
  · next ends hstage =>
      obtain ⟨stage, hsel, heq⟩ := Option.map_eq_some_iff.mp h
      cases heq
      rcases selectDone_eq_some hsel with ⟨hdone, rfl⟩ | ⟨hover, rfl⟩
      · exact .quit hstage hdone
      · exact .resume hstage hover
  · cases h

/-- The sender can panic at two places: the row of `index`, and inside
`sendBurst`. -/
theorem panic_of_senderStep {e : Panic} (h : x.step ipv6 v env = some (.error e)) :
    (x.stage = .picking ∧ rowAt t v.index = .error e) ∨
      ∃ rest d, x.stage = .bursting (.crash e) rest d := by
  unfold Sender.step at h
  split at h
  all_goals try cases h
  · next hstage =>
      refine .inl ⟨hstage, ?_⟩
      cases hrow : rowAt t v.index with
      | ok i =>
          rw [hrow] at h
          cases h
      | error e' =>
          rw [hrow] at h
          cases h
          rfl
  · obtain ⟨stage, -, heq⟩ := Option.map_eq_some_iff.mp h
    cases heq
  · next hstage => exact .inr ⟨_, _, hstage⟩
  · obtain ⟨stage, -, heq⟩ := Option.map_eq_some_iff.mp h
    cases heq

end Inversion

end Sending

/-! ## The test -/

inductive MainStage where
  /-- at the top of the loop -/
  | top
  /-- in the read -/
  | reading
  /-- the timestamps are in `echo`; the rest of the turn is to come -/
  | applying (st : StatusPDU)
  /-- after the loop -/
  | leaving
  /-- `done` is closed; in `<-sendEnd` -/
  | joining
  /-- `logSummary` has been called -/
  | summed
  deriving DecidableEq, Repr

/-- A downstream test: its main goroutine (with `index` and `echo` in `d`),
the flag, the channel, and the sender. -/
structure DownSystem (t : RateTable) where
  clock : Time
  stopAt : Time
  d : DownTest
  main : MainStage := .top
  stop : Bool := false
  done : Bool := false
  sender : Sending.Sender t
  /-- a panic in either goroutine ends the process -/
  crashed : Option Panic := none
  /-- the states `echo` has been set to -/
  heard : List EchoState := []

inductive MainEvent where
  /-- the clock at the top of the loop -/
  | check (now : Time)
  | read (r : ConnRead)
  | proceed (now : Time)

inductive DownLabel where
  | main (ev : MainEvent)
  /-- the stop timer fires -/
  | timer (now : Time)
  | sender (env : Sending.SendEnv)

def MainEvent.time : MainEvent → Time
  | .check now | .proceed now => now
  | .read r => r.returns

def DownLabel.time : DownLabel → Time
  | .main ev => ev.time
  | .timer now => now
  | .sender env => env.now

namespace DownSystem

variable {t : RateTable}

def init (srv : Server) (s : Session) (start : Time) : DownSystem srv.table where
  clock := start
  stopAt := start + (s.p.duration + 500 * millisecond)
  d := s.newDownTest srv start
  sender := { st := Sending.SendState.init s.p.randPayload }

def view (x : DownSystem t) : Sending.View where
  index := x.d.index
  echo := x.d.echo
  stores := x.heard.length
  stop := x.stop
  done := x.done

/-- A status PDU has been read: its timestamps are stored. -/
def hear (x : DownSystem t) (rxNow : Time) (st : StatusPDU) : DownSystem t :=
  { x with
    d := x.d.account rxNow st
    main := .applying st
    heard := x.heard ++ [⟨st.timeSec, st.timeNsec, rxNow⟩] }

/-- The main goroutine moves. -/
def stepMain (s : Session) (x : DownSystem t) : MainEvent → Option (DownSystem t)
  | .check now =>
      if x.main = .top then
        some { x with
          d := x.d.prepare now
          main := if (x.d.prepare now).running then .reading else .leaving }
      else none
  | .read r =>
      if x.main = .reading then
        match r with
        | .timeout _ => some { x with main := .top }
        | .failed _ => some { x with d := { x.d with running := false }, main := .leaving }
        | .datagram rx =>
            match DownTest.statusOf s rx with
            | .error e => some { x with crashed := some e }
            | .ok none => some { x with main := .top }
            | .ok (some st) => some (x.hear rx.now st)
      else none
  | .proceed _ =>
      match x.main with
      | .applying st =>
          if st.testAction ≠ testActionTest then
            some { x with d := { x.d with running := false }, main := .leaving }
          else some { x with d := x.d.steer st, main := .top }
      | .leaving => some { x with done := true, main := .joining }
      | .joining =>
          match x.sender.stage with
          | .returned => some { x with main := .summed }
          | _ => none
      | .top | .reading | .summed => none

/-- `stop.Store(true)`, unless the timer was stopped. -/
def stepTimer (x : DownSystem t) (now : Time) : Option (DownSystem t) :=
  if x.stop = false ∧ x.stopAt ≤ now ∧ x.main ≠ .summed then some { x with stop := true } else none

def stepSender (s : Session) (x : DownSystem t) (env : Sending.SendEnv) : Option (DownSystem t) :=
  (x.sender.step s.ipv6 x.view env).map fun
    | .ok snd => { x with sender := snd }
    | .error e => { x with crashed := some e }

def move (s : Session) (x : DownSystem t) : DownLabel → Option (DownSystem t)
  | .main ev => x.stepMain s ev
  | .timer now => x.stepTimer now
  | .sender env => x.stepSender s env

/-- Time does not go backwards, and nothing moves after a panic. -/
def step (s : Session) (x : DownSystem t) (l : DownLabel) : Option (DownSystem t) :=
  if x.crashed = none ∧ x.clock ≤ l.time then
    (x.move s l).map fun x' => { x' with clock := l.time }
  else none

end DownSystem

/-! ### What a step of the test can do -/

/-- The steps of the test, by the goroutine that moves. -/
inductive DownMoves {t : RateTable} (s : Session) (x : DownSystem t) :
    DownLabel → DownSystem t → Prop where
  | goOn {now : Time} (hmain : x.main = .top) (hrun : (x.d.prepare now).running = true) :
      DownMoves s x (.main (.check now)) { x with d := x.d.prepare now, main := .reading }
  | expire {now : Time} (hmain : x.main = .top) (hrun : (x.d.prepare now).running = false) :
      DownMoves s x (.main (.check now)) { x with d := x.d.prepare now, main := .leaving }
  | ignore {r : ConnRead} (hmain : x.main = .reading) (hfail : ∀ at_, r ≠ .failed at_)
      (hread : ∀ rx, r = .datagram rx → DownTest.statusOf s rx = .ok none) :
      DownMoves s x (.main (.read r)) { x with main := .top }
  | fail {at_ : Time} (hmain : x.main = .reading) :
      DownMoves s x (.main (.read (.failed at_)))
        { x with d := { x.d with running := false }, main := .leaving }
  | hear {rx : Rx} {st : StatusPDU} (hmain : x.main = .reading)
      (hst : DownTest.statusOf s rx = .ok (some st)) :
      DownMoves s x (.main (.read (.datagram rx))) (x.hear rx.now st)
  | finish {now : Time} {st : StatusPDU} (hmain : x.main = .applying st)
      (hstop : st.testAction ≠ testActionTest) :
      DownMoves s x (.main (.proceed now))
        { x with d := { x.d with running := false }, main := .leaving }
  | steer {now : Time} {st : StatusPDU} (hmain : x.main = .applying st)
      (htest : st.testAction = testActionTest) :
      DownMoves s x (.main (.proceed now)) { x with d := x.d.steer st, main := .top }
  | close {now : Time} (hmain : x.main = .leaving) :
      DownMoves s x (.main (.proceed now)) { x with done := true, main := .joining }
  | join {now : Time} (hmain : x.main = .joining) (hsender : x.sender.stage = .returned) :
      DownMoves s x (.main (.proceed now)) { x with main := .summed }
  | timer {now : Time} (hat : x.stopAt ≤ now) (hmain : x.main ≠ .summed) :
      DownMoves s x (.timer now) { x with stop := true }
  | sender {env : Sending.SendEnv} {snd : Sending.Sender t}
      (hmove : Sending.SenderMoves s.ipv6 x.view env x.sender snd) :
      DownMoves s x (.sender env) { x with sender := snd }
  | panic {env : Sending.SendEnv} {e : Panic}
      (hstep : x.sender.step s.ipv6 x.view env = some (.error e)) :
      DownMoves s x (.sender env) { x with crashed := some e }

section Inversion

variable {t : RateTable} {s : Session} {x x' : DownSystem t} {l : DownLabel}

theorem downMoves_of_stepMain {ev : MainEvent} (h : x.stepMain s ev = some x') :
    DownMoves s x (.main ev) x' := by
  cases ev with
  | check now =>
      obtain ⟨hmain, heq⟩ := Option.ite_none_right_eq_some.mp h
      cases heq
      cases hrun : (x.d.prepare now).running with
      | true => exact .goOn hmain hrun
      | false => exact .expire hmain hrun
  | read r =>
      obtain ⟨hmain, hread⟩ := Option.ite_none_right_eq_some.mp h
      cases r with
      | timeout at_ =>
          cases hread
          exact .ignore hmain nofun nofun
      | failed at_ =>
          cases hread
          exact .fail hmain
      | datagram rx =>
          obtain ⟨o, ho⟩ := DownTest.statusOf_total s rx
          simp only [ho] at hread
          cases o with
          | none =>
              cases hread
              refine .ignore hmain nofun ?_
              rintro _ ⟨⟩
              exact ho
          | some st =>
              cases hread
              exact .hear hmain ho
  | proceed now =>
      simp only [DownSystem.stepMain] at h
      split at h
      · next st hmain =>
          split at h
          · next hstop =>
              cases h
              exact .finish hmain hstop
          · next htest =>
              cases h
              exact .steer hmain (not_not.mp htest)
      · next hmain =>
          cases h
          exact .close hmain
      · next hmain =>
          split at h
          · next hsender =>
              cases h
              exact .join hmain hsender
          · cases h
      all_goals cases h

/-- **Every step of the test is one of the moves**, made at the time of its
label, while no goroutine has panicked. -/
theorem downMoves_of_step (h : x.step s l = some x') :
    x.crashed = none ∧ x.clock ≤ l.time ∧
      ∃ y, DownMoves s x l y ∧ x' = { y with clock := l.time } := by
  obtain ⟨⟨hok, htime⟩, hmap⟩ := Option.ite_none_right_eq_some.mp h
  obtain ⟨y, hmove, rfl⟩ := Option.map_eq_some_iff.mp hmap
  refine ⟨hok, htime, y, ?_, rfl⟩
  cases l with
  | main ev => exact downMoves_of_stepMain hmove
  | timer now =>
      obtain ⟨⟨-, hat, hmain⟩, heq⟩ := Option.ite_none_right_eq_some.mp hmove
      cases heq
      exact .timer hat hmain
  | sender env =>
      obtain ⟨r, hstep, heq⟩ := Option.map_eq_some_iff.mp hmove
      cases r with
      | ok snd =>
          cases heq
          exact .sender (Sending.senderMoves_of_step hstep)
      | error e =>
          cases heq
          exact .panic hstep

end Inversion

end Diagd.Udpst
