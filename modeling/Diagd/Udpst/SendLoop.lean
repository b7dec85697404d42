import Diagd.Lib.Pacing
import Diagd.Udpst.Sending

/-!
# Pacing the bursts (`sendLoop` of `session.go`)

A turn of the loop either sends a stop indication or serves the two
transmitters of the row it has loaded: it sleeps, reads the clock once and
lets each active transmitter catch up, at most 20 bursts. The clock read
after the sleep is the label of the turn. It is NOT assumed to have reached
the time slept for, since `sleepUntil` returns early when the test is over.

Each transmitter is a `Pacing` of its own; what they share is the clock.
-/

namespace Diagd.Udpst

namespace Sending

open GoStd

/-! ## The code -/

/-- The bound on `caught`. -/
abbrev maxCaught : Nat := 20

inductive Transmitter where
  | first
  | second
  deriving DecidableEq, Repr

namespace Transmitter

/-- `t1Active` and `t2Active`: only the second has an add-on datagram. -/
def active : Transmitter → Rate → Bool
  | .first, row => decide (0 < row.txInterval1) && decide (0 < row.burstSize1)
  | .second, row => decide (0 < row.txInterval2) &&
      (decide (0 < row.burstSize2) || decide (0 < row.udpAddon2))

/-- `iv`. -/
def interval : Transmitter → Rate → Duration
  | .first, row => row.txInterval1.toNat * microsecond
  | .second, row => row.txInterval2.toNat * microsecond

/-- The burst is one of this transmitter. -/
def owns {t : RateTable} : Transmitter → Burst t → Bool
  | .first, .first _ => true
  | .second, .second _ => true
  | _, _ => false

/-- The part of a turn that serves one transmitter: the number of bursts and
the new due time. -/
def serve (tx : Transmitter) (row : Rate) (next now : Time) : Nat × Time :=
  if tx.active row then Pacing.wake maxCaught (tx.interval row) next now
  else (0, now + 10 * millisecond)

end Transmitter

/-- `next1` and `next2`. -/
structure Schedule where
  next1 : Time
  next2 : Time
  deriving DecidableEq, Repr

/-- One turn: the stop indication, or row `i` with the clock after the sleep. -/
inductive LoopTurn (t : RateTable) where
  | stop
  | row (i : Fin t.rows.length) (now : Time)

namespace Schedule

variable {t : RateTable}

/-- Both transmitters start after the same random delay. -/
def init (now : Time) (startDelay : Duration) : Schedule := ⟨now + startDelay, now + startDelay⟩

def next (sch : Schedule) : Transmitter → Time
  | .first => sch.next1
  | .second => sch.next2

/-- `wake`, the time `sleepUntil` is given; `none` is the zero time. -/
def wakeAt (sch : Schedule) (row : Rate) : Option Time :=
  let wake := if Transmitter.first.active row then some sch.next1 else none
  if Transmitter.second.active row then
    match wake with
    | none => some sch.next2
    | some w => if sch.next2 < w then some sch.next2 else some w
  else wake

/-- A turn of the loop: the schedule afterwards, and the bursts in order. -/
def turn (sch : Schedule) : LoopTurn t → Schedule × List (Burst t)
  | .stop => (sch, [.stop])
  | .row i now =>
      -- a row without an active transmitter is only waited out
      if !Transmitter.first.active (t.rows.get i) && !Transmitter.second.active (t.rows.get i) then
        (sch, [])
      else
        let served1 := Transmitter.first.serve (t.rows.get i) sch.next1 now
        let served2 := Transmitter.second.serve (t.rows.get i) sch.next2 now
        (⟨served1.2, served2.2⟩,
          List.replicate served1.1 (.first i) ++ List.replicate served2.1 (.second i))

/-- The loop: its bursts are those `sendBursts` sends. -/
def run (sch : Schedule) : List (LoopTurn t) → Schedule × List (Burst t)
  | [] => (sch, [])
  | turn :: turns =>
      let served := sch.turn turn
      let rest := served.1.run turns
      (rest.1, served.2 ++ rest.2)

/-- The bursts of one transmitter in a turn. -/
def sentBy (sch : Schedule) (tx : Transmitter) (turn : LoopTurn t) : Nat :=
  (sch.turn turn).2.countP tx.owns

/-- When the bursts of one transmitter are sent, in order: none is sent
before the clock its turn has read. -/
def sendTimes (tx : Transmitter) (sch : Schedule) : List (LoopTurn t) → List Time
  | [] => []
  | .stop :: turns => sendTimes tx sch turns
  | .row i now :: turns =>
      List.replicate (sch.sentBy tx (.row i now)) now ++
        sendTimes tx (sch.turn (.row i now)).1 turns

end Schedule

/-! ## A transmitter that stays active is a pacer -/

section Active

variable {t : RateTable} {tx : Transmitter} {i : Fin t.rows.length}

theorem microseconds_pos {n : UInt32} (h : 0 < n) : (0 : Int) < n.toNat * microsecond := by
  have hpos : 0 < n.toNat := UInt32.lt_iff_toNat_lt.mp h
  show (0 : Int) < n.toNat * 1000
  omega

theorem Transmitter.interval_pos {row : Rate} (h : tx.active row = true) :
    (0 : Int) < tx.interval row := by
  cases tx with
  | first => exact microseconds_pos (of_decide_eq_true (Bool.and_eq_true_iff.mp h).1)
  | second => exact microseconds_pos (of_decide_eq_true (Bool.and_eq_true_iff.mp h).1)

theorem countP_owns (n₁ n₂ : Nat) :
    (List.replicate n₁ (Burst.first i) ++ List.replicate n₂ (Burst.second i)).countP tx.owns =
      match tx with
      | .first => n₁
      | .second => n₂ := by
  cases tx <;> simp [List.countP_append, List.countP_replicate, Transmitter.owns]

/-- A turn on a row with an active transmitter serves both. -/
theorem turn_busy (h : tx.active (t.rows.get i) = true) (sch : Schedule) (now : Time) :
    sch.turn (.row i now) =
      (⟨(Transmitter.first.serve (t.rows.get i) sch.next1 now).2,
          (Transmitter.second.serve (t.rows.get i) sch.next2 now).2⟩,
        List.replicate (Transmitter.first.serve (t.rows.get i) sch.next1 now).1 (.first i) ++
          List.replicate (Transmitter.second.serve (t.rows.get i) sch.next2 now).1 (.second i)) := by
  refine if_neg ?_
  intro hidle
  obtain ⟨hfirst, hsecond⟩ := Bool.and_eq_true_iff.mp hidle
  cases tx with
  | first =>
      rw [h] at hfirst
      cases hfirst
  | second =>
      rw [h] at hsecond
      cases hsecond

/-- A turn on the row, for the transmitter. -/
theorem turn_active (h : tx.active (t.rows.get i) = true) (sch : Schedule) (now : Time) :
    ((sch.turn (.row i now)).1.next tx =
        (Pacing.wake maxCaught (tx.interval (t.rows.get i)) (sch.next tx) now).2) ∧
      sch.sentBy tx (.row i now) =
        (Pacing.wake maxCaught (tx.interval (t.rows.get i)) (sch.next tx) now).1 := by
  have hserve : tx.serve (t.rows.get i) (sch.next tx) now =
      Pacing.wake maxCaught (tx.interval (t.rows.get i)) (sch.next tx) now := if_pos h
  rw [Schedule.sentBy, turn_busy h, countP_owns, ← hserve]
  cases tx <;> exact ⟨rfl, rfl⟩

/-- All turns on the row. -/
theorem run_active (h : tx.active (t.rows.get i) = true) (sch : Schedule) (ws : List Time) :
    (sch.run (ws.map (LoopTurn.row i))).1.next tx =
        (Pacing.wakes maxCaught (tx.interval (t.rows.get i)) (sch.next tx) ws).1 ∧
      sch.sendTimes tx (ws.map (LoopTurn.row i)) =
        (Pacing.wakes maxCaught (tx.interval (t.rows.get i)) (sch.next tx) ws).2 := by
  induction ws generalizing sch with
  | nil => exact ⟨rfl, rfl⟩
  | cons w ws ih =>
      obtain ⟨hnext, hsent⟩ := turn_active h sch w
      obtain ⟨hrun, htimes⟩ := ih (sch.turn (.row i w)).1
      rw [hnext] at hrun htimes
      refine ⟨hrun, ?_⟩
      rw [List.map_cons, Schedule.sendTimes, htimes, hsent]
      rfl

end Active

/-! ## Results -/

section Results

variable {t : RateTable}

/-- The loop does not spin: a turn that has slept until its wake time sends
at least one burst. -/
theorem turn_sends {i : Fin t.rows.length} {sch : Schedule} {w now : Time}
    (hwake : sch.wakeAt (t.rows.get i) = some w) (hnow : w ≤ now) :
    ∃ tx, 0 < sch.sentBy tx (.row i now) := by
  -- the wake time is the due time of an active transmitter
  obtain ⟨tx, hact, hw⟩ : ∃ tx : Transmitter,
      tx.active (t.rows.get i) = true ∧ sch.next tx = w := by
    unfold Schedule.wakeAt at hwake
    cases h₁ : Transmitter.first.active (t.rows.get i) <;>
      cases h₂ : Transmitter.second.active (t.rows.get i) <;>
      simp only [h₁, h₂, if_true, if_false, Bool.false_eq_true] at hwake
    · cases hwake
    · exact ⟨.second, h₂, Option.some.inj hwake⟩
    · exact ⟨.first, h₁, Option.some.inj hwake⟩
    · split at hwake
      · exact ⟨.second, h₂, Option.some.inj hwake⟩
      · exact ⟨.first, h₁, Option.some.inj hwake⟩
  have hiv := Transmitter.interval_pos hact
  refine ⟨tx, ?_⟩
  rw [(turn_active hact sch now).2, Pacing.wake_count hiv]
  have hdue : 0 < Pacing.due (tx.interval (t.rows.get i)) (sch.next tx) now := by
    rw [Pacing.lt_due_iff hiv, Nat.cast_zero, zero_mul, add_zero, hw]
    exact hnow
  exact Nat.lt_min.mpr ⟨by decide, hdue⟩

/-- **Pacing neither overshoots nor undershoots.** A transmitter that stays
active on row `i`, with first due time `t0`, woken at the times `ws`:

* burst `k`, counted from 0, is not sent before `t0 + k * iv`;
* each wake sends at most 20 bursts and leaves a due time that is not before
  the wake;
* if at every wake at most 20 ticks are due, then after a wake at `w ≥ t0`
  exactly `(w - t0) / iv + 1` bursts have been sent. -/
theorem pacing_exact (i : Fin t.rows.length) (tx : Transmitter) (sch : Schedule) (ws : List Time)
    (hact : tx.active (t.rows.get i) = true) (hmono : ws.Pairwise (· ≤ ·)) :
    let iv := tx.interval (t.rows.get i)
    let t0 := sch.next tx
    let after := fun ws' : List Time => (sch.run (ws'.map (LoopTurn.row i))).1
    let sent := fun ws' : List Time => sch.sendTimes tx (ws'.map (LoopTurn.row i))
    0 < iv ∧
      (∀ (k : Nat) (w : Time), (sent ws)[k]? = some w → t0 + k * iv ≤ w) ∧
      (∀ before w rest, ws = before ++ w :: rest →
        (after before).sentBy tx (.row i w) ≤ 20 ∧
          w ≤ ((after before).turn (.row i w)).1.next tx) ∧
      ((∀ before w rest, ws = before ++ w :: rest →
          Pacing.due iv ((after before).next tx) w ≤ 20) →
        ∀ before w rest, ws = before ++ w :: rest → t0 ≤ w →
          ((sent (before ++ [w])).length : Int) = (w - t0) / iv + 1) := by
  intro iv t0 after sent
  have hiv : (0 : Int) < iv := Transmitter.interval_pos hact
  have hsent : ∀ ws', sent ws' = (Pacing.wakes maxCaught iv t0 ws').2 :=
    fun ws' => (run_active hact sch ws').2
  have hafter : ∀ ws', (after ws').next tx = (Pacing.wakes maxCaught iv t0 ws').1 :=
    fun ws' => (run_active hact sch ws').1
  refine ⟨hiv, ?_, ?_, ?_⟩
  · intro k w hk
    rw [hsent] at hk
    exact Pacing.wakes_ge hiv hk
  · intro before w rest _
    obtain ⟨hnext, hcount⟩ := turn_active hact (after before) w
    rw [hnext, hcount, Pacing.wake_count hiv]
    exact ⟨Nat.min_le_left _ _, Pacing.le_wake_next hiv⟩
  · intro hdue before w rest hws hw
    have hwhole : ws = (before ++ [w]) ++ rest := by
      rw [hws, List.append_assoc, List.singleton_append]
    have hmono' : (before ++ [w]).Pairwise (· ≤ ·) := by
      rw [hwhole] at hmono
      exact (List.pairwise_append.mp hmono).1
    have htime : Pacing.InTime maxCaught iv t0 (before ++ [w]) := by
      refine Pacing.inTime_of_forall fun before' w' rest' hsplit => ?_
      rw [← hafter]
      refine hdue before' w' (rest' ++ rest) ?_
      rw [hwhole, hsplit, List.append_assoc, List.cons_append]
    rw [hsent, Pacing.wakes_length hiv hmono' htime]
    exact Pacing.due_eq_of_le hiv hw

/-! ### One burst a millisecond -/

def everyMillisecond : RateTable where
  rows := [{ txInterval1 := 1000, udpPayload1 := 1222, burstSize1 := 1 }]
  highSpeedThresh := 0

/-- First due at 5 ms, and woken at 6 ms and at 8.5 ms. -/
theorem pacing_exact_everyMillisecond :
    (Schedule.sendTimes .first (Schedule.init 0 (5 * millisecond))
      ([6000000, 8500000].map (LoopTurn.row (t := everyMillisecond) ⟨0, by decide⟩))).length =
        4 := by
  obtain ⟨-, -, -, hexact⟩ := pacing_exact (t := everyMillisecond) ⟨0, by decide⟩ .first
    (Schedule.init 0 (5 * millisecond)) [6000000, 8500000] (by decide) (by decide)
  have hlen := hexact ?_ [6000000] 8500000 [] rfl (by decide)
  · exact Int.ofNat.inj hlen
  · intro before w rest hsplit
    rcases before with _ | ⟨w₁, _ | ⟨w₂, before⟩⟩
    · cases hsplit
      decide +kernel
    · cases hsplit
      decide +kernel
    · cases before <;> cases hsplit

end Results

end Sending

end Diagd.Udpst
