import Diagd.Udpst.LoadStream
import Diagd.Udpst.Nominal

/-!
# The load has a ceiling

The search moves the sender from row to row, and the due times of the two
transmitters move with it: each row has its own intervals, and a transmitter a
row does not use is due again 10 ms later. Whatever the rows, the bursts of a
transmitter are no closer than its base interval on average, from the start of
the test on: nothing is caught up twice, and no change of row earns a burst.
-/

namespace Diagd.Udpst

open GoSlice GoStd

namespace Sending

variable {t : RateTable} {ipv6 : Bool}

/-! ## Rows -/

/-- The base interval of a transmitter, in microseconds. -/
def Transmitter.base : Transmitter → UInt32
  | .first => baseSendTimer1
  | .second => baseSendTimer2

def Transmitter.period (tx : Transmitter) : Int := tx.base.toNat * microsecond

theorem Transmitter.period_bounds (tx : Transmitter) :
    0 < tx.period ∧ tx.period ≤ 10 * millisecond := by
  cases tx <;> decide

/-- No row has a shorter interval. -/
def Unhurried (t : RateTable) : Prop :=
  ∀ (tx : Transmitter) (i : Fin t.rows.length), tx.active (t.rows.get i) = true →
    tx.period ≤ tx.interval (t.rows.get i)

def Transmitter.field : Transmitter → Rate → UInt32
  | .first, row => row.txInterval1
  | .second, row => row.txInterval2

theorem Transmitter.interval_eq (tx : Transmitter) (row : Rate) :
    tx.interval row = (tx.field row).toNat * microsecond := by
  cases tx <;> rfl

/-- The intervals of the table: none, the base interval, and the one of row 0. -/
def Transmitter.Keeps (tx : Transmitter) (row : Rate) : Prop :=
  tx.field row = 0 ∨ tx.field row = tx.base ∨ tx.field row = 50000

theorem tableRow_keeps (tx : Transmitter) (jumbo traditionalMTU : Bool) (n : Nat) :
    tx.Keeps (tableRow jumbo traditionalMTU n) := by
  have hfast : ∀ payload burst, tx.Keeps (fastRow payload burst) := by
    intro payload burst
    cases tx with
    | first => exact .inr (.inl rfl)
    | second => exact .inl rfl
  have hplain : ∀ payload k i, tx.Keeps (plainRow payload k i) := by
    intro payload k i
    unfold plainRow
    dsimp only
    cases tx <;> split_ifs <;> first | exact .inl rfl | exact .inr (.inl rfl)
  unfold tableRow gridRow
  split_ifs
  · cases tx with
    | first => exact .inl rfl
    | second => exact .inr (.inr rfl)
  · exact hplain _ _ _
  · cases tx with
    | first => exact hplain _ _ _
    | second => exact .inr (.inl rfl)
  all_goals exact hfast _ _

theorem Transmitter.Keeps.period_le {tx : Transmitter} {row : Rate} (h : tx.Keeps row)
    (hactive : tx.active row = true) : tx.period ≤ tx.interval row := by
  have hpos := Transmitter.interval_pos hactive
  rw [tx.interval_eq] at hpos ⊢
  rcases h with hnone | hbase | hzero
  · rw [hnone] at hpos
    exact absurd hpos (by decide)
  · rw [hbase, Transmitter.period]
  · rw [hzero]
    cases tx <;> decide

theorem unhurried_table (srv : Server) : Unhurried srv.table := by
  intro tx i hactive
  have hrow : (buildRateTable srv.cfg.jumbo srv.cfg.traditionalMTU).rows[i.val]? =
      some (srv.table.rows.get i) := by
    rw [← srv.table_eq]
    exact List.getElem?_eq_getElem i.isLt
  obtain ⟨-, htable⟩ := eq_tableRow hrow
  have hkeeps := tableRow_keeps tx srv.cfg.jumbo srv.cfg.traditionalMTU i.val
  rw [← htable] at hkeeps
  exact hkeeps.period_le hactive

/-! ## One turn -/

/-- A row that does not use the transmitter. -/
theorem turn_unused {tx : Transmitter} {i : Fin t.rows.length}
    (h : tx.active (t.rows.get i) = false) (sch : Schedule) (now : Time) :
    sch.sentBy tx (.row i now) = 0 ∧
      ((sch.turn (.row i now)).1.next tx = sch.next tx ∨
        (sch.turn (.row i now)).1.next tx = now + 10 * millisecond) := by
  have hserve : ∀ next, tx.serve (t.rows.get i) next now = (0, now + 10 * millisecond) := by
    intro next
    rw [Transmitter.serve, h]
    rfl
  by_cases hidle : (!Transmitter.first.active (t.rows.get i) &&
      !Transmitter.second.active (t.rows.get i)) = true
  · have hturn : sch.turn (.row i now) = (sch, []) := if_pos hidle
    rw [Schedule.sentBy, hturn]
    exact ⟨rfl, .inl rfl⟩
  · have hturn : sch.turn (.row i now) = _ := if_neg hidle
    rw [Schedule.sentBy, hturn]
    dsimp only
    rw [countP_owns]
    cases tx with
    | first => rw [hserve]; exact ⟨rfl, .inr rfl⟩
    | second => rw [hserve]; exact ⟨rfl, .inr rfl⟩

/-- A turn pays for its bursts, or has none and sets the due time anew. -/
theorem turn_paid (ht : Unhurried t) (tx : Transmitter) (i : Fin t.rows.length) (sch : Schedule)
    (now : Int) :
    (sch.next tx + sch.sentBy tx (.row i now) * tx.period ≤ (sch.turn (.row i now)).1.next tx ∨
      sch.sentBy tx (.row i now) = 0 ∧
        (sch.turn (.row i now)).1.next tx = now + 10 * millisecond) ∧
    (sch.sentBy tx (.row i now) = 0 ∨
      sch.next tx + sch.sentBy tx (.row i now) * tx.period ≤ now + tx.period) := by
  cases hactive : tx.active (t.rows.get i) with
  | true =>
      obtain ⟨hnext, hsent⟩ := turn_active hactive sch now
      rw [hnext, hsent]
      obtain ⟨hpaid, hlate⟩ := Pacing.wake_paid tx.period_bounds.1 (ht tx i hactive)
      exact ⟨.inl hpaid, hlate⟩
  | false =>
      obtain ⟨hnone, hnext⟩ := turn_unused hactive sch now
      rw [hnone]
      refine ⟨?_, .inl rfl⟩
      rcases hnext with hsame | hanew
      · rw [hsame, Nat.cast_zero, zero_mul, add_zero]
        exact .inl (le_refl _)
      · exact .inr ⟨rfl, hanew⟩

/-! ## The sender -/

/-- The bursts of the turn that are still to come. -/
def Stage.queue : Stage t → List (Burst t)
  | .sending rest _ | .bursting _ rest _ => rest
  | .starting | .top | .polling | .picking | .sleeping _ _ | .napping _ _ _ | .spinning _ _
  | .waking _ | .pausing _ | .returned => []

/-- The bursts of a transmitter in the turns so far. -/
def Sender.bursts (x : Sender t) (tx : Transmitter) : Nat :=
  (x.begun ++ x.stage.queue).countP tx.owns

/-- The bursts are paid for: with the due time, and all but one with the time
that has passed. -/
structure Paced (start clock : Int) (tx : Transmitter) (x : Sender t) : Prop where
  fresh : x.stage = .starting → x.bursts tx = 0
  next : x.stage ≠ .starting → start + x.bursts tx * tx.period ≤ x.sch.next tx
  sent : start + x.bursts tx * tx.period ≤ clock + tx.period

section Paced

variable {v : View} {env : SendEnv} {x x' : Sender t} {tx : Transmitter} {start clock : Int}

theorem Paced.later (h : Paced start clock tx x) {clock' : Int} (hle : clock ≤ clock') :
    Paced start clock' tx x :=
  ⟨h.fresh, h.next, h.sent.trans (Int.add_le_add_right hle _)⟩

/-- A step that begins no turn. -/
theorem Paced.quiet (h : Paced start clock tx x) (hx : x.stage ≠ .starting)
    (hx' : x'.stage ≠ .starting) (hbursts : x'.bursts tx = x.bursts tx) (hsch : x'.sch = x.sch) :
    Paced start clock tx x' where
  fresh hstage := absurd hstage hx'
  next _ := by
    rw [hbursts, hsch]
    exact h.next hx
  sent := by
    rw [hbursts]
    exact h.sent

/-- A turn on a row. -/
theorem Paced.row (h : Paced start clock tx x) (ht : Unhurried t) {i : Fin t.rows.length}
    (hstage : x.stage = .waking i) {now : Int} (hle : clock ≤ now) :
    Paced start now tx (x.serve (.row i now) none) := by
  have hx : x.stage ≠ .starting := by
    rw [hstage]
    nofun
  have hbursts : (x.serve (.row i now) none).bursts tx =
      x.bursts tx + x.sch.sentBy tx (.row i now) := by
    unfold Sender.bursts
    rw [List.countP_append, List.countP_append, hstage]
    rfl
  obtain ⟨hp, hten⟩ := tx.period_bounds
  have hdue : start + x.bursts tx * tx.period ≤ x.sch.next tx := h.next hx
  have hpast := h.sent
  obtain ⟨hnext, hlate⟩ := turn_paid ht tx i x.sch now
  refine ⟨nofun, fun _ => ?_, ?_⟩
  · show _ ≤ (x.sch.turn (.row i now)).1.next tx
    rw [hbursts, Nat.cast_add, add_mul]
    rcases hnext with hpaid | ⟨hnone, hanew⟩
    · linarith
    · rw [hnone, hanew, Nat.cast_zero, zero_mul]
      linarith
  · rw [hbursts, Nat.cast_add, add_mul]
    rcases hlate with hnone | hpaid
    · rw [hnone, Nat.cast_zero, zero_mul]
      linarith
    · linarith

/-- A burst is taken from the queue. -/
theorem bursts_begin {c : Burst t} {rest : List (Burst t)} {d : Option Duration}
    (hstage : x.stage = .sending (c :: rest) d) (prog : SendProg SendState) (tx : Transmitter) :
    { x with stage := .bursting prog rest d, begun := x.begun ++ [c] }.bursts tx = x.bursts tx := by
  unfold Sender.bursts
  rw [hstage]
  simp [Stage.queue]

theorem Stage.Asleep.queue {i : Fin t.rows.length} {wake : Time} {stage : Stage t}
    (h : stage.Asleep i wake) : stage ≠ .starting ∧ stage.queue = [] := by
  cases stage with
  | sleeping | napping | spinning => exact ⟨nofun, rfl⟩
  | starting | top | polling | picking | waking | sending | bursting | pausing | returned =>
      exact h.elim

theorem Paced.step (h : Paced start clock tx x) (ht : Unhurried t) (hstart : start ≤ clock)
    (hle : clock ≤ env.now) (hmove : SenderMoves ipv6 v env x x') :
    Paced start env.now tx x' := by
  have hlater := h.later hle
  cases hmove with
  | start hstage hmin hmax =>
      -- nothing has been sent, and both transmitters are due after the delay
      have hbursts : ∀ sch : Schedule, { x with stage := .top, sch := sch }.bursts tx = 0 := by
        intro sch
        rw [← h.fresh hstage, Sender.bursts, Sender.bursts, hstage]
        rfl
      have hdelay : (0 : Int) ≤ _ := le_trans (by decide) hmin
      refine ⟨nofun, fun _ => ?_, ?_⟩
      · rw [hbursts, Nat.cast_zero, zero_mul, add_zero]
        have hnext : ∀ delay : Duration, (Schedule.init env.now delay).next tx = env.now + delay := by
          intro delay
          cases tx <;> rfl
        rw [hnext]
        linarith
      · rw [hbursts, Nat.cast_zero, zero_mul, add_zero]
        linarith [tx.period_bounds.1]
  | turn hstage => exact h.row ht hstage hle
  | stop hstage =>
      refine hlater.quiet (by rw [hstage]; nofun) nofun ?_ rfl
      unfold Sender.bursts
      rw [hstage, List.countP_append, List.countP_append]
      cases tx <;> rfl
  | begin hstage =>
      exact hlater.quiet (by rw [hstage]; nofun) nofun (bursts_begin hstage _ tx) rfl
  | leave hstage | enter hstage | goOn hstage | idle hstage | pick hstage | finish hstage
  | pause hstage | returns hstage | op hstage | resume hstage | quit hstage =>
      refine hlater.quiet (by rw [hstage]; nofun) nofun ?_ rfl
      rw [Sender.bursts, Sender.bursts, hstage]
      rfl
  | doze hstage hto =>
      obtain ⟨hx, hqueue⟩ := hstage.queue
      obtain ⟨hx', hqueue'⟩ := hto.queue
      refine hlater.quiet hx hx' ?_ rfl
      rw [Sender.bursts, Sender.bursts, hqueue, hqueue']
  | rouse hstage =>
      obtain ⟨hx, hqueue⟩ := hstage.queue
      refine hlater.quiet hx nofun ?_ rfl
      rw [Sender.bursts, Sender.bursts, hqueue]
      rfl

end Paced

end Sending

/-! ## The whole test -/

/-- Both transmitters are paced, from the start of the test to its clock. -/
structure Ceiling {t : RateTable} (start : Int) (x : DownSystem t) : Prop where
  started : start ≤ x.clock
  paced : ∀ tx, Sending.Paced start x.clock tx x.sender

theorem Ceiling.step {t : RateTable} {s : Session} {start : Int} {x x' : DownSystem t}
    {l : DownLabel} (h : Ceiling start x) (ht : Sending.Unhurried t) (hstep : x.step s l = some x') :
    Ceiling start x' := by
  obtain ⟨-, hle, y, hmove, rfl⟩ := downMoves_of_step hstep
  refine ⟨h.started.trans hle, fun tx => ?_⟩
  cases hmove with
  | sender hmove => exact (h.paced tx).step ht h.started hle hmove
  | goOn | expire | ignore | fail | hear | finish | steer | close | join | timer | panic =>
      exact (h.paced tx).later hle

theorem ceiling_of_reachable {srv : Server} {s : Session} {start : Time} {x : DownSystem srv.table}
    (hx : DownReachable srv s start x) : Ceiling start x := by
  refine hx.invariant ⟨le_refl _, fun tx => ?_⟩ fun _ _ _ h hstep =>
    h.step (Sending.unhurried_table srv) hstep
  refine ⟨fun _ => rfl, fun hstage => absurd rfl hstage, ?_⟩
  show start + ((0 : Nat) : Int) * tx.period ≤ start + tx.period
  rw [Nat.cast_zero, zero_mul]
  linarith [tx.period_bounds.1]

/-- **The load has a ceiling.** In every state of a downstream test, whatever
rows the client's status PDUs have led the search to and however often they
have changed: the first transmitter has begun at most one burst for each 100 µs
since the start of the test and one more, the second at most one for each
1 ms and one more. -/
theorem load_bounded (srv : Server) (s : Session) (start : Time) {x : DownSystem srv.table}
    (hx : DownReachable srv s start x) :
    (x.sender.begun.countP Sending.Transmitter.first.owns : Int) * (100 * microsecond) ≤
        x.clock - start + 100 * microsecond ∧
      (x.sender.begun.countP Sending.Transmitter.second.owns : Int) * (1000 * microsecond) ≤
        x.clock - start + 1000 * microsecond := by
  obtain ⟨-, hpaced⟩ := ceiling_of_reachable hx
  have hbegun : ∀ tx : Sending.Transmitter,
      (x.sender.begun.countP tx.owns : Int) * tx.period ≤ x.clock - start + tx.period := by
    intro tx
    have hsent := (hpaced tx).sent
    have hcount : x.sender.begun.countP tx.owns ≤ x.sender.bursts tx := by
      rw [Sending.Sender.bursts, List.countP_append]
      exact Nat.le_add_right _ _
    have hscale : (x.sender.begun.countP tx.owns : Int) * tx.period ≤
        x.sender.bursts tx * tx.period :=
      mul_le_mul_of_nonneg_right (Int.ofNat_le.mpr hcount) tx.period_bounds.1.le
    linarith
  exact ⟨hbegun .first, hbegun .second⟩

/-- One and a half seconds into the test, with one burst of the second
transmitter and one stop indication. -/
theorem load_bounded_oneStop : ∃ x, DownReachable briefServer briefSession 0 x ∧
    x.sender.begun.length = 2 ∧ x.sender.begun.countP Sending.Transmitter.second.owns = 1 ∧
    x.sender.begun.countP Sending.Transmitter.first.owns ≤ 15001 ∧
    x.sender.begun.countP Sending.Transmitter.second.owns ≤ 1501 := by
  have hrun : (Transition.run (DownSystem.step briefSession)
      (DownSystem.init briefServer briefSession 0) (untilTimer ++ afterTimer)).map
        (fun x => (x.clock, x.sender.begun.length,
          x.sender.begun.countP Sending.Transmitter.second.owns)) =
      some (1500 * millisecond, 2, 1) := by
    decide +kernel
  obtain ⟨x, hx, hfacts⟩ := Option.map_eq_some_iff.mp hrun
  obtain ⟨hclock, hcounts⟩ := Prod.mk.inj hfacts
  obtain ⟨hlen, hone⟩ := Prod.mk.inj hcounts
  have hreach : DownReachable briefServer briefSession 0 x := ⟨_, hx⟩
  obtain ⟨hfirst, hsecond⟩ := load_bounded briefServer briefSession 0 hreach
  rw [hclock] at hfirst hsecond
  have hfirst' : (x.sender.begun.countP Sending.Transmitter.first.owns : Int) * 100000 ≤
      1500000000 - 0 + 100000 := hfirst
  have hsecond' : (x.sender.begun.countP Sending.Transmitter.second.owns : Int) * 1000000 ≤
      1500000000 - 0 + 1000000 := hsecond
  exact ⟨x, hreach, hlen, hone, by omega, by omega⟩

end Diagd.Udpst
