import Diagd.Udpst.Goroutines
import Diagd.Udpst.Numbering
import Diagd.Udpst.TestDuration

/-!
# The stream of a downstream test

What the kernel accepts over a whole test, whatever the goroutines do in
between: the datagrams are numbered without a gap, and the plain ones all
come before the stop indications.

`marking` is to the other header fields what `numbering` is to the sequence
number. It is followed by a burst, not by the loop: the action is the
caller's, and the echo is fixed by the first two operations of the burst.
-/

namespace Diagd.Udpst

open GoSlice GoStd Resumption

namespace Sending

variable {t : RateTable} {ipv6 : Bool}

/-! ## What a burst writes -/

/-- The action of a call of `sendBurst`. -/
def Burst.action : Burst t → UInt8
  | .first _ | .second _ => testActionTest
  | .stop => testActionStop2

theorem Burst.order_action (c : Burst t) : (c.order ipv6).action = c.action := by
  cases c <;> rfl

/-- How far a burst has come with its echo. -/
inductive Mark where
  | fresh
  | loaded (es : Option EchoState)
  | stamped (es : Option EchoState) (at_ : Time)

/-- A burst with the given action loads the echo, reads the clock, and writes
both into every datagram it offers. -/
def marking (action : UInt8) : Protocol sendSig Mark where
  Allowed
    | .fresh, .loadEcho => True
    | .loaded _, .now => True
    | .stamped _ _, .now | .stamped _ _, .rand _ => True
    | .stamped es at_, .writeBatch msgs =>
        ∀ m ∈ msgs, actionOf m = action ∧ Echoes (echoFields es at_) m
    | _, _ => False
  next
    | .fresh, .loadEcho, es => .loaded es
    | .loaded es, .now, at_ => .stamped es at_
    | mk, _, _ => mk

def Progress.mark : Progress → Mark
  | .begun => .fresh
  | .loaded es => .loaded es
  | .building es at_ | .offering es at_ _ _ => .stamped es at_

theorem marking_views {w : Order} {k : Nat} :
    Views (bursting ipv6 w k) (marking w.action) fun p mk => mk = p.mark := by
  rintro p _ o rfl hallowed
  match p, o, hallowed with
  | .begun, .loadEcho, _ => exact ⟨trivial, fun _ => rfl⟩
  | .loaded _, .now, _ => exact ⟨trivial, fun _ => rfl⟩
  | .building _ _, .now, _ => exact ⟨trivial, fun _ => rfl⟩
  | .building _ _, .rand _, _ => exact ⟨trivial, fun _ => rfl⟩
  | .building _ _, .writeBatch msgs, hbatch => exact ⟨hbatch.marked, fun _ => rfl⟩
  | .offering _ _ batch j, .writeBatch _, ⟨hbatch, _, rfl⟩ =>
      exact ⟨fun m hm => hbatch.marked m (List.mem_of_mem_drop hm), fun _ => rfl⟩

/-- **A burst writes its caller's action and its own echo into every datagram.** -/
theorem send_marks (ht : AllBounded t.rows) (c : Burst t) {k : Nat} {st : SendState}
    (hst : Ready k st) : Conforms (marking c.action) .fresh (c.send ipv6 st) fun _ _ => True := by
  have hview : Conforms (marking (c.order ipv6).action) .fresh (c.send ipv6 st) fun _ _ => True :=
    ((send_conforms ht c hst).view marking_views rfl).mono fun _ _ _ => trivial
  rw [c.order_action] at hview
  exact hview

/-! ## Numbers -/

/-- Ready for the next burst, or in the middle of one, with `k` datagrams
accepted so far. -/
def Stage.Numbers (ipv6 : Bool) (k : Nat) (st : SendState) : Stage t → Prop
  | .bursting p _ _ => Conforms (numbering ipv6) k p fun st' k' => Ready k' st'
  | .starting | .top | .polling | .picking | .sleeping _ _ | .napping _ _ _ | .spinning _ _
  | .waking _ | .sending _ _ | .pausing _ | .returned => Ready k st

structure Numbered (ipv6 : Bool) (x : Sender t) : Prop where
  numbers : x.sent.map seqNoOf = numbers 0 x.sent.length
  sized : ∀ m ∈ x.sent, Sized ipv6 m
  stage : x.stage.Numbers ipv6 x.sent.length x.st

section Numbers

variable {v : View} {env : SendEnv} {x x' : Sender t} {k : Nat} {st : SendState}

theorem Stage.Asleep.numbers {i : Fin t.rows.length} {wake : Time} {stage : Stage t}
    (h : stage.Asleep i wake) : stage.Numbers ipv6 k st ↔ Ready k st := by
  cases stage <;> first | exact Iff.rfl | exact h.elim

theorem accepted_singleton (o : SendOp) (r : o.Res) : accepted [⟨o, r⟩] = acceptedBy o r := by
  cases o <;> simp [accepted, acceptedBy]

/-- One operation of a burst: what the kernel takes goes on from `k`. -/
theorem numbering_op {o : SendOp} {cont : o.Res → SendProg SendState}
    {Q : SendState → Nat → Prop} (h : Conforms (numbering ipv6) k (.op o cont) Q) (r : o.Res) :
    (acceptedBy o r).map seqNoOf = Sending.numbers k (acceptedBy o r).length ∧
      (∀ m ∈ acceptedBy o r, Sized ipv6 m) ∧
      Conforms (numbering ipv6) (k + (acceptedBy o r).length) (cont r) Q := by
  have hone := accepted_of_conforms h (.step (.refl (cont r)))
  rw [accepted_singleton] at hone
  have hnext : (numbering ipv6).next k o r = k + (acceptedBy o r).length := by
    cases o with
    | loadEcho => rfl
    | now => rfl
    | rand n => rfl
    | writeBatch msgs =>
        have hle := taken_le r
        show k + taken r = k + (msgs.take (taken r)).length
        rw [List.length_take, Nat.min_eq_left hle]
  exact ⟨hone.1, hone.2, hnext ▸ (Conforms.op_iff.mp h).2 r⟩

theorem Numbered.step (ht : AllBounded t.rows) (h : Numbered ipv6 x)
    (hmove : SenderMoves ipv6 v env x x') : Numbered ipv6 x' := by
  obtain ⟨hnum, hsized, hready⟩ := h
  cases hmove with
  | doze hstage hto => exact ⟨hnum, hsized, hto.numbers.mpr (hstage.numbers.mp hready)⟩
  | rouse hstage => exact ⟨hnum, hsized, hstage.numbers.mp hready⟩
  | begin hstage =>
      rw [hstage] at hready
      exact ⟨hnum, hsized, send_numbered ht _ hready⟩
  | @returns st _ _ hstage =>
      rw [hstage] at hready
      have hret : Ready x.sent.length st :=
        (Conforms.ret_iff (Q := fun st' k' => Ready k' st')).mp hready
      exact ⟨hnum, hsized, hret⟩
  | op hstage =>
      rw [hstage] at hready
      obtain ⟨hnew, hnews, hcont⟩ := numbering_op hready (answer v.echo env _)
      refine ⟨?_, ?_, ?_⟩
      · rw [List.map_append, List.length_append, numbers_add, hnum, hnew, Nat.zero_add]
      · intro m hm
        exact (List.mem_append.mp hm).elim (hsized m) (hnews m)
      · rw [List.length_append]
        exact hcont
  | start hstage | leave hstage | enter hstage | stop hstage | goOn hstage | idle hstage
  | pick hstage | turn hstage | finish hstage | pause hstage | resume hstage | quit hstage =>
      rw [hstage] at hready
      exact ⟨hnum, hsized, hready⟩

/-- Inside the table and with a numbered stream nothing panics. -/
theorem Numbered.no_panic (h : Numbered ipv6 x) (hrow : t.HasRow v.index) (e : Panic) :
    x.step ipv6 v env ≠ some (.error e) := by
  intro hstep
  rcases panic_of_senderStep hstep with ⟨-, herr⟩ | ⟨rest, d, hstage⟩
  · obtain ⟨i, hi⟩ : ∃ i, rowAt t v.index = .ok i := ⟨_, dif_pos hrow⟩
    rw [hi] at herr
    cases herr
  · have hready := h.stage
    rw [hstage] at hready
    exact Conforms.not_crash hready

theorem Numbered.ready (h : Numbered ipv6 x) {rest : List (Burst t)} {d : Option Duration}
    (hstage : x.stage = .sending rest d) : Ready x.sent.length x.st := by
  have hready := h.stage
  rwa [hstage] at hready

end Numbers

/-! ## Tests first, stops last -/

/-- The action of the datagrams of a turn: only a stop is followed by a pause. -/
def turnAction : Option Duration → UInt8
  | none => testActionTest
  | some _ => testActionStop2

namespace Stage

/-- In a turn that found `stop` unset. -/
def testing : Stage t → Bool
  | .picking | .sleeping _ _ | .napping _ _ _ | .spinning _ _ | .waking _ | .sending _ none
  | .bursting _ _ none => true
  | .starting | .top | .polling | .sending _ (some _) | .bursting _ _ (some _) | .pausing _
  | .returned => false

/-- In a turn that found it set. -/
def stopping : Stage t → Bool
  | .sending _ (some _) | .bursting _ _ (some _) => true
  | .starting | .top | .polling | .picking | .sleeping _ _ | .napping _ _ _ | .spinning _ _
  | .waking _ | .sending _ none | .bursting _ _ none | .pausing _ | .returned => false

/-- The bursts of a turn have the action of the turn. -/
def Acts : Stage t → Prop
  | .sending rest d => ∀ c ∈ rest, c.action = turnAction d
  | .bursting p rest d => (∀ c ∈ rest, c.action = turnAction d) ∧
      ∃ mk, Conforms (marking (turnAction d)) mk p fun _ _ => True
  | .starting | .top | .polling | .picking | .sleeping _ _ | .napping _ _ _ | .spinning _ _
  | .waking _ | .pausing _ | .returned => True

theorem Asleep.testing {i : Fin t.rows.length} {wake : Time} {stage : Stage t}
    (h : stage.Asleep i wake) : stage.testing = true := by
  cases stage <;> first | rfl | exact h.elim

theorem Asleep.not_stopping {i : Fin t.rows.length} {wake : Time} {stage : Stage t}
    (h : stage.Asleep i wake) : stage.stopping = false := by
  cases stage <;> first | rfl | exact h.elim

theorem Asleep.acts {i : Fin t.rows.length} {wake : Time} {stage : Stage t}
    (h : stage.Asleep i wake) : stage.Acts := by
  cases stage <;> trivial

end Stage

/-- `a` test datagrams and then `b` stop indications have been sent, the
latter only after the flag was raised. -/
structure Phased (stop : Bool) (x : Sender t) (a b : Nat) : Prop where
  actions : x.sent.map actionOf =
    List.replicate a testActionTest ++ List.replicate b testActionStop2
  flagged : 0 < b → stop = true
  testing : x.stage.testing = true → b = 0
  stopping : x.stage.stopping = true → stop = true
  acts : x.stage.Acts

section Phases

variable {v : View} {env : SendEnv} {x x' : Sender t} {a b : Nat}

def LoopTurn.action : LoopTurn t → UInt8
  | .stop => testActionStop2
  | .row _ _ => testActionTest

theorem turn_action {sch : Schedule} {turn : LoopTurn t} {c : Burst t}
    (h : c ∈ (sch.turn turn).2) : c.action = turn.action := by
  cases turn with
  | stop =>
      rw [List.mem_singleton.mp h]
      rfl
  | row i now =>
      simp only [Schedule.turn] at h
      split at h
      · cases h
      · rcases List.mem_append.mp h with h | h <;> rw [(List.mem_replicate.mp h).2] <;> rfl

/-- One operation of a burst: what the kernel takes has the action. -/
theorem marking_op {action : UInt8} {mk : Mark} {o : SendOp} (h : (marking action).Allowed mk o)
    (r : o.Res) : ∀ m ∈ acceptedBy o r, actionOf m = action := by
  match mk, o, h with
  | .stamped _ _, .writeBatch msgs, hmsgs =>
      exact fun m hm => (hmsgs m (List.mem_of_mem_take hm)).1
  | .fresh, .loadEcho, _ | .loaded _, .now, _ | .stamped _ _, .now, _ | .stamped _ _, .rand _, _ =>
      simp [acceptedBy]

theorem map_actionOf {ms : List Bytes} {action : UInt8} (h : ∀ m ∈ ms, actionOf m = action) :
    ms.map actionOf = List.replicate ms.length action :=
  List.eq_replicate_iff.mpr ⟨List.length_map _, by simpa using h⟩

/-- A step to a stage outside of any turn. -/
theorem Phased.stage_only (h : Phased v.stop x a b) {stage : Stage t} {sch : Schedule}
    (htest : stage.testing = true → b = 0) (hstop : stage.stopping = false)
    (hacts : stage.Acts) : Phased v.stop { x with stage := stage, sch := sch } a b :=
  ⟨h.actions, h.flagged, htest, fun hs => absurd (hstop.symm.trans hs) Bool.false_ne_true, hacts⟩

theorem Phased.op {log : List BurstLog} {o : SendOp} {cont : o.Res → SendProg SendState} {rest : List (Burst t)}
    {d : Option Duration} (h : Phased v.stop x a b) (hstage : x.stage = .bursting (.op o cont) rest d)
    (r : o.Res) :
    ∃ a' b', Phased v.stop { x with stage := .bursting (cont r) rest d,
                                    sent := x.sent ++ acceptedBy o r, log := log } a' b' := by
  obtain ⟨hactions, hflagged, htest, hstop, hacts⟩ := h
  rw [hstage] at htest hstop hacts
  obtain ⟨hrest, mk, hfollows⟩ := hacts
  obtain ⟨hallowed, hcont⟩ := Conforms.op_iff.mp hfollows
  have hmap := map_actionOf (marking_op hallowed r)
  cases d with
  | none =>
      -- a test turn: there is no stop indication yet
      obtain rfl := htest rfl
      refine ⟨a + (acceptedBy o r).length, 0, ?_, hflagged, fun _ => rfl, nofun, hrest, _, hcont r⟩
      rw [List.map_append, hactions, hmap]
      simp [turnAction, List.replicate_append_replicate]
  | some pause =>
      refine ⟨a, b + (acceptedBy o r).length, ?_, fun _ => hstop rfl, nofun, hstop, hrest, _, hcont r⟩
      rw [List.map_append, hactions, hmap, List.append_assoc, turnAction,
        List.replicate_append_replicate]

theorem Phased.step (ht : AllBounded t.rows) (h : Phased v.stop x a b) (hnum : Numbered ipv6 x)
    (hmove : SenderMoves ipv6 v env x x') : ∃ a' b', Phased v.stop x' a' b' := by
  cases hmove with
  | op hstage => exact h.op hstage _
  | stop hstage hstop =>
      exact ⟨a, b, h.actions, h.flagged, nofun, fun _ => hstop, fun c hc => turn_action hc⟩
  | goOn hstage hstop =>
      refine ⟨a, b, h.stage_only (fun _ => ?_) rfl trivial⟩
      by_contra hb
      rw [h.flagged (Nat.pos_of_ne_zero hb)] at hstop
      cases hstop
  | idle hstage => exact ⟨a, b, h.stage_only nofun rfl trivial⟩
  | pick hstage =>
      exact ⟨a, b, h.stage_only (fun _ => h.testing (by rw [hstage]; rfl)) rfl trivial⟩
  | doze hstage hto =>
      exact ⟨a, b, h.stage_only (fun _ => h.testing hstage.testing) hto.not_stopping hto.acts⟩
  | rouse hstage =>
      exact ⟨a, b, h.stage_only (fun _ => h.testing hstage.testing) rfl trivial⟩
  | turn hstage =>
      exact ⟨a, b, h.actions, h.flagged, fun _ => h.testing (by rw [hstage]; rfl), nofun,
        fun c hc => turn_action hc⟩
  | begin hstage =>
      obtain ⟨hactions, hflagged, htest, hstop, hacts⟩ := h
      have hready := hnum.ready hstage
      rw [hstage] at htest hstop hacts
      have hc := hacts _ List.mem_cons_self
      refine ⟨a, b, hactions, hflagged, ?_, ?_, fun c hc => hacts c (List.mem_cons_of_mem _ hc),
        .fresh, hc ▸ send_marks ht _ hready⟩
      · rename_i d
        cases d <;> exact htest
      · rename_i d
        cases d <;> exact hstop
  | returns hstage =>
      obtain ⟨hactions, hflagged, htest, hstop, hacts⟩ := h
      rw [hstage] at htest hstop hacts
      refine ⟨a, b, hactions, hflagged, ?_, ?_, hacts.1⟩
      · rename_i d
        cases d <;> exact htest
      · rename_i d
        cases d <;> exact hstop
  | start hstage | leave hstage | enter hstage | finish hstage | pause hstage | resume hstage
  | quit hstage => exact ⟨a, b, h.stage_only nofun rfl trivial⟩

end Phases

end Sending

/-! ## The whole test -/

/-- The index is the controller's, and names a row. -/
structure DownTest.Steered (t : RateTable) (d : DownTest) : Prop where
  table : d.rc.table = t
  sound : d.rc.Sound
  row : t.HasRow d.rc.index
  index : d.index = d.rc.index

/-- What holds in every state of a downstream test. -/
structure Streaming {t : RateTable} (s : Session) (x : DownSystem t) : Prop where
  uncrashed : x.crashed = none
  steered : x.d.Steered t
  numbered : Sending.Numbered s.ipv6 x.sender
  phased : ∃ a b, Sending.Phased x.stop x.sender a b
  due : x.stop = true → x.stopAt ≤ x.clock

section Test

variable {t : RateTable} {s : Session} {d : DownTest} {x x' : DownSystem t} {l : DownLabel}

theorem DownTest.Steered.prepare (h : d.Steered t) (now : Time) : (d.prepare now).Steered t := by
  unfold DownTest.prepare
  split
  · exact ⟨h.table, h.sound, h.row, h.index⟩
  · exact h

/-- Only `steer` moves the index. -/
theorem DownTest.Steered.of_same {d' : DownTest} (h : d.Steered t) (hrc : d'.rc = d.rc)
    (hindex : d'.index = d.index) : d'.Steered t := by
  refine ⟨?_, ?_, ?_, ?_⟩
  · rw [hrc]
    exact h.table
  · rw [hrc]
    exact h.sound
  · rw [hrc]
    exact h.row
  · rw [hindex, hrc]
    exact h.index

theorem DownTest.Steered.steer (h : d.Steered t) (st : StatusPDU) : (d.steer st).Steered t := by
  have hparams := d.rc.adjust_params st.trialInput
  refine ⟨?_, ?_, ?_, rfl⟩
  · show (d.rc.adjust st.trialInput).table = t
    rw [hparams]
    exact h.table
  · show (d.rc.adjust st.trialInput).Sound
    rw [hparams]
    exact h.sound
  · have hrow : d.rc.table.HasRow (d.rc.adjust st.trialInput).index :=
      RateController.adjust_hasRow h.sound (h.table ▸ h.row) st.trialInput
    rwa [h.table] at hrow

/-- A step of the main goroutine. -/
theorem Streaming.frame (h : Streaming s x) (hd : d.Steered t) {now : Time} (hle : x.clock ≤ now)
    (main : MainStage) (done : Bool) (heard : List EchoState) :
    Streaming s { x with d := d, main := main, done := done, heard := heard, clock := now } where
  uncrashed := h.uncrashed
  steered := hd
  numbered := h.numbered
  phased := h.phased
  due := fun hstop => (h.due hstop).trans hle

theorem Streaming.raise (h : Streaming s x) {now : Time} (hat : x.stopAt ≤ now) :
    Streaming s { x with stop := true, clock := now } where
  uncrashed := h.uncrashed
  steered := h.steered
  numbered := h.numbered
  phased := by
    obtain ⟨a, b, hphased⟩ := h.phased
    exact ⟨a, b, hphased.actions, fun _ => rfl, hphased.testing, fun _ => rfl, hphased.acts⟩
  due := fun _ => hat

theorem Streaming.send (ht : AllBounded t.rows) (h : Streaming s x) {env : Sending.SendEnv}
    {snd : Sending.Sender t} (hmove : Sending.SenderMoves s.ipv6 x.view env x.sender snd)
    (hle : x.clock ≤ env.now) : Streaming s { x with sender := snd, clock := env.now } where
  uncrashed := h.uncrashed
  steered := h.steered
  numbered := h.numbered.step ht hmove
  phased := by
    obtain ⟨a, b, hphased⟩ := h.phased
    exact Sending.Phased.step (v := x.view) ht hphased h.numbered hmove
  due := fun hstop => (h.due hstop).trans hle

/-- One step of any of the three. -/
theorem Streaming.step (ht : AllBounded t.rows) (h : Streaming s x) (hstep : x.step s l = some x') :
    Streaming s x' := by
  obtain ⟨-, hle, y, hmove, rfl⟩ := downMoves_of_step hstep
  cases hmove with
  | goOn | expire => exact h.frame (h.steered.prepare _) hle _ _ _
  | fail | finish | hear =>
      refine h.frame ?_ hle _ _ _
      exact h.steered.of_same rfl rfl
  | steer => exact h.frame (h.steered.steer _) hle _ _ _
  | ignore | close | join => exact h.frame h.steered hle _ _ _
  | timer hat => exact h.raise hat
  | sender hmove => exact h.send ht hmove hle
  | panic hpanic =>
      have hrow : t.HasRow x.view.index := by
        show t.HasRow x.d.index
        rw [h.steered.index]
        exact h.steered.row
      exact (h.numbered.no_panic hrow _ hpanic).elim

theorem numbered_init (srv : Server) (s : Session) (start : Time) :
    Sending.Numbered s.ipv6 (DownSystem.init srv s start).sender :=
  ⟨rfl, by simp [DownSystem.init], Sending.ready_init _⟩

theorem streaming_init (srv : Server) (s : Session) (start : Time)
    (hsound : (s.newRateController srv).Sound)
    (hrow : srv.table.HasRow (s.newRateController srv).index) :
    Streaming s (DownSystem.init srv s start) where
  uncrashed := rfl
  steered := ⟨rfl, hsound, hrow, rfl⟩
  numbered := numbered_init srv s start
  phased := ⟨0, 0, rfl, nofun, nofun, nofun, trivial⟩
  due := nofun

/-- The states of a downstream test that the client has activated. -/
def DownReachable (srv : Server) (s : Session) (start : Time) : DownSystem srv.table → Prop :=
  Transition.Reachable (DownSystem.step s) (DownSystem.init srv s start)

theorem allBounded_table (srv : Server) : AllBounded srv.table.rows := by
  rw [srv.table_eq]
  exact buildRateTable_bounded _ _

theorem streaming_of_reachable {srv : Server} {s₀ : Session} {req : TestActPDU} {rx : Rx}
    {start : Time} {x : DownSystem srv.table}
    (hx : DownReachable srv (s₀.activate srv req rx) start x) :
    Streaming (s₀.activate srv req rx) x := by
  have ht := allBounded_table srv
  have hrow : srv.table.HasRow ((s₀.activate srv req rx).newRateController srv).index :=
    initialIndex_activate_bounds req
  exact hx.invariant (streaming_init srv _ start (newRateController_sound req) hrow)
    fun _ _ _ h hstep => h.step ht hstep

theorem stopAt_of_reachable {srv : Server} {s : Session} {start : Time} {x : DownSystem srv.table}
    (hx : DownReachable srv s start x) : x.stopAt = start + (s.p.duration + 500 * millisecond) := by
  refine hx.invariant (I := fun x => x.stopAt = start + (s.p.duration + 500 * millisecond)) rfl
    fun x l x' h hstep => ?_
  obtain ⟨-, -, y, hmove, rfl⟩ := downMoves_of_step hstep
  cases hmove <;> exact h

end Test

/-! ## Results -/

/-- **The stream of a downstream test.** Whatever status PDUs arrive and
however the goroutines and the timer are interleaved: neither goroutine
panics; the datagrams the kernel accepts are numbered 1, 2, 3, … and state
their own length; and the test datagrams all come before the stop
indications, of which there is none before the test has lasted its duration
and half a second. -/
theorem downstream_stream (srv : Server) (s₀ : Session) (req : TestActPDU) (rx : Rx) (start : Time)
    {x : DownSystem srv.table} (hx : DownReachable srv (s₀.activate srv req rx) start x) :
    x.crashed = none ∧
      x.sender.sent.map Sending.seqNoOf = Sending.numbers 0 x.sender.sent.length ∧
      (∀ m ∈ x.sender.sent, Sending.Sized (s₀.activate srv req rx).ipv6 m) ∧
      ∃ a b, x.sender.sent.map Sending.actionOf =
          List.replicate a testActionTest ++ List.replicate b testActionStop2 ∧
        (0 < b → start + ((s₀.activate srv req rx).p.duration + 500 * millisecond) ≤ x.clock) := by
  have hinv := streaming_of_reachable hx
  obtain ⟨a, b, hphased⟩ := hinv.phased
  refine ⟨hinv.uncrashed, hinv.numbered.numbers, hinv.numbered.sized, a, b, hphased.actions, ?_⟩
  intro hb
  rw [← stopAt_of_reachable hx]
  exact hinv.due (hphased.flagged hb)

/-! ### A test datagram and a stop indication -/

/-- The sender is about to serve row 0 when the timer fires; it sends the one
test datagram of that turn, and gets as far as one stop indication. -/
def untilTimer : List DownLabel :=
  .sender { now := 1495 * millisecond } ::
    List.replicate 4 (.sender { now := 1500 * millisecond }) ++ [.timer (1500 * millisecond)]

def afterTimer : List DownLabel :=
  List.replicate 16 (.sender { now := 1500 * millisecond, accepts := some 1 })

theorem downstream_stream_oneStop : ∃ x, DownReachable briefServer briefSession 0 x ∧
    x.sender.sent.map Sending.seqNoOf = [1, 2] ∧
    x.sender.sent.map Sending.actionOf = [testActionTest, testActionStop2] := by
  have hrun : (Transition.run (DownSystem.step briefSession)
      (DownSystem.init briefServer briefSession 0) (untilTimer ++ afterTimer)).map
        (·.sender.sent.map Sending.actionOf) = some [testActionTest, testActionStop2] := by
    decide +kernel
  obtain ⟨x, hx, hactions⟩ := Option.map_eq_some_iff.mp hrun
  have hreach : DownReachable briefServer briefSession 0 x := ⟨_, hx⟩
  have hlen := congrArg List.length hactions
  rw [List.length_map] at hlen
  refine ⟨x, hreach, ?_, hactions⟩
  rw [(downstream_stream briefServer _ _ _ 0 hreach).2.1, hlen]
  rfl

end Diagd.Udpst
