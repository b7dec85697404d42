import Diagd.Udpst.Feedback
import Diagd.Udpst.LoadStream

/-!
# The rate in force

The main goroutine steers and the sender follows, through the one atomic
`index`. Seen from outside, the interleaved test makes the same decisions as
the main loop alone: its figures are the fold of the status PDUs that have
arrived. And every turn of the sender is on a row the search had reached by
then: the row after some number of the arrivals, a number that never falls
from one turn to the next.
-/

namespace Diagd.Udpst

open GoSlice GoStd

namespace Sending

variable {t : RateTable} {ipv6 : Bool}

/-! ## The rows of the sender -/

def LoopTurn.row? : LoopTurn t → Option (Fin t.rows.length)
  | .stop => none
  | .row i _ => some i

/-- The rows the turns so far were on. -/
def Sender.rows (x : Sender t) : List (Fin t.rows.length) := x.turns.filterMap LoopTurn.row?

/-- The row of the turn that has not read its clock yet. -/
def Stage.chosen : Stage t → Option (Fin t.rows.length)
  | .sleeping i _ | .napping i _ _ | .spinning i _ | .waking i => some i
  | .starting | .top | .polling | .picking | .sending _ _ | .bursting _ _ _ | .pausing _
  | .returned => none

/-- The rows are those an index had after so many updates, and the updates
seen never become fewer. -/
structure Obeys (idx : Nat → Int) (updates : Nat) (x : Sender t) (counts : List Nat) : Prop where
  rows : List.Forall₂ (fun (i : Fin t.rows.length) n => (i.val : Int) = idx n) x.rows counts
  sorted : counts.Pairwise (· ≤ ·)
  bounded : ∀ n ∈ counts, n ≤ updates
  chosen : ∀ i, x.stage.chosen = some i →
    ∃ n, n ≤ updates ∧ (i.val : Int) = idx n ∧ ∀ m ∈ counts, m ≤ n

section Obeys

variable {v : View} {env : SendEnv} {x x' : Sender t} {idx idx' : Nat → Int} {updates updates' : Nat}
  {counts : List Nat}

theorem rowAt_eq {index : Int} {i : Fin t.rows.length} (h : rowAt t index = .ok i) :
    (i.val : Int) = index := by
  unfold rowAt at h
  split at h
  · rename_i hrow
    cases h
    exact Int.toNat_of_nonneg hrow.1
  · cases h

theorem Stage.Asleep.chosen {i : Fin t.rows.length} {wake : Time} {stage : Stage t}
    (h : stage.Asleep i wake) : stage.chosen = some i := by
  cases stage with
  | sleeping | napping | spinning => exact congrArg some h.1
  | starting | top | polling | picking | waking | sending | bursting | pausing | returned =>
      exact h.elim

/-- A step that serves no row and chooses none. -/
theorem Obeys.quiet (h : Obeys idx updates x counts) (hrows : x'.rows = x.rows)
    (hchosen : x'.stage.chosen = none) : Obeys idx updates x' counts where
  rows := hrows ▸ h.rows
  sorted := h.sorted
  bounded := h.bounded
  chosen := fun i hi => by
    rw [hchosen] at hi
    cases hi

theorem Obeys.step (h : Obeys idx updates x counts) (hindex : v.index = idx updates)
    (hmove : SenderMoves ipv6 v env x x') : ∃ counts', Obeys idx updates x' counts' := by
  cases hmove with
  | pick hstage hrow hwake =>
      refine ⟨counts, h.rows, h.sorted, h.bounded, ?_⟩
      intro i hi
      cases hi
      exact ⟨updates, le_refl _, (rowAt_eq hrow).trans hindex, h.bounded⟩
  | doze hstage hto =>
      refine ⟨counts, h.rows, h.sorted, h.bounded, ?_⟩
      intro i hi
      exact h.chosen i (hstage.chosen.trans (hto.chosen.symm.trans hi))
  | rouse hstage =>
      refine ⟨counts, h.rows, h.sorted, h.bounded, ?_⟩
      intro i hi
      exact h.chosen i (hstage.chosen.trans hi)
  | turn hstage =>
      -- the turn is on the row chosen before the sleep
      obtain ⟨n, hn, hrow, hlast⟩ := h.chosen _ (by rw [hstage]; rfl)
      refine ⟨counts ++ [n], ?_, ?_, ?_, nofun⟩
      · rw [Sender.rows, Sender.serve, List.filterMap_append]
        exact List.rel_append h.rows (.cons hrow .nil)
      · refine List.pairwise_append.mpr ⟨h.sorted, List.pairwise_singleton _ _, ?_⟩
        intro m hm k hk
        rw [List.mem_singleton.mp hk]
        exact hlast m hm
      · intro m hm
        rcases List.mem_append.mp hm with hold | hnew
        · exact h.bounded m hold
        · rw [List.mem_singleton.mp hnew]
          exact hn
  | stop hstage =>
      refine ⟨counts, h.quiet ?_ rfl⟩
      rw [Sender.rows, Sender.serve, List.filterMap_append]
      exact List.append_nil _
  | start | leave | enter | goOn | idle | finish | pause | begin | returns | op | resume | quit =>
      exact ⟨counts, h.quiet rfl rfl⟩

/-- The index has been updated, and its past has not changed. -/
theorem Obeys.update (h : Obeys idx updates x counts) (hle : updates ≤ updates')
    (hsame : ∀ n, n ≤ updates → idx' n = idx n) : Obeys idx' updates' x counts where
  rows := by
    refine List.forall₂_iff_get.mpr ⟨h.rows.length_eq, fun j hj hj' => ?_⟩
    rw [hsame _ (h.bounded _ (List.get_mem _ _))]
    exact (List.forall₂_iff_get.mp h.rows).2 j hj hj'
  sorted := h.sorted
  bounded := fun n hn => (h.bounded n hn).trans hle
  chosen := fun i hi => by
    obtain ⟨n, hn, hrow, hlast⟩ := h.chosen i hi
    exact ⟨n, hn.trans hle, (hsame n hn).symm ▸ hrow, hlast⟩

end Obeys

end Sending

/-! ## The whole test -/

/-- The reads of a run. -/
def DownLabel.read? : DownLabel → Option ConnRead
  | .main (.read r) => some r
  | .main (.check _) | .main (.proceed _) | .timer _ | .sender _ => none

def readsOf (ls : List DownLabel) : List ConnRead := ls.filterMap DownLabel.read?

/-- The status PDU whose turn is not over. -/
def MainStage.pending : MainStage → List StatusPDU
  | .applying st => [st]
  | .top | .reading | .leaving | .joining | .summed => []

/-- The index after `n` of the status PDUs. -/
def indexAfter (g : Figures) (sts : List StatusPDU) (n : Nat) : Int :=
  ((sts.take n).foldl Figures.add g).rc.index

/-- The test has steered by the status PDUs `sts`; the one that is being
processed is in the totals already. -/
structure Steering {t : RateTable} (g : Figures) (sts : List StatusPDU) (x : DownSystem t) : Prop where
  rc : x.d.rc = (sts.foldl Figures.add g).rc
  totalLoss : x.d.totalLoss = ((sts ++ x.main.pending).foldl Figures.add g).totalLoss
  totalDG : x.d.totalDG = ((sts ++ x.main.pending).foldl Figures.add g).totalDG
  index : x.d.index = x.d.rc.index
  obeys : ∃ counts, Sending.Obeys (indexAfter g sts) sts.length x.sender counts

section Test

variable {t : RateTable} {s : Session} {x x' : DownSystem t} {l : DownLabel} {g : Figures}
  {sts : List StatusPDU}

theorem indexAfter_length : indexAfter g sts sts.length = (sts.foldl Figures.add g).rc.index := by
  rw [indexAfter, List.take_length]

theorem indexAfter_append {n : Nat} (h : n ≤ sts.length) (st : StatusPDU) :
    indexAfter g (sts ++ [st]) n = indexAfter g sts n := by
  rw [indexAfter, List.take_append_of_le_length h, indexAfter]

/-- A step of the main goroutine between two status PDUs. -/
theorem Steering.frame (h : Steering g sts x) {d : DownTest} (hd : d.figures = x.d.figures)
    (hindex : d.index = x.d.index) {main : MainStage} (hpending : main.pending = x.main.pending)
    (clock : Time) (stop done : Bool) (crashed : Option Panic) :
    Steering g sts { x with d := d, main := main, clock := clock, stop := stop, done := done,
                            crashed := crashed } where
  rc := (congrArg Figures.rc hd).trans h.rc
  totalLoss := by
    rw [hpending]
    exact (congrArg Figures.totalLoss hd).trans h.totalLoss
  totalDG := by
    rw [hpending]
    exact (congrArg Figures.totalDG hd).trans h.totalDG
  index := hindex.trans (h.index.trans (congrArg (fun g => g.rc.index) hd).symm)
  obeys := h.obeys

/-- A status PDU has been read: it is counted, and not steered by yet. -/
theorem Steering.hear (h : Steering g sts x) (hmain : x.main.pending = []) (rxNow : Time)
    (st : StatusPDU) : Steering g sts { x.hear rxNow st with clock := rxNow } where
  rc := h.rc
  totalLoss := by
    show x.d.totalLoss + st.seqErrLoss.toUInt64 = ((sts ++ [st]).foldl Figures.add g).totalLoss
    rw [h.totalLoss, hmain, List.append_nil, List.foldl_append]
    rfl
  totalDG := by
    show x.d.totalDG + st.tiRxDatagrams.toUInt64 = ((sts ++ [st]).foldl Figures.add g).totalDG
    rw [h.totalDG, hmain, List.append_nil, List.foldl_append]
    rfl
  index := h.index
  obeys := h.obeys

/-- The turn of a status PDU is over. -/
theorem Steering.apply (h : Steering g sts x) {st : StatusPDU} (hmain : x.main = .applying st)
    {d : DownTest} {main : MainStage} (hpending : main.pending = [])
    (hrc : d.rc = if st.testAction = testActionTest then x.d.rc.adjust st.trialInput else x.d.rc)
    (hloss : d.totalLoss = x.d.totalLoss) (hdg : d.totalDG = x.d.totalDG)
    (hindex : d.index = d.rc.index) (clock : Time) :
    Steering g (sts ++ [st]) { x with d := d, main := main, clock := clock } where
  rc := by
    show d.rc = _
    rw [hrc, List.foldl_append, h.rc]
    rfl
  totalLoss := by
    rw [hpending, List.append_nil]
    exact hloss.trans (by rw [h.totalLoss, hmain]; rfl)
  totalDG := by
    rw [hpending, List.append_nil]
    exact hdg.trans (by rw [h.totalDG, hmain]; rfl)
  index := hindex
  obeys := by
    obtain ⟨counts, hcounts⟩ := h.obeys
    refine ⟨counts, hcounts.update ?_ fun n hn => indexAfter_append hn st⟩
    rw [List.length_append]
    exact Nat.le_add_right _ _

theorem prepare_figures (d : DownTest) (now : Time) :
    (d.prepare now).figures = d.figures ∧ (d.prepare now).index = d.index := by
  unfold DownTest.prepare
  split <;> exact ⟨rfl, rfl⟩

/-- What has arrived in a run is what the test has steered by, and the status
PDU it is at. -/
def SteersBy (s : Session) (g : Figures) (ls : List DownLabel) (x : DownSystem t) : Prop :=
  ∃ sts, arrivals s (readsOf ls) = sts ++ x.main.pending ∧ Steering g sts x

theorem arrivals_snoc (ls : List DownLabel) (l : DownLabel) :
    arrivals s (readsOf (ls ++ [l])) =
      arrivals s (readsOf ls) ++ (l.read?.bind (arrival s)).toList := by
  rw [readsOf, List.filterMap_append, arrivals, List.filterMap_append]
  cases hl : l.read? with
  | none => simp [hl, arrivals, readsOf]
  | some r =>
      cases hr : arrival s r <;> simp [hl, hr, arrivals, readsOf]

theorem SteersBy.step {ls : List DownLabel} (h : SteersBy s g ls x) (hstep : x.step s l = some x') :
    SteersBy s g (ls ++ [l]) x' := by
  obtain ⟨sts, harr, hst⟩ := h
  obtain ⟨-, -, y, hmove, rfl⟩ := downMoves_of_step hstep
  have hquiet : l.read?.bind (arrival s) = none →
      arrivals s (readsOf (ls ++ [l])) = arrivals s (readsOf ls) := by
    intro hnone
    rw [arrivals_snoc, hnone]
    exact List.append_nil _
  cases hmove with
  | goOn hmain | expire hmain =>
      obtain ⟨hfig, hindex⟩ := prepare_figures x.d _
      rw [hmain] at harr
      exact ⟨sts, (hquiet rfl).trans harr, hst.frame hfig hindex (by rw [hmain]; rfl) _ _ _ _⟩
  | @ignore r hmain hfail hread =>
      rw [hmain] at harr
      have hnone : arrival s r = none := by
        cases r with
        | timeout at_ => rfl
        | failed at_ => exact (hfail at_ rfl).elim
        | datagram rx => rw [arrival, hread rx rfl]; rfl
      exact ⟨sts, (hquiet hnone).trans harr, hst.frame rfl rfl (by rw [hmain]; rfl) _ _ _ _⟩
  | fail hmain =>
      rw [hmain] at harr
      exact ⟨sts, (hquiet rfl).trans harr,
        hst.frame (d := { x.d with running := false }) rfl rfl (by rw [hmain]; rfl) _ _ _ _⟩
  | @hear rx st hmain hstatus =>
      rw [hmain] at harr
      have hsome : arrival s (.datagram rx) = some st := by rw [arrival, hstatus]; rfl
      refine ⟨sts, ?_, hst.hear (by rw [hmain]; rfl) rx.now st⟩
      rw [arrivals_snoc, harr]
      show sts ++ [] ++ (arrival s (.datagram rx)).toList = sts ++ [st]
      rw [hsome, List.append_nil]
      rfl
  | @finish now st hmain hstop =>
      rw [hmain] at harr
      refine ⟨sts ++ [st], ?_, hst.apply hmain (d := { x.d with running := false }) rfl
        (if_neg hstop).symm rfl rfl hst.index _⟩
      rw [hquiet rfl, harr]
      exact (List.append_nil _).symm
  | @steer now st hmain htest =>
      rw [hmain] at harr
      refine ⟨sts ++ [st], ?_, hst.apply hmain (d := x.d.steer st) rfl (if_pos htest).symm rfl rfl rfl _⟩
      rw [hquiet rfl, harr]
      exact (List.append_nil _).symm
  | close hmain | join hmain =>
      rw [hmain] at harr
      exact ⟨sts, (hquiet rfl).trans harr, hst.frame rfl rfl (by rw [hmain]; rfl) _ _ _ _⟩
  | timer | panic => exact ⟨sts, (hquiet rfl).trans harr, hst.frame rfl rfl rfl _ _ _ _⟩
  | sender hsender =>
      refine ⟨sts, (hquiet rfl).trans harr, hst.rc, hst.totalLoss, hst.totalDG, hst.index, ?_⟩
      obtain ⟨counts, hcounts⟩ := hst.obeys
      refine hcounts.step ?_ hsender
      show x.d.index = _
      rw [hst.index, hst.rc, indexAfter_length]

end Test

/-! ## Results -/

/-- **The rate in force.** After any run of a downstream test, with the status
PDUs `sts` that have arrived: the decisions of the test are those of the main
loop alone, whatever the sender and the timer did in between; and each turn of
the sender was on the row the search had reached after some number of the
status PDUs, where that number never falls from one turn to the next. -/
theorem rate_in_force (srv : Server) (s : Session) (start : Time) {ls : List DownLabel}
    {x : DownSystem srv.table}
    (hrun : Transition.run (DownSystem.step s) (DownSystem.init srv s start) ls = some x) :
    let g := (s.newDownTest srv start).figures
    let sts := arrivals s (readsOf ls)
    (x.main.pending = [] → x.d.figures = sts.foldl Figures.add g) ∧ x.d.index = x.d.rc.index ∧
      ∃ counts : List Nat, counts.Pairwise (· ≤ ·) ∧ (∀ n ∈ counts, n ≤ sts.length) ∧
        List.Forall₂ (fun (i : Fin srv.table.rows.length) n =>
          (i.val : Int) = ((sts.take n).foldl Figures.add g).rc.index) x.sender.rows counts := by
  intro g sts
  have hinit : SteersBy s g [] (DownSystem.init srv s start) :=
    ⟨[], rfl, rfl, rfl, rfl, rfl, [], .nil, .nil, by simp, nofun⟩
  obtain ⟨old, harr, hst⟩ := Transition.run_induction hinit
    (fun ls x l x' _ h hstep => h.step hstep) hrun
  obtain ⟨counts, hcounts⟩ := hst.obeys
  refine ⟨fun hmain => ?_, hst.index, counts, hcounts.sorted, fun n hn => ?_, ?_⟩
  · have hrc := hst.rc
    have hloss := hst.totalLoss
    have hdg := hst.totalDG
    rw [hmain, List.append_nil] at harr hloss hdg
    show Figures.mk x.d.rc x.d.totalLoss x.d.totalDG = _
    rw [hrc, hloss, hdg, show sts = old from harr]
  · rw [show sts = _ from harr, List.length_append]
    exact Nat.le_add_right_of_le (hcounts.bounded n hn)
  · refine List.forall₂_iff_get.mpr ⟨hcounts.rows.length_eq, fun j hj hj' => ?_⟩
    have hle := hcounts.bounded _ (List.get_mem counts ⟨j, hj'⟩)
    rw [show sts = _ from harr, List.take_append_of_le_length hle]
    exact (List.forall₂_iff_get.mp hcounts.rows).2 j hj hj'

/-- A turn on row 0, a status PDU that is steered by, and a turn on the row it
leads to. -/
def oneRaise : List DownLabel :=
  [.main (.check 0), .sender { now := 0 }] ++
    List.replicate 13 (.sender { now := 5 * millisecond, accepts := some 1 }) ++
    [.main (.read (statusTurn 0 1 testActionTest).read), .main (.proceed (2 * second))] ++
    List.replicate 5 (.sender { now := 2 * second })

theorem rate_in_force_oneRaise : ∃ x counts, DownReachable briefServer briefSession 0 x ∧
    x.d.figures = (arrivals briefSession (readsOf oneRaise)).foldl Figures.add
      (briefSession.newDownTest briefServer 0).figures ∧
    x.sender.rows.map Fin.val = [0, 10] ∧ counts.Pairwise (· ≤ ·) ∧
    List.Forall₂ (fun (i : Fin briefServer.table.rows.length) n =>
      (i.val : Int) = (((arrivals briefSession (readsOf oneRaise)).take n).foldl Figures.add
        (briefSession.newDownTest briefServer 0).figures).rc.index) x.sender.rows counts := by
  have hrun : (Transition.run (DownSystem.step briefSession)
      (DownSystem.init briefServer briefSession 0) oneRaise).map
        (fun x => (x.main, x.sender.rows.map Fin.val)) = some (.top, [0, 10]) := by
    decide +kernel
  obtain ⟨x, hx, hfacts⟩ := Option.map_eq_some_iff.mp hrun
  obtain ⟨hmain, hrows⟩ := Prod.mk.inj hfacts
  obtain ⟨hfigures, -, counts, hsorted, -, hall⟩ := rate_in_force briefServer _ 0 hx
  exact ⟨x, counts, ⟨_, hx⟩, hfigures (by rw [hmain]; rfl), hrows, hsorted, hall⟩

end Diagd.Udpst
