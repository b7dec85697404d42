import Diagd.Udpst.Search

/-!
# The retries of algorithm C

Algorithm C backs off as algorithm B does, but a run of single steps arms the
backoff again: each step of one row, up or down, counts as a retry, and when
the retries reach their threshold the count of bad trials starts over. The
threshold is 5 at first and never falls.

So a backoff has to be paid for. `balance` is the account: a trial pays in one
at most, which is kept as a retry until the next reset, and a backoff takes six
out, five of them as a debt until it is armed again.
-/

namespace Diagd.Udpst

open GoSlice GoStd

namespace RateController

variable {rc : RateController} {inp : TrialInput}

/-- Algorithm C, in search mode. -/
structure RunsC (rc : RateController) : Prop where
  algo : rc.algo = 1
  search : rc.isStatic = false

theorem RunsC.adjust_eq (h : rc.RunsC) (inp : TrialInput) :
    rc.adjust inp = if rc.suppressed inp then rc
      else rc.adjustAlgoC (rc.good inp) (rc.bad inp) rc.table.highSpeedThresh rc.maxIdx := by
  simp only [RateController.adjust, h.search, if_pos h.algo, Bool.false_eq_true, if_false]

theorem RunsC.adjust (h : rc.RunsC) (inp : TrialInput) : (rc.adjust inp).RunsC := by
  have hparams : (rc.adjust inp).toRateParams = rc.toRateParams := adjust_params inp
  exact ⟨by rw [hparams]; exact h.algo, (isStatic_of_params hparams).trans h.search⟩

/-- What a backoff owes until it is armed again. -/
def debt (rc : RateController) : Int := if rc.slowAdjCount < rc.slowAdjThresh then 0 else 5

/-- What has been paid in and not been used. -/
def balance (rc : RateController) : Int := rc.retryCount - rc.debt

/-- The retries are below their threshold, which is not set before the first
trial. -/
structure Counting (rc : RateController) : Prop where
  nonneg : 0 ≤ rc.retryCount
  below : rc.retryThresh = 0 ∧ rc.retryCount = 0 ∨
    5 ≤ rc.retryThresh ∧ rc.retryCount < rc.retryThresh

/-- One trial pays in one at most, and a drop of more than one row takes six
out. -/
structure Pays (rc rc' : RateController) : Prop where
  counting : rc'.Counting
  account : rc'.balance + (if rc'.index < rc.index - 1 then 6 else 0) ≤ rc.balance + 1

theorem debt_range (rc : RateController) : 0 ≤ rc.debt ∧ rc.debt ≤ 5 := by
  unfold debt
  split <;> omega

/-- A trial that changes nothing. -/
theorem Counting.pays_same (h : rc.Counting) : Pays rc rc := by
  refine ⟨h, ?_⟩
  rw [if_neg (by omega)]
  omega

theorem raiseSlow_pays (h : rc.Counting) (hset : 5 ≤ rc.retryThresh) (maxIdx : Int) :
    Pays rc (rc.raiseSlow maxIdx) := by
  obtain ⟨hnonneg, hbelow⟩ := h
  unfold raiseSlow
  dsimp only
  split_ifs with hup hreset hreset
  · -- the retries are used up, and arm the backoff
    refine ⟨⟨le_refl 0, .inr ⟨show 5 ≤ rc.retryThresh + 5 by omega,
      show 0 < rc.retryThresh + 5 by omega⟩⟩, ?_⟩
    simp only [balance, debt]
    split_ifs <;> omega
  · refine ⟨⟨show 0 ≤ rc.retryCount + 1 by omega,
      .inr ⟨hset, show rc.retryCount + 1 < rc.retryThresh by omega⟩⟩, ?_⟩
    simp only [balance, debt]
    split_ifs <;> omega
  · omega
  · refine ⟨⟨hnonneg, hbelow⟩, ?_⟩
    simp only [balance, debt]
    split_ifs <;> omega

theorem goodC_pays (hp : rc.Searches) (hi : rc.table.HasRow rc.index) (h : rc.Counting)
    (hset : 5 ≤ rc.retryThresh) :
    Pays rc (rc.goodC rc.table.highSpeedThresh rc.maxIdx) := by
  unfold goodC
  split_ifs with hfast
  · have hslow := hp.slow_pos
    have hrow := hi.1
    have hup : rc.index - 1 ≤ (rc.raiseDouble rc.table.highSpeedThresh).1 := by
      unfold raiseDouble
      dsimp only
      split_ifs <;> dsimp only <;> omega
    refine ⟨⟨h.nonneg, h.below⟩, ?_⟩
    simp only [balance, debt]
    split_ifs <;> omega
  · exact raiseSlow_pays h hset _

theorem badC_pays (h : rc.Counting) (hset : 5 ≤ rc.retryThresh) :
    Pays rc (rc.badC rc.table.highSpeedThresh) := by
  obtain ⟨hnonneg, hbelow⟩ := h
  unfold badC
  split_ifs with hback hdown hreset
  · -- the backoff: it was armed, and is no longer
    refine ⟨⟨hnonneg, hbelow⟩, ?_⟩
    simp only [balance, debt]
    split_ifs <;> omega
  · refine ⟨⟨le_refl 0, .inr ⟨hset, show 0 < rc.retryThresh by omega⟩⟩, ?_⟩
    simp only [balance, debt]
    split_ifs <;> omega
  · refine ⟨⟨show 0 ≤ rc.retryCount + 1 by omega,
      .inr ⟨hset, show rc.retryCount + 1 < rc.retryThresh by omega⟩⟩, ?_⟩
    simp only [balance, debt]
    split_ifs <;> omega
  · refine ⟨⟨hnonneg, hbelow⟩, ?_⟩
    simp only [balance, debt]
    split_ifs <;> omega

theorem initRetry_counting (h : rc.Counting) :
    rc.initRetry.Counting ∧ 5 ≤ rc.initRetry.retryThresh := by
  obtain ⟨hnonneg, hbelow⟩ := h
  have hthresh : 5 ≤ rc.initRetry.retryThresh ∧ rc.retryCount < rc.initRetry.retryThresh := by
    simp only [initRetry]
    split_ifs <;> omega
  exact ⟨⟨hnonneg, .inr hthresh⟩, hthresh.1⟩

theorem RunsC.pays (h : rc.RunsC) (hp : rc.Searches) (hi : rc.table.HasRow rc.index)
    (hc : rc.Counting) (inp : TrialInput) : Pays rc (rc.adjust inp) := by
  obtain ⟨hc', hset⟩ := initRetry_counting hc
  rw [h.adjust_eq]
  split
  · exact hc.pays_same
  · unfold adjustAlgoC
    split_ifs
    · have hgood : Pays rc.initRetry (rc.initRetry.goodC rc.table.highSpeedThresh rc.maxIdx) :=
        goodC_pays hp hi hc' hset
      exact ⟨hgood.counting, hgood.account⟩
    · have hbad : Pays rc.initRetry (rc.initRetry.badC rc.table.highSpeedThresh) :=
        badC_pays hc' hset
      exact ⟨hbad.counting, hbad.account⟩
    · exact ⟨hc', hc'.pays_same.account⟩

/-- Over a run, by induction on the trials. -/
theorem RunsC.steepDrops_paid (h : rc.RunsC) (hp : rc.Searches) (hi : rc.table.HasRow rc.index)
    (hc : rc.Counting) (inps : List TrialInput) :
    6 * (rc.steepDrops inps : Int) ≤ inps.length + rc.balance + 5 := by
  induction inps generalizing rc with
  | nil =>
      have hdebt := rc.debt_range
      have hnonneg := hc.nonneg
      simp only [steepDrops, balance, List.length_nil]
      omega
  | cons inp inps ih =>
      obtain ⟨hcounting, haccount⟩ := h.pays hp hi hc inp
      obtain ⟨hp', hi', -⟩ := adjust_keeps hp hi inp
      have hrest := ih (h.adjust inp) hp' hi' hcounting
      rw [steepDrops, List.length_cons]
      by_cases hdrop : rc.SteepDrop inp
      · rw [if_pos (show (rc.adjust inp).index < rc.index - 1 from hdrop)] at haccount
        rw [if_pos hdrop]
        push_cast
        omega
      · rw [if_neg (show ¬ (rc.adjust inp).index < rc.index - 1 from hdrop)] at haccount
        rw [if_neg hdrop]
        push_cast
        omega

end RateController

/-- **Algorithm C backs off steeply at most once in six trials.** Whatever the
trials of an activated session measure, of `n` trials no more than `(n + 5) / 6`
lower the index by more than one row. -/
theorem steep_drops_rare (cfg : Config) (s : Session) (req : TestActPDU) (d : Rx)
    (inps : List TrialInput) :
    let srv := newServer cfg
    let rc := (s.activate srv req d).newRateController srv
    rc.algo = 1 → rc.isStatic = false → 6 * rc.steepDrops inps ≤ inps.length + 5 := by
  intro srv rc halgo hsearch
  have hrow : rc.table.HasRow rc.index := initialIndex_activate_bounds req
  have hp : rc.Searches := newRateController_searches req
  have hslow := hp.slow_pos
  have hpaid := RateController.RunsC.steepDrops_paid ⟨halgo, hsearch⟩ hp hrow
    ⟨le_refl 0, .inl ⟨rfl, rfl⟩⟩ inps
  have hbalance : rc.balance = 0 := by
    show (0 : Int) - (if 0 < rc.slowAdjThresh then 0 else 5) = 0
    rw [if_pos (by omega)]
    rfl
  omega

/-- Up for six trials and down for three, twice. -/
def upAndDown : List TrialInput :=
  List.replicate 6 calmTrial ++ List.replicate 3 lossyTrial ++ List.replicate 6 calmTrial ++
    List.replicate 3 lossyTrial

/-- Two of the eighteen trials drop steeply. -/
theorem steep_drops_rare_lossy :
    let rc := (awaitingSession.activate (newServer {})
      { TestActPDU.ofBytes (activationOf 0 0) with rateAdjAlgo := 1 }
      (activationRx 0 0 false)).newRateController (newServer {})
    rc.steepDrops upAndDown = 2 ∧ 6 * rc.steepDrops upAndDown ≤ 23 := by
  refine ⟨?_, steep_drops_rare {} awaitingSession
    { TestActPDU.ofBytes (activationOf 0 0) with rateAdjAlgo := 1 } (activationRx 0 0 false)
    upAndDown (by decide +kernel) (by decide +kernel)⟩
  rw [← Server.indexed_eq (newServer {})]
  decide +kernel

end Diagd.Udpst
