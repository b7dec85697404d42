import Diagd.Udpst.Nominal
import Diagd.Udpst.Policing
import Diagd.Udpst.RateSearch

/-!
# Where the rate search goes

In search mode a good trial never lowers the index and a bad one never raises
it. Algorithm B raises it with EVERY good trial. Algorithm C may spend one on
setting its `update` flag (`Primed`), but not two in a row, so that half of
the good trials count; the counters that switch between its fast and slow
phases cannot hold it back.

The fast backoff of algorithm B happens on the trial that brings
`slowAdjCount` to its threshold. The count never falls below the threshold
again (`BackedOff`), so there is no second one.
-/

namespace Diagd.Udpst

open GoSlice GoStd

/-- What policing adds to the soundness of the parameters: the search can
move, and a trial is not good and bad at once. -/
structure RateParams.Searches (p : RateParams) : Prop extends p.Sound where
  delta_pos : 1 ≤ p.highSpeedDelta
  slow_pos : 1 ≤ p.slowAdjThresh
  thresh_le : p.lowThresh ≤ p.upperThresh

namespace RateController

variable {rc : RateController} {inp : TrialInput}

/-! ## Classification depends on the parameters only -/

theorem good_of_params {rc' : RateController} (h : rc'.toRateParams = rc.toRateParams)
    (inp : TrialInput) : rc'.good inp = rc.good inp := by
  cases rc
  cases rc'
  cases h
  rfl

theorem bad_of_params {rc' : RateController} (h : rc'.toRateParams = rc.toRateParams)
    (inp : TrialInput) : rc'.bad inp = rc.bad inp := by
  cases rc
  cases rc'
  cases h
  rfl

theorem suppressed_of_params {rc' : RateController} (h : rc'.toRateParams = rc.toRateParams)
    (inp : TrialInput) : rc'.suppressed inp = rc.suppressed inp := by
  simp only [suppressed, h]

theorem isStatic_of_params {rc' : RateController} (h : rc'.toRateParams = rc.toRateParams) :
    rc'.isStatic = rc.isStatic := by
  simp only [isStatic, h]

/-- A bad trial is not a good one. -/
theorem not_good_of_bad (hp : rc.Searches) (hbad : rc.bad inp = true) : rc.good inp = false := by
  have hle := hp.thresh_le
  by_contra hgood
  simp only [good, bad, Bool.not_eq_false, Bool.and_eq_true, Bool.or_eq_true, decide_eq_true_eq,
    Bool.not_eq_true'] at hgood hbad
  obtain ⟨⟨hseq, hdelay⟩, hce⟩ := hgood
  rcases hbad with (hseq' | hdelay') | hce'
  · omega
  · omega
  · rw [hce] at hce'
    cases hce'

/-- The search takes a step: it is neither held nor suppressed. -/
structure Steps (rc : RateController) (inp : TrialInput) : Prop where
  search : rc.isStatic = false
  free : rc.suppressed inp = false

theorem Steps.adjust_good (h : rc.Steps inp) (hgood : rc.good inp = true) :
    rc.adjust inp = if rc.algo = 1 then rc.initRetry.goodC rc.table.highSpeedThresh rc.maxIdx
      else rc.goodB rc.table.highSpeedThresh rc.maxIdx := by
  simp only [adjust, h.free, h.search, adjustAlgoB, adjustAlgoC, hgood, Bool.false_eq_true,
    if_true, if_false]

theorem Steps.adjust_bad (h : rc.Steps inp) (hp : rc.Searches) (hbad : rc.bad inp = true) :
    rc.adjust inp = if rc.algo = 1 then rc.initRetry.badC rc.table.highSpeedThresh
      else rc.badB rc.table.highSpeedThresh := by
  simp only [adjust, h.free, h.search, adjustAlgoB, adjustAlgoC, not_good_of_bad hp hbad, hbad,
    Bool.false_eq_true, if_true, if_false]

/-! ## Good trials -/

/-- Up by a row at least, if there is one. -/
def Raises (rc rc' : RateController) : Prop := min rc.maxIdx (rc.index + 1) ≤ rc'.index

/-- The next good trial of algorithm C doubles the index. -/
structure Primed (rc : RateController) : Prop where
  update : rc.update = true
  moved : 0 < rc.index
  room : rc.index * 2 ≤ rc.table.highSpeedThresh
  fast : rc.slowAdjCount < rc.slowAdjThresh

theorem goodB_raises (hp : rc.Searches) :
    rc.Raises (rc.goodB rc.table.highSpeedThresh rc.maxIdx) := by
  have hdelta := hp.delta_pos
  unfold Raises goodB
  split_ifs with hfast hup
  · show _ ≤ rc.raiseFast _
    unfold raiseFast
    split <;> omega
  · show _ ≤ rc.index + 1
    omega
  · show _ ≤ rc.index
    omega

theorem raiseSlow_raises : rc.Raises (rc.raiseSlow rc.maxIdx) := by
  have hindex : (rc.raiseSlow rc.maxIdx).index =
      if rc.index < rc.maxIdx then rc.index + 1 else rc.index := by
    simp only [raiseSlow, apply_ite index, ite_self]
  unfold Raises
  rw [hindex]
  split <;> omega

/-- A good trial of algorithm C raises the index, or primes it. -/
theorem goodC_raises_or_primed (hp : rc.Searches) (hi : rc.table.HasRow rc.index) :
    rc.Raises (rc.goodC rc.table.highSpeedThresh rc.maxIdx) ∨
      (rc.goodC rc.table.highSpeedThresh rc.maxIdx).index = rc.index ∧
        (rc.goodC rc.table.highSpeedThresh rc.maxIdx).Primed := by
  have hslow := hp.slow_pos
  have hrow := hi.1
  unfold goodC
  split
  · rename_i hfast
    unfold raiseDouble
    by_cases hbeyond : rc.table.highSpeedThresh < rc.index * 2
    · left
      simp only [if_pos hbeyond, Raises]
      omega
    · by_cases hzero : rc.index = 0
      · left
        simp only [if_neg hbeyond, if_pos hzero, Raises]
        split <;> simp only <;> omega
      · simp only [if_neg hbeyond, if_neg hzero]
        cases hup : rc.update with
        | true =>
            left
            simp only [Raises, if_true]
            omega
        | false =>
            right
            simp only [Bool.false_eq_true, if_false, true_and]
            exact ⟨rfl, by show 0 < rc.index; omega, Int.not_lt.mp hbeyond,
              by show 0 < rc.slowAdjThresh; omega⟩
  · exact .inl raiseSlow_raises

/-- Once primed, the next good trial raises the index. -/
theorem Primed.raises (h : rc.Primed) :
    rc.Raises (rc.goodC rc.table.highSpeedThresh rc.maxIdx) := by
  obtain ⟨hup, hmoved, hroom, hfast⟩ := h
  have hzero : rc.index ≠ 0 := by omega
  have hbelow : rc.index < rc.table.highSpeedThresh ∧ rc.slowAdjCount < rc.slowAdjThresh :=
    ⟨by omega, hfast⟩
  simp only [goodC, if_pos hbelow, raiseDouble, if_neg (Int.not_lt.mpr hroom), if_neg hzero, hup,
    if_true, Raises]
  omega

/-- One good trial. -/
theorem adjust_good_cases (hp : rc.Searches) (hi : rc.table.HasRow rc.index) (hs : rc.Steps inp)
    (hgood : rc.good inp = true) :
    rc.Raises (rc.adjust inp) ∨
      rc.algo = 1 ∧ (rc.adjust inp).index = rc.index ∧ (rc.adjust inp).Primed := by
  rw [hs.adjust_good hgood]
  by_cases halgo : rc.algo = 1
  · rw [if_pos halgo]
    -- `initRetry` changes no field that matters here
    have hinit : rc.initRetry.Searches ∧ rc.initRetry.table.HasRow rc.initRetry.index := ⟨hp, hi⟩
    rcases goodC_raises_or_primed hinit.1 hinit.2 with hraise | hprimed
    · exact .inl hraise
    · exact .inr ⟨halgo, hprimed⟩
  · rw [if_neg halgo]
    exact .inl (goodB_raises hp)

theorem adjust_primed_raises (hs : rc.Steps inp) (hgood : rc.good inp = true)
    (halgo : rc.algo = 1) (h : rc.Primed) : rc.Raises (rc.adjust inp) := by
  rw [hs.adjust_good hgood, if_pos halgo]
  have hinit : rc.initRetry.Primed := ⟨h.update, h.moved, h.room, h.fast⟩
  exact hinit.raises

theorem adjust_good_le (hp : rc.Searches) (hi : rc.table.HasRow rc.index) (hs : rc.Steps inp)
    (hgood : rc.good inp = true) : rc.index ≤ (rc.adjust inp).index := by
  have htop : rc.index ≤ rc.maxIdx := Int.le_sub_one_of_lt hi.2
  rcases adjust_good_cases hp hi hs hgood with hraise | ⟨-, hsame, -⟩
  · unfold Raises at hraise
    omega
  · exact hsame.ge

/-- Two good trials in a row. -/
theorem adjust_good_twice (hp : rc.Searches) (hi : rc.table.HasRow rc.index) {inp' : TrialInput}
    (hs : rc.Steps inp) (hgood : rc.good inp = true) (hs' : rc.Steps inp')
    (hgood' : rc.good inp' = true) : rc.Raises ((rc.adjust inp).adjust inp') := by
  have hparams : (rc.adjust inp).toRateParams = rc.toRateParams := adjust_params inp
  have hrow : (rc.adjust inp).table.HasRow (rc.adjust inp).index := by
    rw [hparams]
    exact adjust_hasRow hp.toSound hi inp
  have hstep : (rc.adjust inp).Steps inp' :=
    ⟨(isStatic_of_params hparams).trans hs'.search,
      (suppressed_of_params hparams inp').trans hs'.free⟩
  have hgood₂ : (rc.adjust inp).good inp' = true := (good_of_params hparams inp').trans hgood'
  have hmax : (rc.adjust inp).maxIdx = rc.maxIdx := by simp only [maxIdx, hparams]
  rcases adjust_good_cases hp hi hs hgood with hraise | ⟨halgo, hsame, hprimed⟩
  · exact le_trans hraise (adjust_good_le (hparams ▸ hp) hrow hstep hgood₂)
  · have hraise := adjust_primed_raises hstep hgood₂ (by rw [hparams]; exact halgo) hprimed
    unfold Raises at hraise ⊢
    rwa [hmax, hsame] at hraise

/-! ## Bad trials -/

/-- Down by a row at least, if there is one. -/
def Lowers (rc rc' : RateController) : Prop := rc'.index ≤ max 0 (rc.index - 1)

theorem backoff_le (hp : rc.Searches) : rc.backoff ≤ max 0 (rc.index - 1) := by
  have hdelta := hp.delta_pos
  unfold backoff
  split <;> omega

theorem badB_lowers (hp : rc.Searches) : rc.Lowers (rc.badB rc.table.highSpeedThresh) := by
  unfold Lowers badB
  split_ifs with hback hdown
  · exact backoff_le hp
  · show rc.index - 1 ≤ _
    omega
  · show rc.index ≤ _
    omega

theorem badC_lowers (hp : rc.Searches) : rc.Lowers (rc.badC rc.table.highSpeedThresh) := by
  unfold Lowers badC
  split_ifs with hback hdown
  · exact backoff_le hp
  · show rc.index - 1 ≤ _
    omega
  · show rc.index - 1 ≤ _
    omega
  · show rc.index ≤ _
    omega

theorem adjust_bad_lowers (hp : rc.Searches) (hs : rc.Steps inp) (hbad : rc.bad inp = true) :
    rc.Lowers (rc.adjust inp) := by
  rw [hs.adjust_bad hp hbad]
  have hinit : rc.initRetry.Searches := hp
  split
  · exact badC_lowers hinit
  · exact badB_lowers hp

/-! ## Whole runs of good or of bad trials -/

/-- Every trial is a step of the search, classified as `c` says. -/
def AllStep (rc : RateController) (c : RateController → TrialInput → Bool)
    (inps : List TrialInput) : Prop :=
  ∀ inp ∈ inps, rc.Steps inp ∧ c rc inp = true

/-- The rows used during the trials, the first one included. -/
def rowsUsed (rc : RateController) : List TrialInput → List Int
  | [] => [rc.index]
  | inp :: inps => rc.index :: rowsUsed (rc.adjust inp) inps

/-- What a trial keeps of a controller in search mode. -/
theorem adjust_keeps (hp : rc.Searches) (hi : rc.table.HasRow rc.index) (inp : TrialInput) :
    (rc.adjust inp).Searches ∧ (rc.adjust inp).table.HasRow (rc.adjust inp).index ∧
      (rc.adjust inp).maxIdx = rc.maxIdx := by
  have hparams : (rc.adjust inp).toRateParams = rc.toRateParams := adjust_params inp
  refine ⟨hparams ▸ hp, ?_, by simp only [maxIdx, hparams]⟩
  rw [hparams]
  exact adjust_hasRow hp.toSound hi inp

theorem AllStep.adjust {c : RateController → TrialInput → Bool} {inps : List TrialInput}
    (hc : ∀ rc' : RateController, rc'.toRateParams = rc.toRateParams → ∀ i, c rc' i = c rc i)
    (h : rc.AllStep c inps) (inp : TrialInput) : (rc.adjust inp).AllStep c inps := by
  have hparams : (rc.adjust inp).toRateParams = rc.toRateParams := adjust_params inp
  intro i hmem
  obtain ⟨hs, hcl⟩ := h i hmem
  exact ⟨⟨(isStatic_of_params hparams).trans hs.search,
    (suppressed_of_params hparams i).trans hs.free⟩, (hc _ hparams i).trans hcl⟩

theorem foldl_good (inps : List TrialInput) :
    ∀ rc : RateController, rc.Searches → rc.table.HasRow rc.index → rc.AllStep good inps →
      min rc.maxIdx (rc.index + inps.length / 2) ≤ (inps.foldl RateController.adjust rc).index := by
  -- two trials at a time, since one of two may only prime
  induction inps using List.twoStepInduction with
  | nil =>
      intro rc _ _ _
      simp
  | singleton inp =>
      intro rc hp hi h
      have hle := adjust_good_le hp hi (h inp (by simp)).1 (h inp (by simp)).2
      simp only [List.foldl_cons, List.foldl_nil, List.length_singleton]
      omega
  | cons_cons inp inp' inps ih _ =>
      intro rc hp hi h
      obtain ⟨hs, hgood⟩ := h inp (by simp)
      obtain ⟨hs', hgood'⟩ := h inp' (by simp)
      have hraise := adjust_good_twice hp hi hs hgood hs' hgood'
      obtain ⟨hp₁, hi₁, hmax₁⟩ := adjust_keeps hp hi inp
      obtain ⟨hp₂, hi₂, hmax₂⟩ := adjust_keeps hp₁ hi₁ inp'
      have hrest : rc.AllStep good inps := fun i hmem => h i (by simp [hmem])
      have hih := ih ((rc.adjust inp).adjust inp') hp₂ hi₂
        ((hrest.adjust (fun _ => good_of_params) inp).adjust (fun _ => good_of_params) inp')
      rw [hmax₂, hmax₁] at hih
      unfold Raises at hraise
      simp only [List.foldl_cons, List.length_cons] at hih ⊢
      omega

theorem foldl_bad (inps : List TrialInput) :
    ∀ rc : RateController, rc.Searches → rc.table.HasRow rc.index → rc.AllStep bad inps →
      (inps.foldl RateController.adjust rc).index ≤ max 0 (rc.index - inps.length) := by
  induction inps with
  | nil =>
      intro rc _ _ _
      simp
  | cons inp inps ih =>
      intro rc hp hi h
      obtain ⟨hs, hbad⟩ := h inp List.mem_cons_self
      have hlow := adjust_bad_lowers hp hs hbad
      obtain ⟨hp₁, hi₁, -⟩ := adjust_keeps hp hi inp
      have hrest : rc.AllStep bad inps := fun i hmem => h i (List.mem_cons_of_mem _ hmem)
      have hih := ih (rc.adjust inp) hp₁ hi₁ (hrest.adjust (fun _ => bad_of_params) inp)
      unfold Lowers at hlow
      simp only [List.foldl_cons, List.length_cons] at hih ⊢
      omega

/-- The rows of a run are ordered if each trial keeps to the order. -/
theorem rowsUsed_pairwise {R : Int → Int → Prop} [IsTrans Int R]
    {c : RateController → TrialInput → Bool}
    (hc : ∀ rc rc' : RateController, rc'.toRateParams = rc.toRateParams → ∀ i, c rc' i = c rc i)
    (hstep : ∀ (rc : RateController) (inp : TrialInput), rc.Searches →
      rc.table.HasRow rc.index → rc.Steps inp → c rc inp = true → R rc.index (rc.adjust inp).index)
    (inps : List TrialInput) :
    ∀ rc : RateController, rc.Searches → rc.table.HasRow rc.index → rc.AllStep c inps →
      (rc.rowsUsed inps).Pairwise R := by
  intro rc hp hi h
  rw [← List.isChain_iff_pairwise]
  induction inps generalizing rc with
  | nil => exact List.isChain_singleton _
  | cons inp inps ih =>
      obtain ⟨hs, hcl⟩ := h inp List.mem_cons_self
      obtain ⟨hp₁, hi₁, -⟩ := adjust_keeps hp hi inp
      have hrest : rc.AllStep c inps := fun i hmem => h i (List.mem_cons_of_mem _ hmem)
      have htail := ih (rc.adjust inp) hp₁ hi₁ (hrest.adjust (hc rc) inp)
      have hstart : (rc.adjust inp).rowsUsed inps =
          (rc.adjust inp).index :: ((rc.adjust inp).rowsUsed inps).tail := by
        cases inps <;> rfl
      rw [hstart] at htail
      show List.IsChain R (rc.index :: (rc.adjust inp).rowsUsed inps)
      rw [hstart]
      exact List.IsChain.cons_cons (hstep rc inp hp hi hs hcl) htail

/-! ## The backoff of algorithm B -/

/-- Algorithm B, in search mode. -/
structure RunsB (rc : RateController) : Prop where
  algo : rc.algo ≠ 1
  search : rc.isStatic = false

/-- The count has reached its threshold. -/
def BackedOff (rc : RateController) : Prop := rc.slowAdjThresh ≤ rc.slowAdjCount

/-- The trial lowers the index by more than one row. -/
def SteepDrop (rc : RateController) (inp : TrialInput) : Prop :=
  (rc.adjust inp).index < rc.index - 1

instance (rc : RateController) (inp : TrialInput) : Decidable (rc.SteepDrop inp) :=
  inferInstanceAs (Decidable (_ < _))

/-- How many trials of a run do. -/
def steepDrops (rc : RateController) : List TrialInput → Nat
  | [] => 0
  | inp :: inps => (if rc.SteepDrop inp then 1 else 0) + steepDrops (rc.adjust inp) inps

theorem RunsB.adjust_eq (h : rc.RunsB) (inp : TrialInput) :
    rc.adjust inp = if rc.suppressed inp then rc
      else rc.adjustAlgoB (rc.good inp) (rc.bad inp) rc.table.highSpeedThresh rc.maxIdx := by
  simp only [RateController.adjust, h.search, if_neg h.algo, Bool.false_eq_true, if_false]

theorem RunsB.adjust (h : rc.RunsB) (inp : TrialInput) : (rc.adjust inp).RunsB := by
  have hparams : (rc.adjust inp).toRateParams = rc.toRateParams := adjust_params inp
  exact ⟨by rw [hparams]; exact h.algo, (isStatic_of_params hparams).trans h.search⟩

/-- Once the count has reached its threshold, neither the fast raise nor the
backoff applies. -/
theorem adjustAlgoB_backedOff (h : rc.BackedOff) (good bad : Bool) (hst maxIdx : Int) :
    (rc.adjustAlgoB good bad hst maxIdx).BackedOff ∧
      |(rc.adjustAlgoB good bad hst maxIdx).index - rc.index| ≤ 1 := by
  unfold BackedOff at h
  have hfast : ¬ (rc.index < hst ∧ rc.slowAdjCount < rc.slowAdjThresh) := by omega
  have hback : ¬ (rc.index < hst ∧ rc.slowAdjCount + 1 = rc.slowAdjThresh) := by omega
  unfold adjustAlgoB goodB badB BackedOff
  rw [if_neg hfast, if_neg hback, abs_le]
  split_ifs
  · exact ⟨h, show -1 ≤ rc.index + 1 - rc.index ∧ rc.index + 1 - rc.index ≤ 1 by omega⟩
  · exact ⟨h, by omega⟩
  · exact ⟨show rc.slowAdjThresh ≤ rc.slowAdjCount + 1 by omega,
      show -1 ≤ rc.index - 1 - rc.index ∧ rc.index - 1 - rc.index ≤ 1 by omega⟩
  · exact ⟨show rc.slowAdjThresh ≤ rc.slowAdjCount + 1 by omega,
      show -1 ≤ rc.index - rc.index ∧ rc.index - rc.index ≤ 1 by omega⟩
  · exact ⟨h, by omega⟩

theorem RunsB.backedOff (h : rc.RunsB) (hback : rc.BackedOff) (inp : TrialInput) :
    (rc.adjust inp).BackedOff ∧ |(rc.adjust inp).index - rc.index| ≤ 1 := by
  rw [h.adjust_eq]
  split
  · exact ⟨hback, by rw [sub_self, abs_zero]; exact zero_le_one⟩
  · exact adjustAlgoB_backedOff hback _ _ _ _

/-- Only the backoff drops more than one row, and it settles the count. -/
theorem RunsB.settled_of_steepDrop (h : rc.RunsB) (hp : rc.Sound) (hdrop : rc.SteepDrop inp) :
    (rc.adjust inp).BackedOff := by
  have hdelta := hp.delta_nonneg
  unfold SteepDrop at hdrop
  rw [h.adjust_eq] at hdrop ⊢
  unfold adjustAlgoB goodB badB at hdrop ⊢
  split_ifs at hdrop ⊢ with hsup hgood hfast hup hbad hback hdown
  · omega
  · simp only [raiseFast] at hdrop
    split at hdrop <;> omega
  · simp only at hdrop
    omega
  · omega
  · exact hback.2.ge
  · simp only at hdrop
    omega
  · simp only at hdrop
    omega
  · omega

theorem RunsB.foldl_backedOff (h : rc.RunsB) (hback : rc.BackedOff) (inps : List TrialInput) :
    (inps.foldl RateController.adjust rc).BackedOff := by
  induction inps generalizing rc with
  | nil => exact hback
  | cons inp inps ih => exact ih (h.adjust inp) (h.backedOff hback inp).1

theorem RunsB.steepDrops_backedOff (h : rc.RunsB) (hback : rc.BackedOff) (inps : List TrialInput) :
    rc.steepDrops inps = 0 := by
  induction inps generalizing rc with
  | nil => rfl
  | cons inp inps ih =>
      obtain ⟨hnext, hsmall⟩ := h.backedOff hback inp
      have hno : ¬ rc.SteepDrop inp := by
        rw [abs_le] at hsmall
        unfold SteepDrop
        omega
      rw [steepDrops, if_neg hno, ih (h.adjust inp) hnext]

theorem RunsB.steepDrops_le (h : rc.RunsB) (hp : rc.Sound) (inps : List TrialInput) :
    rc.steepDrops inps ≤ 1 := by
  induction inps generalizing rc with
  | nil => exact Nat.zero_le 1
  | cons inp inps ih =>
      have hp' : (rc.adjust inp).Sound := by
        rw [adjust_params inp]
        exact hp
      rw [steepDrops]
      split
      · rename_i hdrop
        rw [(h.adjust inp).steepDrops_backedOff (h.settled_of_steepDrop hp hdrop)]
      · rw [Nat.zero_add]
        exact ih (h.adjust inp) hp'

theorem RunsB.foldl (h : rc.RunsB) (inps : List TrialInput) :
    (inps.foldl RateController.adjust rc).RunsB := by
  induction inps generalizing rc with
  | nil => exact h
  | cons inp inps ih => exact ih (h.adjust inp)

end RateController

/-! ## Controllers of activated sessions -/

variable {srv : Server} {s : Session} {d : Rx}

theorem newRateController_searches (req : TestActPDU) :
    ((s.activate srv req d).newRateController srv).Searches where
  toSound := newRateController_sound req
  delta_pos := by
    show 1 ≤ (if req.highSpeedDelta.toNat < 1 then 10 else (req.highSpeedDelta.toNat : Int))
    split <;> omega
  slow_pos := by
    show 1 ≤ (if req.slowAdjThresh.toNat < 1 then 3 else (req.slowAdjThresh.toNat : Int))
    split <;> omega
  thresh_le := (policeThresholds_range req).2.1

/-- **The search makes progress from every state it can reach.** Of `n` good
trials half raise the index until the top row is reached, and none lowers
it; each bad trial lowers it until row 0 is reached, and none raises it. -/
theorem search_progresses (cfg : Config) (s : Session) (req : TestActPDU) (d : Rx)
    (inps : List TrialInput) :
    let srv := newServer cfg
    let rc := inps.foldl RateController.adjust ((s.activate srv req d).newRateController srv)
    (∀ goods, rc.AllStep RateController.good goods →
        min rc.maxIdx (rc.index + goods.length / 2) ≤
            (goods.foldl RateController.adjust rc).index ∧
          (rc.rowsUsed goods).Pairwise (· ≤ ·) ∧
          (2 * (rc.maxIdx - rc.index) ≤ goods.length →
            (goods.foldl RateController.adjust rc).index = rc.maxIdx)) ∧
      ∀ bads, rc.AllStep RateController.bad bads →
        (bads.foldl RateController.adjust rc).index ≤ max 0 (rc.index - bads.length) ∧
          (rc.rowsUsed bads).Pairwise (· ≥ ·) ∧
          (rc.index ≤ bads.length → (bads.foldl RateController.adjust rc).index = 0) := by
  intro srv rc
  obtain ⟨hparams, hrow⟩ := RateController.foldl_adjust inps
    ((s.activate srv req d).newRateController srv) (newRateController_sound req)
    (initialIndex_activate_bounds req)
  have hp : rc.Searches := by
    show RateParams.Searches (inps.foldl RateController.adjust _).toRateParams
    rw [hparams]
    exact newRateController_searches req
  have hi : rc.table.HasRow rc.index := by
    show RateTable.HasRow (inps.foldl RateController.adjust _).toRateParams.table _
    rw [hparams]
    exact hrow
  constructor
  · intro goods hall
    have hreach := RateController.foldl_good goods rc hp hi hall
    obtain ⟨hfold, hend⟩ := RateController.foldl_adjust goods rc hp.toSound hi
    have htop : (goods.foldl RateController.adjust rc).index ≤ rc.maxIdx :=
      Int.le_sub_one_of_lt hend.2
    refine ⟨hreach, ?_, fun hlong => by omega⟩
    exact RateController.rowsUsed_pairwise (fun _ _ => RateController.good_of_params)
      (fun _ _ => RateController.adjust_good_le) goods rc hp hi hall
  · intro bads hall
    have hreach := RateController.foldl_bad bads rc hp hi hall
    have hend := (RateController.foldl_adjust bads rc hp.toSound hi).2.1
    refine ⟨hreach, ?_, fun hlong => by omega⟩
    refine RateController.rowsUsed_pairwise (fun _ _ => RateController.bad_of_params) ?_ bads rc hp
      hi hall
    intro rc inp hp hi hs hbad
    have hlow := RateController.adjust_bad_lowers hp hs hbad
    have hpos := hi.1
    unfold RateController.Lowers at hlow
    show (rc.adjust inp).index ≤ rc.index
    omega

/-- A trial without errors or delay. -/
def calmTrial : TrialInput where
  rttVarSample := 0

/-- A trial that lost datagrams. -/
def lossyTrial : TrialInput where
  seqErrLoss := 100

/-- The controller of a session whose request left everything to defaults. -/
def plainController : RateController :=
  (awaitingSession.activate (newServer {}) (TestActPDU.ofBytes (activationOf 0 0))
    (activationRx 0 0 false)).newRateController (newServer {})

/-- The same controller, with a table that can be evaluated. -/
theorem plainController_indexed : plainController =
    (awaitingSession.activate (newServer {}).indexed (TestActPDU.ofBytes (activationOf 0 0))
      (activationRx 0 0 false)).newRateController (newServer {}).indexed := by
  rw [Server.indexed_eq]
  rfl

/-- Four good trials, and two bad ones from row 20. -/
theorem search_progresses_plain :
    2 ≤ ([calmTrial, calmTrial, calmTrial, calmTrial].foldl RateController.adjust
        plainController).index ∧
      ([calmTrial, calmTrial].foldl RateController.adjust plainController).index = 20 ∧
      ([lossyTrial, lossyTrial].foldl RateController.adjust
        ([calmTrial, calmTrial].foldl RateController.adjust plainController)).index ≤ 18 := by
  obtain ⟨hgood, -⟩ := search_progresses {} awaitingSession
    (TestActPDU.ofBytes (activationOf 0 0)) (activationRx 0 0 false) []
  obtain ⟨-, hbad⟩ := search_progresses {} awaitingSession
    (TestActPDU.ofBytes (activationOf 0 0)) (activationRx 0 0 false) [calmTrial, calmTrial]
  have hstart : plainController.index = 0 := by decide +kernel
  have hmax : plainController.maxIdx = maxSendingRates - 1 := by
    show ((newServer {}).table.rows.length : Int) - 1 = _
    rw [(newServer {}).rows_length]
  have hrise : min plainController.maxIdx (plainController.index + 4 / 2) ≤ _ :=
    (hgood [calmTrial, calmTrial, calmTrial, calmTrial] (by
      intro inp hmem
      obtain rfl : inp = calmTrial := by simpa using hmem
      exact ⟨⟨by decide +kernel, by decide +kernel⟩, by decide +kernel⟩)).1
  have hraised : ([calmTrial, calmTrial].foldl RateController.adjust plainController).index = 20 := by
    rw [plainController_indexed]
    decide +kernel
  have hsteps : ([calmTrial, calmTrial].foldl RateController.adjust plainController).AllStep
      RateController.bad [lossyTrial, lossyTrial] := by
    rw [plainController_indexed]
    intro inp hmem
    obtain rfl : inp = lossyTrial := by simpa using hmem
    exact ⟨⟨by decide +kernel, by decide +kernel⟩, by decide +kernel⟩
  have hfall := (hbad [lossyTrial, lossyTrial] hsteps).1
  rw [hmax, hstart] at hrise
  refine ⟨le_trans (by decide) hrise, hraised, hfall.trans ?_⟩
  show max 0 (([calmTrial, calmTrial].foldl RateController.adjust plainController).index - 2) ≤ 18
  rw [hraised]
  decide

/-- **Algorithm B backs off fast at most once.** Once the count has reached
its threshold it stays there and every later trial moves the index by one
row at most; and at most one trial of a whole run lowers the index by more.
-/
theorem fast_backoff_once (cfg : Config) (s : Session) (req : TestActPDU) (d : Rx)
    (inps : List TrialInput) :
    let srv := newServer cfg
    let rc := (s.activate srv req d).newRateController srv
    rc.algo = 0 → rc.isStatic = false →
      (∀ before later, inps = before ++ later →
        rc.slowAdjThresh ≤ (before.foldl RateController.adjust rc).slowAdjCount →
          rc.slowAdjThresh ≤ (inps.foldl RateController.adjust rc).slowAdjCount ∧
          ∀ inp, |((inps ++ [inp]).foldl RateController.adjust rc).index -
            (inps.foldl RateController.adjust rc).index| ≤ 1) ∧
      rc.steepDrops inps ≤ 1 := by
  intro srv rc halgo hsearch
  have hB : rc.RunsB := ⟨by rw [halgo]; decide, hsearch⟩
  have hp : rc.Sound := newRateController_sound req
  have hrow : rc.table.HasRow rc.index := initialIndex_activate_bounds req
  refine ⟨?_, hB.steepDrops_le hp inps⟩
  intro before later hinps hreached
  have hparams : ∀ l : List TrialInput,
      (l.foldl RateController.adjust rc).toRateParams = rc.toRateParams :=
    fun l => (RateController.foldl_adjust l rc hp hrow).1
  have hbefore : (before.foldl RateController.adjust rc).BackedOff := by
    unfold RateController.BackedOff
    rw [hparams before]
    exact hreached
  have hafter : (inps.foldl RateController.adjust rc).BackedOff := by
    rw [hinps, List.foldl_append]
    exact (hB.foldl before).foldl_backedOff hbefore later
  refine ⟨?_, fun inp => ?_⟩
  · unfold RateController.BackedOff at hafter
    rw [hparams inps] at hafter
    exact hafter
  · rw [List.foldl_append]
    exact ((hB.foldl inps).backedOff hafter inp).2

theorem fast_backoff_once_plain : plainController.steepDrops
    [calmTrial, calmTrial, lossyTrial, lossyTrial, lossyTrial, lossyTrial] ≤ 1 :=
  (fast_backoff_once {} awaitingSession (TestActPDU.ofBytes (activationOf 0 0))
    (activationRx 0 0 false) _ (by decide +kernel) (by decide +kernel)).2

end Diagd.Udpst
