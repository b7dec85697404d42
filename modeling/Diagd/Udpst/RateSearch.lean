import Diagd.Udpst.Activation

/-!
# The rate search stays in its table

`RateController.adjust` moves the index by single rows, by the client's
high-speed delta, by doubling, by three deltas down, to the high-speed
threshold, to row 0 or to the configured row. Each of these keeps it inside
the table, given three facts about the parameters (`RateParams.Sound`) that
NO step changes and that policing establishes for every activation request.
-/

namespace Diagd.Udpst

open GoSlice GoStd

/-- `Rows[k]` is in range. -/
def RateTable.HasRow (t : RateTable) (k : Int) : Prop := 0 ≤ k ∧ k < t.rows.length

/-- Parameters that cannot lead the search out of the table. The row after
the threshold must exist too: doubling is refused only above half of it, and
row 0 counts as row 1. -/
structure RateParams.Sound (p : RateParams) : Prop where
  hst_pos : 0 < p.table.highSpeedThresh
  hst_lt : p.table.highSpeedThresh + 1 < p.table.rows.length
  delta_nonneg : 0 ≤ p.highSpeedDelta
  conf_lt : p.srIndexConf < p.table.rows.length

namespace RateController

variable {rc : RateController}

/-! ## No step changes the parameters -/

@[simp] theorem goodB_params (hst maxIdx : Int) :
    (rc.goodB hst maxIdx).toRateParams = rc.toRateParams := by
  unfold goodB
  split_ifs <;> rfl

@[simp] theorem badB_params (hst : Int) : (rc.badB hst).toRateParams = rc.toRateParams := by
  unfold badB
  split_ifs <;> rfl

@[simp] theorem initRetry_params : rc.initRetry.toRateParams = rc.toRateParams := rfl

@[simp] theorem raiseSlow_params (maxIdx : Int) :
    (rc.raiseSlow maxIdx).toRateParams = rc.toRateParams := by
  simp only [raiseSlow, apply_ite toRateParams, ite_self]

@[simp] theorem goodC_params (hst maxIdx : Int) :
    (rc.goodC hst maxIdx).toRateParams = rc.toRateParams := by
  unfold goodC
  split
  · rfl
  · exact raiseSlow_params maxIdx

@[simp] theorem badC_params (hst : Int) : (rc.badC hst).toRateParams = rc.toRateParams := by
  unfold badC
  split_ifs <;> rfl

@[simp] theorem adjust_params (inp : TrialInput) :
    (rc.adjust inp).toRateParams = rc.toRateParams := by
  simp only [adjust, adjustAlgoB, adjustAlgoC, apply_ite toRateParams, goodB_params, badB_params,
    goodC_params, badC_params, initRetry_params, ite_self]

/-! ## Every step keeps the index in the table -/

theorem backoff_hasRow (hp : rc.Sound) (hi : rc.table.HasRow rc.index) :
    rc.table.HasRow rc.backoff := by
  have hd := hp.delta_nonneg
  unfold RateTable.HasRow backoff at *
  split <;> omega

theorem raiseFast_hasRow (hp : rc.Sound) (hi : rc.table.HasRow rc.index) :
    rc.table.HasRow (rc.raiseFast rc.table.highSpeedThresh) := by
  have hd := hp.delta_nonneg
  have hpos := hp.hst_pos
  have hhst := hp.hst_lt
  unfold RateTable.HasRow raiseFast at *
  split <;> omega

theorem raiseDouble_hasRow (hp : rc.Sound) (hi : rc.table.HasRow rc.index) :
    rc.table.HasRow (rc.raiseDouble rc.table.highSpeedThresh).1 := by
  have hpos := hp.hst_pos
  have hhst := hp.hst_lt
  unfold RateTable.HasRow at *
  simp only [raiseDouble]
  split_ifs <;> simp only <;> omega

theorem goodB_hasRow (hp : rc.Sound) (hi : rc.table.HasRow rc.index) :
    rc.table.HasRow (rc.goodB rc.table.highSpeedThresh rc.maxIdx).index := by
  unfold goodB
  split_ifs with hfast hup
  · exact raiseFast_hasRow hp hi
  · show rc.table.HasRow (rc.index + 1)
    unfold RateTable.HasRow maxIdx at *
    omega
  · exact hi

/-- The single-row step down of both algorithms. -/
theorem pred_hasRow (hi : rc.table.HasRow rc.index) (hdown : 0 < rc.index) :
    rc.table.HasRow (rc.index - 1) := by
  unfold RateTable.HasRow at *
  omega

theorem badB_hasRow (hp : rc.Sound) (hi : rc.table.HasRow rc.index) :
    rc.table.HasRow (rc.badB rc.table.highSpeedThresh).index := by
  unfold badB
  split_ifs with hback hdown
  · exact backoff_hasRow hp hi
  · exact pred_hasRow hi hdown
  · exact hi

theorem raiseSlow_hasRow (hi : rc.table.HasRow rc.index) :
    rc.table.HasRow (rc.raiseSlow rc.maxIdx).index := by
  have hindex : (rc.raiseSlow rc.maxIdx).index =
      if rc.index < rc.maxIdx then rc.index + 1 else rc.index := by
    simp only [raiseSlow, apply_ite index, ite_self]
  rw [hindex]
  unfold RateTable.HasRow maxIdx at *
  split <;> omega

theorem goodC_hasRow (hp : rc.Sound) (hi : rc.table.HasRow rc.index) :
    rc.table.HasRow (rc.goodC rc.table.highSpeedThresh rc.maxIdx).index := by
  unfold goodC
  split
  · exact raiseDouble_hasRow hp hi
  · exact raiseSlow_hasRow hi

theorem badC_hasRow (hp : rc.Sound) (hi : rc.table.HasRow rc.index) :
    rc.table.HasRow (rc.badC rc.table.highSpeedThresh).index := by
  unfold badC
  split_ifs with hback hdown
  · exact backoff_hasRow hp hi
  · exact pred_hasRow hi hdown
  · exact pred_hasRow hi hdown
  · exact hi

/-- One trial interval. -/
theorem adjust_hasRow (hp : rc.Sound) (hi : rc.table.HasRow rc.index) (inp : TrialInput) :
    rc.table.HasRow (rc.adjust inp).index := by
  -- algorithm C works on the controller after `initRetry`, which differs in no field used here
  have hinit : rc.initRetry.table.HasRow rc.initRetry.index := hi
  have hpinit : rc.initRetry.Sound := hp
  unfold adjust adjustAlgoB adjustAlgoC
  split_ifs with _ _ hstatic
  · exact ⟨le_refl 0, hi.1.trans_lt hi.2⟩
  · exact hi
  · have hconf : 0 ≤ rc.srIndexConf := by
      simp only [isStatic, Bool.and_eq_true, decide_eq_true_eq] at hstatic
      exact hstatic.1
    exact ⟨hconf, hp.conf_lt⟩
  · exact goodC_hasRow hpinit hinit
  · exact badC_hasRow hpinit hinit
  · exact hi
  · exact goodB_hasRow hp hi
  · exact badB_hasRow hp hi
  · exact hi

/-- A whole search, from any controller with sound parameters. -/
theorem foldl_adjust (inps : List TrialInput) :
    ∀ rc : RateController, rc.Sound → rc.table.HasRow rc.index →
      (inps.foldl adjust rc).toRateParams = rc.toRateParams ∧
        rc.table.HasRow (inps.foldl adjust rc).index := by
  induction inps with
  | nil => exact fun rc _ hi => ⟨rfl, hi⟩
  | cons inp inps ih =>
      intro rc hp hi
      have hparams : (rc.adjust inp).toRateParams = rc.toRateParams := adjust_params inp
      obtain ⟨heq, hrow⟩ := ih (rc.adjust inp) (hparams ▸ hp)
        (by rw [hparams]; exact adjust_hasRow hp hi inp)
      rw [hparams] at heq hrow
      exact ⟨heq, hrow⟩

end RateController

/-! ## Controllers of activated sessions -/

variable {srv : Server} {s : Session} {d : Rx}

theorem newRateController_sound (req : TestActPDU) :
    ((s.activate srv req d).newRateController srv).Sound where
  hst_pos := by
    show 0 < srv.table.highSpeedThresh
    rw [srv.highSpeedThresh_eq]
    decide
  hst_lt := by
    show srv.table.highSpeedThresh + 1 < srv.table.rows.length
    rw [srv.highSpeedThresh_eq, srv.rows_length]
    decide
  delta_nonneg := by
    show 0 ≤ (if req.highSpeedDelta.toNat < 1 then 10 else (req.highSpeedDelta.toNat : Int))
    split <;> omega
  conf_lt := (policeIndexConf_bounds srv.table req).2

/-- **The rate index stays in the table.** For every activation request, the
lookup for the response succeeds, and so does the lookup for every status
message and for every burst sent: after ANY sequence of trial inputs the
index names a row. -/
theorem rate_index_in_table (cfg : Config) (s : Session) (req : TestActPDU) (d : Rx)
    (inps : List TrialInput) :
    let srv := newServer cfg
    let s' := s.activate srv req d
    let rc := inps.foldl RateController.adjust (s'.newRateController srv)
    0 ≤ rc.index ∧ rc.index < srv.table.rows.length ∧
      (∃ row ∈ srv.table.rows, element srv.table.rows rc.index = .ok row) ∧
      ∃ row ∈ srv.table.rows, element srv.table.rows s'.initialIndex = .ok row := by
  intro srv s' rc
  obtain ⟨hlow, hhigh⟩ : 0 ≤ s'.initialIndex ∧ s'.initialIndex < srv.table.rows.length :=
    initialIndex_activate_bounds req
  obtain ⟨-, hrow⟩ := RateController.foldl_adjust inps (s'.newRateController srv)
    (newRateController_sound req) ⟨hlow, hhigh⟩
  exact ⟨hrow.1, hrow.2, element_ok hrow.1 hrow.2, element_ok hlow hhigh⟩

end Diagd.Udpst
