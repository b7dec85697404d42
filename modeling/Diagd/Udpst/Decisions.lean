import Diagd.Udpst.Policing
import Diagd.Udpst.RateSearch
import Diagd.Udpst.TestDuration

/-!
# What a trial interval decides

`adjust` classifies a trial from three figures: the sequence errors, the mean
delay and the share of congestion marks. Each is computed in 32-bit words
before it is widened. Here the three are stated over unbounded integers, and
the code is compared with them: it computes exactly these figures as long as
the words do not wrap, and the client, which reports the trials of a
downstream test, can make all three of them wrap.
-/

namespace Diagd.Udpst

open GoSlice GoStd

/-! ## Rounding -/

/-- The source's `(a*10/c + 5) / 10` rounds the quotient half up. -/
theorem rounded_quotient (a : Nat) {c : Nat} (hc : 0 < c) :
    (((a * 10 / c + 5) / 10 : Nat) : Int) = ⌊(a : ℚ) / c + 1 / 2⌋ := by
  have hnested : (a * 10 / c + 5) / 10 = (a * 10 + 5 * c) / (c * 10) := by
    rw [← Nat.add_mul_div_right _ _ hc, Nat.div_div_eq_div_mul]
  have hrat : (a : ℚ) / c + 1 / 2 = ((a * 10 + 5 * c : Nat) : ℚ) / (c * 10 : Nat) := by
    have hc' : (c : ℚ) ≠ 0 := by exact_mod_cast hc.ne'
    push_cast
    field_simp
    ring
  rw [hnested, hrat, Rat.floor_natCast_div_natCast, Int.natCast_ediv]

namespace RateController

variable {rc : RateController} {inp : TrialInput}

/-! ## The figures over unbounded integers -/

def exactSeqerr (rc : RateController) (inp : TrialInput) : Int :=
  if rc.ignoreOooDup then inp.seqErrLoss.toNat
  else inp.seqErrLoss.toNat + inp.seqErrOoo.toNat + inp.seqErrDup.toNat

def exactDelay (rc : RateController) (inp : TrialInput) : Int :=
  if rc.useOwDelVar then
    if 0 < inp.delayVarCnt then ⌊(inp.delayVarSum.toNat : ℚ) / inp.delayVarCnt.toNat + 1 / 2⌋
    else rc.lowThresh
  else if inp.rttVarSample ≠ statusNoDelay then inp.rttVarSample.toNat
  else rc.lowThresh

def exactCethresh (rc : RateController) (inp : TrialInput) : Bool :=
  if 0 < rc.ecnCEThresh ∧ 0 < inp.ceCount then
    decide (⌊((rc.ecnCEThresh - 1 : Int) * inp.rxDatagrams.toNat : ℚ) / 255 + 1 / 2⌋
      < (inp.ceCount.toNat : Int))
  else false

def exactGood (rc : RateController) (inp : TrialInput) : Bool :=
  decide (rc.exactSeqerr inp ≤ rc.seqErrThresh) && decide (rc.exactDelay inp < rc.lowThresh) &&
    !rc.exactCethresh inp

def exactBad (rc : RateController) (inp : TrialInput) : Bool :=
  decide (rc.seqErrThresh < rc.exactSeqerr inp) || decide (rc.upperThresh < rc.exactDelay inp) ||
    rc.exactCethresh inp

/-! ## The words of the code -/

/-- Every word `adjust` computes on the way to a decision has the value the
same expression has over the integers. -/
structure Unwrapped (rc : RateController) (inp : TrialInput) : Prop where
  seqerr : rc.ignoreOooDup = false →
    (inp.seqErrOoo + inp.seqErrDup).toNat = inp.seqErrOoo.toNat + inp.seqErrDup.toNat
  delay : rc.useOwDelVar = true → 0 < inp.delayVarCnt →
    (inp.delayVarSum * 10).toNat = inp.delayVarSum.toNat * 10 ∧
      (inp.delayVarSum * 10 / inp.delayVarCnt + 5).toNat =
        inp.delayVarSum.toNat * 10 / inp.delayVarCnt.toNat + 5
  need : 0 < rc.ecnCEThresh → 0 < inp.ceCount →
    (UInt32.ofInt (rc.ecnCEThresh - 1) * inp.rxDatagrams * 10).toNat =
        (rc.ecnCEThresh - 1).toNat * inp.rxDatagrams.toNat * 10 ∧
      (UInt32.ofInt (rc.ecnCEThresh - 1) * inp.rxDatagrams * 10 / 255 + 5).toNat =
        (rc.ecnCEThresh - 1).toNat * inp.rxDatagrams.toNat * 10 / 255 + 5

/-- The decision is the one of the unbounded figures. -/
structure DecidesExactly (rc : RateController) (inp : TrialInput) : Prop extends
    rc.Unwrapped inp where
  good : rc.good inp = rc.exactGood inp
  bad : rc.bad inp = rc.exactBad inp

/-- Each expression that is computed fits a word. -/
structure FitsWord (rc : RateController) (inp : TrialInput) : Prop where
  seqerr : rc.ignoreOooDup = false → inp.seqErrOoo.toNat + inp.seqErrDup.toNat < 2 ^ 32
  delay : rc.useOwDelVar = true → 0 < inp.delayVarCnt → inp.delayVarSum.toNat * 10 < 2 ^ 32
  need : 0 < rc.ecnCEThresh → 0 < inp.ceCount →
    (rc.ecnCEThresh - 1).toNat * inp.rxDatagrams.toNat * 10 < 2 ^ 32

/-- A quotient of a word that is a multiple of ten leaves room for 5. -/
theorem quotient_add_five {w c : UInt32} {n : Nat} (hw : w.toNat = n * 10) (hn : n * 10 < 2 ^ 32) :
    (w / c + 5).toNat = n * 10 / c.toNat + 5 := by
  have hle : n * 10 / c.toNat ≤ n * 10 := Nat.div_le_self _ _
  rw [UInt32.toNat_add, UInt32.toNat_div, hw]
  -- the largest multiple of ten below 2 ^ 32 ends in 90
  exact Nat.mod_eq_of_lt (show n * 10 / c.toNat + 5 < 2 ^ 32 by omega)

theorem toNat_mul_ten {w : UInt32} (h : w.toNat * 10 < 2 ^ 32) : (w * 10).toNat = w.toNat * 10 := by
  rw [UInt32.toNat_mul]
  exact Nat.mod_eq_of_lt h

/-- The CE threshold of a policed session fits a byte. -/
theorem toNat_threshold (hce : rc.ecnCEThresh ≤ 255) (hpos : 0 < rc.ecnCEThresh) :
    (UInt32.ofInt (rc.ecnCEThresh - 1)).toNat = (rc.ecnCEThresh - 1).toNat := by
  have hword := toNat_uint32_ofInt (rc.ecnCEThresh - 1)
  omega

theorem FitsWord.unwrapped (h : rc.FitsWord inp) (hce : rc.ecnCEThresh ≤ 255) :
    rc.Unwrapped inp where
  seqerr := by
    intro hcount
    rw [UInt32.toNat_add]
    exact Nat.mod_eq_of_lt (h.seqerr hcount)
  delay := by
    intro huse hcnt
    have hten := toNat_mul_ten (h.delay huse hcnt)
    exact ⟨hten, quotient_add_five hten (h.delay huse hcnt)⟩
  need := by
    intro hpos hcount
    have hfits := h.need hpos hcount
    have hprod : (UInt32.ofInt (rc.ecnCEThresh - 1) * inp.rxDatagrams).toNat =
        (rc.ecnCEThresh - 1).toNat * inp.rxDatagrams.toNat := by
      rw [UInt32.toNat_mul, toNat_threshold hce hpos]
      exact Nat.mod_eq_of_lt (by omega)
    rw [← hprod] at hfits
    have hten := toNat_mul_ten hfits
    have hfive := quotient_add_five (c := 255) hten hfits
    rw [hprod] at hten hfive
    exact ⟨hten, hfive⟩

theorem Unwrapped.fitsWord (h : rc.Unwrapped inp) : rc.FitsWord inp where
  seqerr := by
    intro hcount
    rw [← h.seqerr hcount]
    exact UInt32.toNat_lt _
  delay := by
    intro huse hcnt
    rw [← (h.delay huse hcnt).1]
    exact UInt32.toNat_lt _
  need := by
    intro hpos hcount
    rw [← (h.need hpos hcount).1]
    exact UInt32.toNat_lt _

/-! ## The figures of the code -/

theorem Unwrapped.seqerr_eq (h : rc.Unwrapped inp) : rc.seqerr inp = rc.exactSeqerr inp := by
  unfold RateController.seqerr exactSeqerr
  cases hig : rc.ignoreOooDup with
  | true => rfl
  | false =>
      rw [h.seqerr hig]
      push_cast
      exact (add_assoc _ _ _).symm

theorem Unwrapped.delay_eq (h : rc.Unwrapped inp) : rc.delay inp = rc.exactDelay inp := by
  unfold RateController.delay exactDelay
  split_ifs with huse hcnt
  · have hpos : 0 < inp.delayVarCnt.toNat := UInt32.lt_iff_toNat_lt.mp hcnt
    rw [UInt32.toNat_div, (h.delay huse hcnt).2]
    exact rounded_quotient _ hpos
  · rfl
  · rfl
  · rfl

theorem Unwrapped.cethresh_eq (h : rc.Unwrapped inp) :
    rc.cethresh inp = rc.exactCethresh inp := by
  unfold RateController.cethresh exactCethresh
  split_ifs with hon
  · obtain ⟨hpos, hcount⟩ := hon
    have hneed : (((UInt32.ofInt (rc.ecnCEThresh - 1) * inp.rxDatagrams * 10 / 255 + 5) / 10
        : UInt32).toNat : Int) =
        ⌊((rc.ecnCEThresh - 1 : Int) * inp.rxDatagrams.toNat : ℚ) / 255 + 1 / 2⌋ := by
      rw [UInt32.toNat_div, (h.need hpos hcount).2]
      have hround := rounded_quotient ((rc.ecnCEThresh - 1).toNat * inp.rxDatagrams.toNat)
        (c := 255) (by decide)
      have hcast : ((rc.ecnCEThresh - 1).toNat : ℚ) = ((rc.ecnCEThresh - 1 : Int) : ℚ) := by
        exact_mod_cast congrArg (fun z : Int => (z : ℚ)) (Int.toNat_of_nonneg (by omega))
      push_cast at hround hcast ⊢
      rw [hcast] at hround
      exact hround
    rw [decide_eq_decide, ← hneed, UInt32.lt_iff_toNat_lt]
    exact Int.ofNat_lt.symm
  · rfl

/-- Where no word wraps, the decision is exact. -/
theorem Unwrapped.decides (h : rc.Unwrapped inp) : rc.DecidesExactly inp where
  toUnwrapped := h
  good := by rw [good, exactGood, h.seqerr_eq, h.delay_eq, h.cethresh_eq]
  bad := by rw [bad, exactBad, h.seqerr_eq, h.delay_eq, h.cethresh_eq]

end RateController

/-! ## Controllers of activated sessions -/

/-- **A trial is decided by exact arithmetic exactly if its figures fit a
word**, in every state of the search of every activated session. -/
theorem decides_exactly_iff (cfg : Config) (s : Session) (req : TestActPDU) (d : Rx)
    (inps : List TrialInput) (inp : TrialInput) :
    let srv := newServer cfg
    let rc := inps.foldl RateController.adjust ((s.activate srv req d).newRateController srv)
    rc.DecidesExactly inp ↔ rc.FitsWord inp := by
  intro srv rc
  have hparams : rc.toRateParams =
      ((s.activate srv req d).newRateController srv).toRateParams :=
    (RateController.foldl_adjust inps _ (newRateController_sound req)
      (initialIndex_activate_bounds req)).1
  have hce : rc.ecnCEThresh ≤ 255 := by
    rw [hparams]
    exact (policeCEThresh_range req).2
  exact ⟨fun h => h.toUnwrapped.fitsWord, fun h => (h.unwrapped hce).decides⟩

/-- A client reports 2^31 datagrams out of order and as many duplicates. -/
def floodedTrial : TrialInput where
  seqErrOoo := 0x80000000
  seqErrDup := 0x80000000
  rttVarSample := 0

/-- Their sum wraps to 0: the trial is a bad one, and the code takes it for
a good one. -/
theorem flooded_trial_good :
    let rc := briefSession.newRateController briefServer
    rc.good floodedTrial = true ∧ rc.exactGood floodedTrial = false ∧
      rc.exactBad floodedTrial = true ∧ rc.bad floodedTrial = false := by
  decide +kernel

end Diagd.Udpst
