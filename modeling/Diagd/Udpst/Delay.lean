import Diagd.Udpst.Exactness
import Diagd.Udpst.Samples

/-!
# Delay arithmetic (`wallDiffMs`, `recordLoad`)

`wallDiffMs` divides the nanosecond parts on their own, towards zero. Where
the receiver's nanoseconds are not below the sender's, the result is the
exact difference rounded down; where they are (`Borrows`), it is rounded UP.
Which of the two applies depends on the phase of the clock and not on the
delay, so a constant delay that is not a whole number of milliseconds can
show up as jitter of one millisecond.
-/

namespace Diagd.Udpst

open GoStd

/-! ## One difference -/

/-- `(sec, nsec)` is the wire timestamp of the time `w`. -/
structure Stamps (w : Time) (sec nsec : UInt32) : Prop where
  sec : sec = UInt32.ofInt (Time.unix w)
  nsec : (nsec.toNat : Int) = Time.nanosecond w

/-- The times with a given timestamp: any number of wraps of the 32-bit
seconds may have gone by. -/
theorem stamps_iff {w : Int} {sec nsec : UInt32} : Stamps w sec nsec ↔
    (nsec.toNat : Int) < 1000000000 ∧
      ∃ k : Int, w = (sec.toNat + 2 ^ 32 * k) * 1000000000 + nsec.toNat := by
  have hsec := sec.toNat_lt
  have hword := toNat_uint32_ofInt (Time.unix w)
  constructor
  · rintro ⟨rfl, hnsec⟩
    unfold Time.unix Time.nanosecond at *
    refine ⟨by omega, w / 1000000000 / 2 ^ 32, ?_⟩
    omega
  · rintro ⟨hlt, k, hw⟩
    have hunix : Time.unix w = sec.toNat + 2 ^ 32 * k := by
      unfold Time.unix
      omega
    refine ⟨?_, by unfold Time.nanosecond; omega⟩
    rw [← UInt32.toNat_inj]
    rw [hunix] at hword ⊢
    omega

/-- The nanoseconds of the receive time are below those of the timestamp. -/
def Borrows (t : Time) (nsec : UInt32) : Prop := Time.nanosecond t < nsec.toNat

instance (t : Time) (nsec : UInt32) : Decidable (Borrows t nsec) :=
  inferInstanceAs (Decidable (_ < _))

/-- The exact difference, rounded down or up. -/
theorem wallDiffMs_eq {t w : Int} {sec nsec : UInt32} (h : Stamps w sec nsec)
    (hnear : |t - w| < 2 ^ 30 * 1000000000) :
    wallDiffMs t sec nsec = if Borrows t nsec then -((w - t) / 1000000) else (t - w) / 1000000 := by
  obtain ⟨rfl, hnsec⟩ := h
  rw [abs_lt] at hnear
  have hds : ((UInt32.ofInt (Time.unix t) - UInt32.ofInt (Time.unix w)).toInt32).toInt =
      Time.unix t - Time.unix w := by
    refine toInt_int32_sub ?_ ?_ <;> unfold Time.unix <;> omega
  have hval : wallDiffMs t (UInt32.ofInt (Time.unix w)) nsec =
      (t / 1000000000 - w / 1000000000) * 1000 +
        (t % 1000000000 - w % 1000000000).tdiv 1000000 := by
    show (UInt32.ofInt (Time.unix t) - _).toInt32.toInt * 1000 + (Time.nanosecond t - _).tdiv _ = _
    rw [hds, hnsec]
    rfl
  have hborrow : Borrows t nsec ↔ t % 1000000000 < w % 1000000000 := by
    unfold Borrows
    rw [hnsec]
    rfl
  rw [hval]
  by_cases hb : Borrows t nsec
  · have hlt := hborrow.mp hb
    have hneg : (t % 1000000000 - w % 1000000000).tdiv 1000000 =
        -((w % 1000000000 - t % 1000000000) / 1000000) := by
      rw [← Int.tdiv_eq_ediv_of_nonneg (by omega), ← Int.neg_tdiv, neg_sub]
    rw [if_pos hb, hneg]
    omega
  · have hge := mt hborrow.mpr hb
    rw [if_neg hb, Int.tdiv_eq_ediv_of_nonneg (by omega)]
    omega

/-- Two measurements of one difference `d`, compared. -/
theorem wallDiffMs_le_iff {d t t' w w' : Int} {sec nsec sec' nsec' : UInt32}
    (h : Stamps w sec nsec) (h' : Stamps w' sec' nsec') (hd : t - w = d) (hd' : t' - w' = d)
    (hnear : |d| < 2 ^ 30 * 1000000000) :
    wallDiffMs t' sec' nsec' ≤ wallDiffMs t sec nsec ↔
      1000000 ∣ d ∨ (Borrows t' nsec' → Borrows t nsec) := by
  have hw : w - t = -d := by omega
  have hw' : w' - t' = -d := by omega
  rw [wallDiffMs_eq h (hd ▸ hnear), wallDiffMs_eq h' (hd' ▸ hnear), hw, hw', hd, hd']
  by_cases hb' : Borrows t' nsec'
  · by_cases hb : Borrows t nsec
    · simp only [hb, hb', if_true, le_refl, imp_self, or_true]
    · -- rounded up, then down: equal only for a whole number of milliseconds
      simp only [hb, hb', if_true, if_false, imp_false, not_true, or_false]
      omega
  · simp only [hb', if_false, false_imp_iff, or_true, iff_true]
    split <;> omega

/-! ## The samples of a stream -/

/-- A load PDU and the time it was received. -/
structure Arrival where
  rxTime : Time
  hdr : LoadPDU
  deriving DecidableEq, Repr

/-- Receive time minus send time, as `recordLoad` measures it. -/
def Arrival.delta (x : Arrival) : Int := wallDiffMs x.rxTime x.hdr.timeSec x.hdr.timeNsec

/-- The load PDUs whose sequence number advances the stream, from `seq` on. -/
def advancing : UInt32 → List AcctEvent → List Arrival
  | _, [] => []
  | seq, .load rxTime hdr :: es =>
      if seq + 1 ≤ hdr.seqNo then ⟨rxTime, hdr⟩ :: advancing hdr.seqNo es else advancing seq es
  | seq, .resetTrial :: es => advancing seq es
  | seq, .maybeRoll _ _ _ :: es => advancing seq es

namespace RxAccounting

variable {a : RxAccounting}

/-- The delay variation sample that `recordLoad` takes, if it takes one. -/
def delaySample (a : RxAccounting) (x : Arrival) : Option UInt32 :=
  (a.sampleOf x.rxTime x.hdr).map Sample.dv

/-- The samples of a whole run, in order. -/
def delaySamples : RxAccounting → List AcctEvent → List UInt32
  | _, [] => []
  | a, .load rxTime hdr :: es =>
      (a.delaySample ⟨rxTime, hdr⟩).toList ++ delaySamples (a.recordLoad rxTime hdr) es
  | a, .resetTrial :: es => delaySamples a.resetTrial es
  | a, .maybeRoll now subInt trialInt :: es => delaySamples (a.maybeRoll now subInt trialInt) es

/-! ## Samples that are all 0 -/

/-- A sample of measurements that lie within one millisecond is not wrapped. -/
theorem sample_eq_zero_iff {delta m : Int} (hle : m ≤ delta) (hnear : delta ≤ m + 1) :
    UInt32.ofInt (delta - m) = 0 ↔ delta ≤ m := by
  have hword := toNat_uint32_ofInt (delta - m)
  rw [← UInt32.toNat_inj]
  show (UInt32.ofInt (delta - m)).toNat = 0 ↔ _
  omega

theorem delaySample_advancing {c : ClockState} (hc : a.clockState = c) {x : Arrival}
    (hadv : c.seq + 1 ≤ x.hdr.seqNo) :
    a.delaySample x = some (UInt32.ofInt (x.delta - c.minWith x.delta)) ∧
      (a.recordLoad x.rxTime x.hdr).clockState = ⟨x.hdr.seqNo, true, c.minWith x.delta⟩ := by
  subst hc
  have hadv' : a.seq + 1 ≤ x.hdr.seqNo := hadv
  constructor
  · rw [delaySample, sampleOf, if_pos hadv', nextSample, recordClockDelta_min]
    rfl
  · rw [recordLoad_clockState, if_pos hadv']
    rfl

/-- Any other load PDU leaves the delays alone. -/
theorem delaySample_late {x : Arrival} (hlate : ¬ a.seq + 1 ≤ x.hdr.seqNo) :
    a.delaySample x = none ∧ (a.recordLoad x.rxTime x.hdr).clockState = a.clockState := by
  constructor
  · rw [delaySample, sampleOf, if_neg hlate]
    rfl
  · rw [recordLoad_clockState, if_neg hlate]

/-- The measurements are within one millisecond of each other, and of the
minimum so far. -/
structure Narrow (low : Int) (c : ClockState) (xs : List Arrival) : Prop where
  deltas : ∀ x ∈ xs, low ≤ x.delta ∧ x.delta ≤ low + 1
  min : c.haveClockDelta = true → low ≤ c.clockDeltaMin ∧ c.clockDeltaMin ≤ low + 1

theorem Narrow.minWith {low : Int} {c : ClockState} {x : Arrival} {xs : List Arrival}
    (h : Narrow low c (x :: xs)) : low ≤ c.minWith x.delta ∧ c.minWith x.delta ≤ x.delta ∧
      x.delta ≤ c.minWith x.delta + 1 := by
  have hx := h.deltas x List.mem_cons_self
  unfold ClockState.minWith
  split
  · rename_i hhave
    have hm := h.min hhave
    omega
  · omega

theorem Narrow.tail {low : Int} {c : ClockState} {x : Arrival} {xs : List Arrival}
    (h : Narrow low c (x :: xs)) (seq : UInt32) : Narrow low ⟨seq, true, c.minWith x.delta⟩ xs where
  deltas := fun y hy => h.deltas y (List.mem_cons_of_mem _ hy)
  min := by
    intro _
    have hm := h.minWith
    have hx := h.deltas x List.mem_cons_self
    exact ⟨hm.1, hm.2.1.trans hx.2⟩

/-- No measurement exceeds an earlier one. -/
def Falling (c : ClockState) (xs : List Arrival) : Prop :=
  (c.haveClockDelta = true → ∀ x ∈ xs, x.delta ≤ c.clockDeltaMin) ∧
    xs.Pairwise fun x y => y.delta ≤ x.delta

theorem falling_cons {c : ClockState} {x : Arrival} {xs : List Arrival} (seq : UInt32) :
    Falling c (x :: xs) ↔ x.delta ≤ c.minWith x.delta ∧
      Falling ⟨seq, true, c.minWith x.delta⟩ xs := by
  unfold Falling ClockState.minWith
  rw [List.pairwise_cons, List.forall_mem_cons]
  cases c.haveClockDelta with
  | false =>
      simp only [Bool.false_eq_true, false_imp_iff, true_and, if_false, le_refl, true_imp_iff]
  | true =>
      simp only [true_imp_iff, if_true, le_min_iff, le_refl, and_true]
      constructor
      · rintro ⟨⟨hx, hxs⟩, hfirst, hrest⟩
        exact ⟨hx, fun y hy => ⟨hxs y hy, hfirst y hy⟩, hrest⟩
      · rintro ⟨hx, hall, hrest⟩
        exact ⟨⟨hx, fun y hy => (hall y hy).1⟩, fun y hy => (hall y hy).2, hrest⟩

/-- For measurements within one millisecond, all samples are 0 exactly if no
measurement exceeds an earlier one. -/
theorem delaySamples_eq_zero_iff (low : Int) (es : List AcctEvent) :
    ∀ (a : RxAccounting) (c : ClockState), a.clockState = c → Narrow low c (advancing c.seq es) →
      ((∀ dv ∈ a.delaySamples es, dv = 0) ↔ Falling c (advancing c.seq es)) := by
  induction es with
  | nil =>
      intro a c _ _
      simp [delaySamples, advancing, Falling]
  | cons e es ih =>
      intro a c hc hnarrow
      cases e with
      | resetTrial => exact ih a.resetTrial c hc hnarrow
      | maybeRoll now subInt trialInt =>
          exact ih _ c ((maybeRoll_clockState now subInt trialInt).trans hc) hnarrow
      | load rxTime hdr =>
          by_cases hadv : c.seq + 1 ≤ hdr.seqNo
          · set x : Arrival := ⟨rxTime, hdr⟩
            obtain ⟨hsample, hnext⟩ := delaySample_advancing (x := x) hc hadv
            have hlist : advancing c.seq (.load rxTime hdr :: es) =
                x :: advancing hdr.seqNo es := if_pos hadv
            rw [hlist] at hnarrow ⊢
            obtain ⟨-, hle, hnear⟩ := hnarrow.minWith
            rw [delaySamples, hsample, Option.toList_some, List.singleton_append,
              List.forall_mem_cons, sample_eq_zero_iff hle hnear,
              ih _ _ hnext (hnarrow.tail hdr.seqNo), falling_cons hdr.seqNo]
          · have hlate : ¬ a.seq + 1 ≤ hdr.seqNo := by
              rw [show a.seq = c.seq from congrArg ClockState.seq hc]
              exact hadv
            obtain ⟨hnone, hsame⟩ := delaySample_late (x := ⟨rxTime, hdr⟩) hlate
            have hlist : advancing c.seq (.load rxTime hdr :: es) = advancing c.seq es :=
              if_neg hadv
            rw [hlist] at hnarrow ⊢
            rw [delaySamples, hnone, Option.toList_none, List.nil_append]
            exact ih _ c (hsame.trans hc) hnarrow

end RxAccounting

/-! ## Constant delays -/

/-- Every load PDU of the stream was sent exactly `d` before it was received. -/
def ConstantDelay (d : Duration) (es : List AcctEvent) : Prop :=
  ∀ rxTime hdr, .load rxTime hdr ∈ es → Stamps (rxTime - d) hdr.timeSec hdr.timeNsec

theorem mem_advancing {x : Arrival} {es : List AcctEvent} :
    ∀ {seq : UInt32}, x ∈ advancing seq es → .load x.rxTime x.hdr ∈ es := by
  induction es with
  | nil =>
      intro seq h
      cases h
  | cons e es ih =>
      intro seq h
      cases e with
      | resetTrial => exact List.mem_cons_of_mem _ (ih h)
      | maybeRoll now subInt trialInt => exact List.mem_cons_of_mem _ (ih h)
      | load rxTime hdr =>
          unfold advancing at h
          split at h
          · rcases List.mem_cons.mp h with rfl | hrest
            · exact List.mem_cons_self
            · exact List.mem_cons_of_mem _ (ih hrest)
          · exact List.mem_cons_of_mem _ (ih h)

/-- A datagram whose timestamp borrows a second does not follow one whose
timestamp does not. -/
def InPhase (xs : List Arrival) : Prop :=
  xs.Pairwise fun x y => Borrows y.rxTime y.hdr.timeNsec → Borrows x.rxTime x.hdr.timeNsec

instance (xs : List Arrival) : Decidable (InPhase xs) :=
  inferInstanceAs (Decidable (xs.Pairwise _))

/-- **The samples of a constant delay** are all 0 exactly if the delay is a
whole number of milliseconds or the datagrams that are sampled are in phase. -/
theorem constant_delay_samples {d : Int} (hnear : |d| < 2 ^ 30 * 1000000000) (start : Time)
    {es : List AcctEvent} (hconst : ConstantDelay d es) :
    (∀ dv ∈ (newRxAccounting start).delaySamples es, dv = 0) ↔
      1000000 ∣ d ∨ InPhase (advancing 0 es) := by
  have hstamp : ∀ x ∈ advancing 0 es,
      Stamps (x.rxTime - d) x.hdr.timeSec x.hdr.timeNsec :=
    fun x hx => hconst x.rxTime x.hdr (mem_advancing hx)
  have hexact : ∀ x : Arrival, (x.rxTime - (x.rxTime - d) : Int) = d :=
    fun x => sub_sub_cancel (x.rxTime : Int) d
  have hnarrow : RxAccounting.Narrow (d / 1000000) ⟨0, false, 0⟩ (advancing 0 es) := by
    refine ⟨fun x hx => ?_, fun h => nomatch h⟩
    rw [Arrival.delta, wallDiffMs_eq (hstamp x hx) (by rw [hexact]; exact hnear), hexact]
    rw [sub_right_comm, sub_self, zero_sub]
    split <;> omega
  rw [RxAccounting.delaySamples_eq_zero_iff (d / 1000000) es _ ⟨0, false, 0⟩ rfl hnarrow]
  have hpair : ∀ x ∈ advancing 0 es, ∀ y ∈ advancing 0 es, (y.delta ≤ x.delta ↔ 1000000 ∣ d ∨
      (Borrows y.rxTime y.hdr.timeNsec → Borrows x.rxTime x.hdr.timeNsec)) :=
    fun x hx y hy => wallDiffMs_le_iff (hstamp x hx) (hstamp y hy) (hexact x) (hexact y) hnear
  unfold RxAccounting.Falling InPhase
  simp only [Bool.false_eq_true, false_imp_iff, true_and]
  rw [List.Pairwise.iff_of_mem fun hx hy => hpair _ hx _ hy]
  by_cases hd : 1000000 ∣ d
  · simp only [hd, true_or, iff_true]
    exact List.pairwise_of_forall fun _ _ => trivial
  · simp only [hd, false_or]

/-- **Delay arithmetic depends on the phase of the clock.** Two measurements
of one exact difference agree exactly if the difference is a whole number of
milliseconds or both borrow or neither does; and the samples of a constant
delay are all 0 exactly if it is a whole number of milliseconds or the
datagrams that are sampled are in phase. -/
theorem delay_depends_on_phase (t t' w w' : Int) (sec nsec sec' nsec' : UInt32) (d : Int)
    (start : Time) (es : List AcctEvent) :
    (Stamps w sec nsec → Stamps w' sec' nsec' → t - w = t' - w' → |t - w| < 2 ^ 30 * second →
        (wallDiffMs t sec nsec = wallDiffMs t' sec' nsec' ↔
          millisecond ∣ t - w ∨ (Borrows t nsec ↔ Borrows t' nsec'))) ∧
      (|d| < 2 ^ 30 * second → ConstantDelay d es →
        ((∀ dv ∈ (newRxAccounting start).delaySamples es, dv = 0) ↔
          millisecond ∣ d ∨ InPhase (advancing 0 es))) := by
  constructor
  · intro h h' hsame hnear
    rw [le_antisymm_iff, wallDiffMs_le_iff h' h hsame.symm rfl hnear,
      wallDiffMs_le_iff h h' rfl hsame.symm hnear, ← or_and_left, ← iff_def]
  · intro hnear hconst
    exact constant_delay_samples hnear start hconst

/-- A load PDU sent at `sent` and received `d` later. -/
def loadSent (d sent : Int) (seqNo : UInt32) : AcctEvent :=
  .load (sent + d)
    { seqNo := seqNo
      timeSec := UInt32.ofInt (Time.unix sent)
      timeNsec := UInt32.ofInt (Time.nanosecond sent) }

theorem loadSent_constantDelay (d : Int) (sends : List (Int × UInt32)) :
    ConstantDelay d (sends.map fun x => loadSent d x.1 x.2) := by
  intro rxTime hdr hmem
  obtain ⟨⟨sent, seqNo⟩, -, heq⟩ := List.mem_map.mp hmem
  cases heq
  have hword := toNat_uint32_ofInt (Time.nanosecond sent)
  show Stamps (sent + d - d) (UInt32.ofInt (Time.unix sent)) (UInt32.ofInt (Time.nanosecond sent))
  rw [add_sub_cancel_right]
  refine ⟨rfl, ?_⟩
  unfold Time.nanosecond at *
  omega

/-- Two datagrams with a delay of 1.5 ms, a millisecond apart. -/
theorem delay_depends_on_phase_steady :
    wallDiffMs 1500000 0 0 = wallDiffMs 2500000 0 1000000 ∧
      ∀ dv ∈ (newRxAccounting 0).delaySamples [loadSent 1500000 0 1, loadSent 1500000 1000000 2],
        dv = 0 := by
  obtain ⟨hpair, hstream⟩ := delay_depends_on_phase 1500000 2500000 0 1000000 0 0 0 1000000
    1500000 0 [loadSent 1500000 0 1, loadSent 1500000 1000000 2]
  exact ⟨(hpair ⟨rfl, by decide⟩ ⟨rfl, by decide⟩ rfl (by decide)).mpr (.inr (by decide)),
    (hstream (by decide) (loadSent_constantDelay _ [(0, 1), (1000000, 2)])).mpr
      (.inr (by decide))⟩

/-- The same delay of 1.5 ms, but the second datagram crosses the full
second: a variation of one millisecond is recorded. -/
theorem steady_delay_varies :
    ConstantDelay 1500000 [loadSent 1500000 0 1, loadSent 1500000 999999000 2] ∧
      (newRxAccounting 0).delaySamples
        [loadSent 1500000 0 1, loadSent 1500000 999999000 2] = [0, 1] :=
  ⟨loadSent_constantDelay 1500000 [(0, 1), (999999000, 2)], by decide⟩

end Diagd.Udpst
