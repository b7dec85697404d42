import Diagd.Udpst.Accounting

/-!
# The samples `recordLoad` takes

A load PDU that advances the stream gives one `Sample`: its delay variation
against the running minimum, and a round-trip variation if it echoes a status
message not seen before. `recordLoad` enters it into the figures of the trial
and of the sub-interval (`recordLoad_takes`) and moves the state that decides
on the next one (`recordLoad_clockState`); any other load PDU does neither.
-/

namespace Diagd.Udpst

open GoStd

/-! ## The running minimum -/

namespace RxAccounting

/-- The part of a receiver that decides on samples. -/
structure ClockState where
  seq : UInt32
  haveClockDelta : Bool
  clockDeltaMin : Int

def clockState (a : RxAccounting) : ClockState := ⟨a.seq, a.haveClockDelta, a.clockDeltaMin⟩

/-- The minimum after a measurement, from the state before it. -/
def ClockState.minWith (c : ClockState) (delta : Int) : Int :=
  if c.haveClockDelta = true then min c.clockDeltaMin delta else delta

theorem recordClockDelta_min (a : RxAccounting) (delta : Int) :
    (a.recordClockDelta delta).clockDeltaMin = a.clockState.minWith delta := by
  unfold recordClockDelta ClockState.minWith clockState
  cases hhave : a.haveClockDelta with
  | false => simp
  | true =>
      by_cases hlt : delta < a.clockDeltaMin
      · simp [hlt, min_eq_right hlt.le]
      · simp [hlt, min_eq_left (Int.not_lt.mp hlt)]

theorem recordClockDelta_clockState (a : RxAccounting) (delta : Int) :
    (a.recordClockDelta delta).clockState = ⟨a.seq, true, a.clockState.minWith delta⟩ := by
  rw [← recordClockDelta_min]
  unfold recordClockDelta
  split
  · rfl
  · rename_i hkeep
    have hhave : a.haveClockDelta = true := by
      by_contra hno
      simp [hno] at hkeep
    rw [clockState, hhave]

theorem recordRtt_clockState (a : RxAccounting) (rxTime : Time) (hdr : LoadPDU) :
    (a.recordRtt rxTime hdr).clockState = a.clockState := by
  unfold recordRtt
  split <;> rfl

theorem recordLoad_clockState (a : RxAccounting) (rxTime : Time) (hdr : LoadPDU) :
    (a.recordLoad rxTime hdr).clockState = if a.seq + 1 ≤ hdr.seqNo
      then ⟨hdr.seqNo, true, a.clockState.minWith (wallDiffMs rxTime hdr.timeSec hdr.timeNsec)⟩
      else a.clockState := by
  unfold recordLoad recordSeq
  by_cases hadv : a.seq + 1 ≤ hdr.seqNo
  · rw [if_pos hadv, if_pos (show (a.countLoad hdr).seq + 1 ≤ hdr.seqNo from hadv)]
    refine (recordRtt_clockState _ rxTime hdr).trans ?_
    exact recordClockDelta_clockState ((a.countLoad hdr).advanceSeq hdr.seqNo) _
  · rw [if_neg hadv, if_neg (show ¬ (a.countLoad hdr).seq + 1 ≤ hdr.seqNo from hadv)]
    split_ifs <;> rfl

theorem maybeRoll_clockState {a : RxAccounting} (now : Time) (subInt trialInt : Duration) :
    (a.maybeRoll now subInt trialInt).clockState = a.clockState := by
  unfold maybeRoll
  split <;> rfl

end RxAccounting

/-! ## Samples -/

structure Sample where
  dv : UInt32
  rtt : Option UInt32
  deriving DecidableEq, Repr

/-- The round-trip variation, if the load PDU echoes a new status message. -/
def RxAccounting.rttSample (a : RxAccounting) (rxTime : Time) (hdr : LoadPDU) : Option UInt32 :=
  let r := RxAccounting.rttOf rxTime hdr
  if a.freshEcho hdr then some (r - RxAccounting.minDelay a.rttMin r) else none

/-- The sample of a datagram that advances the stream. -/
def RxAccounting.nextSample (a : RxAccounting) (rxTime : Time) (hdr : LoadPDU) : Sample :=
  let delta := wallDiffMs rxTime hdr.timeSec hdr.timeNsec
  { dv := UInt32.ofInt (delta - (a.recordClockDelta delta).clockDeltaMin)
    rtt := a.rttSample rxTime hdr }

/-- The sample a load PDU gives, if any. -/
def RxAccounting.sampleOf (a : RxAccounting) (rxTime : Time) (hdr : LoadPDU) : Option Sample :=
  if a.seq + 1 ≤ hdr.seqNo then some (a.nextSample rxTime hdr) else none

/-- The figures of the delay variation, in either set of counters. -/
structure DelayFigures where
  lo : UInt32
  hi : UInt32
  sum : UInt32
  cnt : UInt32
  deriving DecidableEq, Repr

def TrialCounters.dv (c : TrialCounters) : DelayFigures :=
  ⟨c.tDvMin, c.tDvMax, c.tDvSum, c.tDvCnt⟩

def SubIntStats.dv (s : SubIntStats) : DelayFigures :=
  ⟨s.delayVarMin, s.delayVarMax, s.delayVarSum, s.delayVarCnt⟩

def DelayFigures.add (g : DelayFigures) (dv : UInt32) : DelayFigures :=
  ⟨RxAccounting.minDelay g.lo dv, RxAccounting.maxDelay g.hi dv, g.sum + dv, g.cnt + 1⟩

/-- The least and the greatest round-trip variation of a sub-interval. -/
def SubIntStats.rtt (s : SubIntStats) : UInt32 × UInt32 := (s.rttVarMin, s.rttVarMax)

def addRtt (g : UInt32 × UInt32) : Option UInt32 → UInt32 × UInt32
  | none => g
  | some v => (RxAccounting.minDelay g.1 v, RxAccounting.maxDelay g.2 v)

/-- What a load PDU does to the figures. -/
structure Takes (a a' : RxAccounting) (smp : Option Sample) : Prop where
  trial : a'.toTrialCounters.dv =
    smp.elim a.toTrialCounters.dv fun x => a.toTrialCounters.dv.add x.dv
  sub : a'.sub.dv = smp.elim a.sub.dv fun x => a.sub.dv.add x.dv
  rtt : a'.sub.rtt = addRtt a.sub.rtt (smp.bind Sample.rtt)
  last : a'.rttVarSample = (smp.bind Sample.rtt).getD a.rttVarSample

theorem recordClockDelta_frame (a : RxAccounting) (delta : Int) :
    (a.recordClockDelta delta).toTrialCounters = a.toTrialCounters ∧
      (a.recordClockDelta delta).sub = a.sub ∧
      (a.recordClockDelta delta).rttVarSample = a.rttVarSample ∧
      ∀ rxTime hdr, (a.recordClockDelta delta).rttSample rxTime hdr = a.rttSample rxTime hdr := by
  unfold RxAccounting.recordClockDelta
  split <;> exact ⟨rfl, rfl, rfl, fun _ _ => rfl⟩

theorem recordRtt_takes (a : RxAccounting) (rxTime : Time) (hdr : LoadPDU) :
    (a.recordRtt rxTime hdr).toTrialCounters = a.toTrialCounters ∧
      (a.recordRtt rxTime hdr).sub.dv = a.sub.dv ∧
      (a.recordRtt rxTime hdr).sub.rtt = addRtt a.sub.rtt (a.rttSample rxTime hdr) ∧
      (a.recordRtt rxTime hdr).rttVarSample = (a.rttSample rxTime hdr).getD a.rttVarSample := by
  unfold RxAccounting.recordRtt RxAccounting.rttSample
  split <;> exact ⟨rfl, rfl, rfl, rfl⟩

theorem recordDelays_takes (a : RxAccounting) (rxTime : Time) (hdr : LoadPDU) :
    Takes a (a.recordDelays rxTime hdr) (some (a.nextSample rxTime hdr)) := by
  obtain ⟨htrial, hsub, hlast, hrtt⟩ :=
    recordClockDelta_frame a (wallDiffMs rxTime hdr.timeSec hdr.timeNsec)
  have hdelays : a.recordDelays rxTime hdr =
      ((a.recordClockDelta (wallDiffMs rxTime hdr.timeSec hdr.timeNsec)).recordDelayVar
        (a.nextSample rxTime hdr).dv).recordRtt rxTime hdr := rfl
  have hsample : (a.nextSample rxTime hdr).rtt = a.rttSample rxTime hdr := rfl
  rw [hdelays]
  generalize a.nextSample rxTime hdr = x at *
  generalize a.recordClockDelta (wallDiffMs rxTime hdr.timeSec hdr.timeNsec) = b at *
  obtain ⟨htrial', hsub', hrtt', hlast'⟩ := recordRtt_takes (b.recordDelayVar x.dv) rxTime hdr
  have hsame : (b.recordDelayVar x.dv).rttSample rxTime hdr = x.rtt :=
    (hrtt rxTime hdr).trans hsample.symm
  rw [hsame] at hrtt' hlast'
  refine ⟨?_, ?_, ?_, ?_⟩
  · rw [htrial', ← htrial]
    rfl
  · rw [hsub', ← hsub]
    rfl
  · rw [hrtt', ← hsub]
    rfl
  · rw [hlast', ← hlast]
    rfl

theorem nextSample_advance (a : RxAccounting) (rxTime : Time) (hdr : LoadPDU) :
    ((a.countLoad hdr).advanceSeq hdr.seqNo).nextSample rxTime hdr = a.nextSample rxTime hdr := by
  simp only [RxAccounting.nextSample, RxAccounting.recordClockDelta_min]
  rfl

theorem recordLoad_takes (a : RxAccounting) (rxTime : Time) (hdr : LoadPDU) :
    Takes a (a.recordLoad rxTime hdr) (a.sampleOf rxTime hdr) := by
  unfold RxAccounting.recordLoad RxAccounting.recordSeq RxAccounting.sampleOf
  by_cases hadv : a.seq + 1 ≤ hdr.seqNo
  · rw [if_pos hadv, if_pos (show (a.countLoad hdr).seq + 1 ≤ hdr.seqNo from hadv),
      ← nextSample_advance]
    have h := recordDelays_takes ((a.countLoad hdr).advanceSeq hdr.seqNo) rxTime hdr
    exact ⟨h.trial, h.sub, h.rtt, h.last⟩
  · rw [if_neg hadv, if_neg (show ¬ (a.countLoad hdr).seq + 1 ≤ hdr.seqNo from hadv)]
    split_ifs <;> exact ⟨rfl, rfl, rfl, rfl⟩

end Diagd.Udpst
