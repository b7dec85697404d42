import Diagd.Lib.Account
import Diagd.Udpst.Accounting

/-!
# Trials and sub-intervals count the same datagrams

`recordLoad` adds to the counters of the trial and to those of the
sub-interval, `resetTrial` clears the first, `maybeRoll` the second. Both
sets are seen as one vector of five counters (`volume`), so that one load
PDU is one vector added on both sides (`recordLoad_volume`), and what has
been closed on either schedule adds up to the same vector.

All sums are those of the 32-bit counters, modulo 2^32; the sub-interval's
64-bit byte count is taken modulo 2^32 as well.
-/

namespace Diagd.Udpst

open GoStd Account

/-! ## Runs -/

/-- A call on the accounting. -/
inductive AcctCall where
  | recordLoad (rxTime : Time) (hdr : LoadPDU)
  | maybeRoll (now : Time) (subInt trialInt : Duration)
  | buildStatus (now lastStatus wall : Time)
  | resetTrial

def AcctCall.isLoad : AcctCall → Bool
  | .recordLoad _ _ => true
  | .maybeRoll _ _ _ | .buildStatus _ _ _ | .resetTrial => false

/-- The accounting, with everything it has closed and reported so far: the
trials that were reset, the sub-intervals that were saved with the time of
their roll, and the status messages. -/
structure Books where
  acct : RxAccounting
  trials : List TrialCounters := []
  rolls : List (Time × SubIntStats) := []
  statuses : List StatusPDU := []

namespace Books

def call (b : Books) : AcctCall → Books
  | .recordLoad rxTime hdr => { b with acct := b.acct.recordLoad rxTime hdr }
  | .maybeRoll now subInt trialInt =>
      let acct := b.acct.maybeRoll now subInt trialInt
      if b.acct.rolls now subInt trialInt then
        { b with acct := acct, rolls := b.rolls ++ [(now, acct.saved)] }
      else { b with acct := acct }
  | .buildStatus now lastStatus wall =>
      { b with statuses := b.statuses ++ [b.acct.buildStatus now lastStatus wall] }
  | .resetTrial =>
      { b with acct := b.acct.resetTrial, trials := b.trials ++ [b.acct.toTrialCounters] }

def run (b : Books) (calls : List AcctCall) : Books := calls.foldl call b

/-- The trials with the active one. -/
def allTrials (b : Books) : List TrialCounters := b.trials ++ [b.acct.toTrialCounters]

/-- The sub-intervals with the active one. -/
def allSubs (b : Books) : List SubIntStats := b.rolls.map Prod.snd ++ [b.acct.sub]

end Books

/-- A whole test. -/
def bookTest (start : Time) (calls : List AcctCall) : Books :=
  Books.run { acct := newRxAccounting start } calls

/-- The times from `start` to the first of `ts`, and from each to the next,
in whole microseconds. -/
def gaps (start : Time) : List Time → List UInt32
  | [] => []
  | t :: ts => UInt32.ofInt (Duration.microseconds (t - start)) :: gaps t ts

theorem gaps_snoc (start t : Time) (ts : List Time) :
    gaps start (ts ++ [t])
      = gaps start ts ++ [UInt32.ofInt (Duration.microseconds (t - ts.getLastD start))] := by
  induction ts generalizing start with
  | nil => rfl
  | cons u ts ih =>
      rw [List.cons_append, gaps, gaps, ih u, List.getLastD_cons]
      rfl

/-! ## Counters as vectors -/

/-- How a datagram is classified: it advances the stream and gives a delay
sample, or comes late, or comes again. -/
inductive LoadClass where
  | sampled
  | late
  | repeated
  deriving DecidableEq, Repr

/-- The counters that both sets have. -/
inductive Counter where
  | datagrams
  | bytes
  | ofClass (k : LoadClass)

abbrev Volume := Counter → UInt32

def TrialCounters.volume (c : TrialCounters) : Volume
  | .datagrams => c.tRxDatagrams
  | .bytes => c.tRxBytes
  | .ofClass .sampled => c.tDvCnt
  | .ofClass .late => c.tOoo
  | .ofClass .repeated => c.tDup

def SubIntStats.volume (s : SubIntStats) : Volume
  | .datagrams => s.rxDatagrams
  | .bytes => s.rxBytes.toUInt32
  | .ofClass .sampled => s.delayVarCnt
  | .ofClass .late => s.seqErrOoo
  | .ofClass .repeated => s.seqErrDup

/-- The volume of one load PDU. -/
def LoadPDU.volume (hdr : LoadPDU) : Volume
  | .datagrams => 1
  | .bytes => hdr.udpPayload.toUInt32
  | .ofClass _ => 0

/-- One datagram in the counter of its class. -/
def LoadClass.volume (k : LoadClass) : Volume
  | .datagrams => 0
  | .bytes => 0
  | .ofClass k' => if k' = k then 1 else 0

/-- Every datagram is of exactly one class. -/
def Volume.Classified (v : Volume) : Prop :=
  v .datagrams = v (.ofClass .sampled) + v (.ofClass .late) + v (.ofClass .repeated)

theorem Volume.Classified.add_load {v : Volume} (h : v.Classified) (hdr : LoadPDU)
    (k : LoadClass) : Volume.Classified (v + (hdr.volume + k.volume)) := by
  simp only [Volume.Classified, Pi.add_apply, LoadPDU.volume, LoadClass.volume, zero_add] at h ⊢
  rw [h]
  cases k <;> simp <;> abel

/-! ## One call -/

namespace RxAccounting

variable {a : RxAccounting}

/-- The counters of both sets grow by `v`; the bookkeeping of the rolls
stays. -/
structure Gains (a a' : RxAccounting) (v : Volume) : Prop where
  trial : a'.toTrialCounters.volume = a.toTrialCounters.volume + v
  sub : a'.sub.volume = a.sub.volume + v
  subStart : a'.subStart = a.subStart
  subIntSeq : a'.subIntSeq = a.subIntSeq

theorem Gains.trans {a₁ a₂ : RxAccounting} {v w : Volume} (h : Gains a a₁ v)
    (h' : Gains a₁ a₂ w) : Gains a a₂ (v + w) :=
  ⟨by rw [h'.trial, h.trial, add_assoc], by rw [h'.sub, h.sub, add_assoc],
    h'.subStart.trans h.subStart, h'.subIntSeq.trans h.subIntSeq⟩

theorem Gains.same {a' : RxAccounting} (ht : a'.toTrialCounters.volume = a.toTrialCounters.volume)
    (hs : a'.sub.volume = a.sub.volume) (hstart : a'.subStart = a.subStart)
    (hseq : a'.subIntSeq = a.subIntSeq) : Gains a a' 0 :=
  ⟨by rw [ht, add_zero], by rw [hs, add_zero], hstart, hseq⟩

/-- The round-trip sample counts nothing. -/
theorem recordRtt_gains (rxTime : Time) (hdr : LoadPDU) : Gains a (a.recordRtt rxTime hdr) 0 := by
  unfold recordRtt
  split
  · exact .same rfl rfl rfl rfl
  · exact .same rfl rfl rfl rfl

theorem recordClockDelta_gains (delta : Int) : Gains a (a.recordClockDelta delta) 0 := by
  unfold recordClockDelta
  split
  · exact .same rfl rfl rfl rfl
  · exact .same rfl rfl rfl rfl

theorem recordDelayVar_gains (dv : UInt32) :
    Gains a (a.recordDelayVar dv) LoadClass.sampled.volume := by
  refine ⟨funext fun c => ?_, funext fun c => ?_, rfl, rfl⟩
  · rcases c with _ | _ | (_ | _ | _) <;> first | rfl | exact (add_zero _).symm
  · rcases c with _ | _ | (_ | _ | _) <;> first | rfl | exact (add_zero _).symm

theorem countDup_gains : Gains a a.countDup LoadClass.repeated.volume := by
  refine ⟨funext fun c => ?_, funext fun c => ?_, rfl, rfl⟩
  · rcases c with _ | _ | (_ | _ | _) <;> first | rfl | exact (add_zero _).symm
  · rcases c with _ | _ | (_ | _ | _) <;> first | rfl | exact (add_zero _).symm

theorem countOoo_gains (seq : UInt32) : Gains a (a.countOoo seq) LoadClass.late.volume := by
  refine ⟨funext fun c => ?_, funext fun c => ?_, rfl, rfl⟩
  · rcases c with _ | _ | (_ | _ | _) <;> first | rfl | exact (add_zero _).symm
  · rcases c with _ | _ | (_ | _ | _) <;> first | rfl | exact (add_zero _).symm

theorem advanceSeq_gains (seq : UInt32) : Gains a (a.advanceSeq seq) 0 :=
  .same rfl rfl rfl rfl

theorem countLoad_gains (hdr : LoadPDU) : Gains a (a.countLoad hdr) hdr.volume := by
  refine ⟨funext fun c => ?_, funext fun c => ?_, rfl, rfl⟩
  · rcases c with _ | _ | (_ | _ | _) <;> first | rfl | exact (add_zero _).symm
  · rcases c with _ | _ | (_ | _ | _)
    · rfl
    · show (a.sub.rxBytes + hdr.udpPayload.toUInt64).toUInt32 = _
      simp [SubIntStats.volume, LoadPDU.volume]
    all_goals exact (add_zero _).symm

theorem recordDelays_gains (rxTime : Time) (hdr : LoadPDU) :
    Gains a (a.recordDelays rxTime hdr) LoadClass.sampled.volume := by
  have h : Gains a (a.recordDelays rxTime hdr) (0 + LoadClass.sampled.volume + 0) :=
    ((recordClockDelta_gains _).trans (recordDelayVar_gains _)).trans (recordRtt_gains rxTime hdr)
  rwa [zero_add, add_zero] at h

/-- **One load PDU is one vector, added to both sets.** -/
theorem recordLoad_gains (a : RxAccounting) (rxTime : Time) (hdr : LoadPDU) :
    ∃ k : LoadClass, Gains a (a.recordLoad rxTime hdr) (hdr.volume + k.volume) := by
  have hcount := countLoad_gains (a := a) hdr
  unfold recordLoad recordSeq
  split_ifs with hadv hdup
  · refine ⟨.sampled, hcount.trans ?_⟩
    have h := (advanceSeq_gains (a := a.countLoad hdr) hdr.seqNo).trans
      (recordDelays_gains rxTime hdr)
    rwa [zero_add] at h
  · exact ⟨.repeated, hcount.trans countDup_gains⟩
  · exact ⟨.late, hcount.trans (countOoo_gains hdr.seqNo)⟩

end RxAccounting

/-! ## The invariant -/

/-- Nothing is lost or counted twice, after `loads` load PDUs. -/
structure Books.Conserved (start : Time) (loads : Nat) (b : Books) : Prop where
  same : total SubIntStats.volume b.allSubs = total TrialCounters.volume b.allTrials
  counted : total TrialCounters.volume b.allTrials .datagrams = UInt32.ofNat loads
  trials : ∀ c ∈ b.allTrials, c.volume.Classified
  subs : ∀ s ∈ b.allSubs, s.volume.Classified
  tiled : b.rolls.map (fun r => r.2.deltaTime) = gaps start (b.rolls.map Prod.fst)
  since : b.acct.subStart = (b.rolls.map Prod.fst).getLastD start
  seq : b.acct.subIntSeq = UInt32.ofNat b.rolls.length

namespace Books

variable {start : Time} {loads : Nat} {b : Books}

theorem conserved_new (start : Time) : Conserved start 0 { acct := newRxAccounting start } where
  same := by
    funext c
    rcases c with _ | _ | (_ | _ | _) <;> rfl
  counted := rfl
  trials := by
    intro c hc
    rw [List.mem_singleton.mp hc]
    rfl
  subs := by
    intro s hs
    rw [List.mem_singleton.mp hs]
    rfl
  tiled := rfl
  since := rfl
  seq := rfl

theorem Conserved.recordLoad (h : Conserved start loads b) (rxTime : Time) (hdr : LoadPDU) :
    Conserved start (loads + 1) (b.call (.recordLoad rxTime hdr)) := by
  obtain ⟨k, hgain⟩ := b.acct.recordLoad_gains rxTime hdr
  have htotal : total TrialCounters.volume (b.call (.recordLoad rxTime hdr)).allTrials
      = total TrialCounters.volume b.allTrials + (hdr.volume + k.volume) := by
    simp only [allTrials, call, total_append, total_singleton, hgain.trial, add_assoc]
  have htotal' : total SubIntStats.volume (b.call (.recordLoad rxTime hdr)).allSubs
      = total SubIntStats.volume b.allSubs + (hdr.volume + k.volume) := by
    simp only [allSubs, call, total_append, total_singleton, hgain.sub, add_assoc]
  refine ⟨by rw [htotal, htotal', h.same], ?_, ?_, ?_, h.tiled, hgain.subStart.trans h.since,
    hgain.subIntSeq.trans h.seq⟩
  · rw [htotal, Pi.add_apply, h.counted, UInt32.ofNat_add]
    rfl
  · intro c hc
    rcases List.mem_append.mp hc with hold | hnew
    · exact h.trials c (List.mem_append_left _ hold)
    · rw [List.mem_singleton.mp hnew]
      show Volume.Classified (b.acct.recordLoad rxTime hdr).toTrialCounters.volume
      rw [hgain.trial]
      exact (h.trials _ (by simp [allTrials])).add_load hdr k
  · intro s hs
    rcases List.mem_append.mp hs with hold | hnew
    · exact h.subs s (List.mem_append_left _ hold)
    · rw [List.mem_singleton.mp hnew]
      show Volume.Classified (b.acct.recordLoad rxTime hdr).sub.volume
      rw [hgain.sub]
      exact (h.subs _ (by simp [allSubs])).add_load hdr k

theorem Conserved.maybeRoll (h : Conserved start loads b) (now : Time)
    (subInt trialInt : Duration) :
    Conserved start loads (b.call (.maybeRoll now subInt trialInt)) := by
  by_cases hroll : b.acct.rolls now subInt trialInt = true
  · have hcall : b.call (.maybeRoll now subInt trialInt) = { b with
        acct := b.acct.maybeRoll now subInt trialInt
        rolls := b.rolls ++ [(now, b.acct.closeSub now)] } := by
      simp only [call, RxAccounting.maybeRoll, if_pos hroll]
    have hacct : b.acct.maybeRoll now subInt trialInt = _ := if_pos hroll
    have hclosed : (b.acct.closeSub now).volume = b.acct.sub.volume := rfl
    have hfresh : SubIntStats.fresh.volume = 0 := by
      funext c
      rcases c with _ | _ | (_ | _ | _) <;> rfl
    rw [hcall, hacct]
    refine ⟨?_, h.counted, h.trials, ?_, ?_, ?_, ?_⟩
    · have hsubs : total SubIntStats.volume
          (b.rolls.map Prod.snd ++ [b.acct.closeSub now] ++ [SubIntStats.fresh])
          = total SubIntStats.volume b.allSubs := by
        simp only [allSubs, total_append, total_singleton, hclosed, hfresh, add_zero]
      simp only [allSubs, List.map_append, List.map_singleton]
      exact hsubs.trans h.same
    · intro s hs
      simp only [allSubs, List.map_append, List.map_singleton, List.append_assoc,
        List.mem_append, List.mem_singleton] at hs
      rcases hs with hold | rfl | rfl
      · exact h.subs s (List.mem_append_left _ hold)
      · rw [hclosed]
        exact h.subs _ (by simp [allSubs])
      · rw [hfresh]
        rfl
    · simp only [List.map_append, List.map_singleton, gaps_snoc, h.tiled, ← h.since]
      rfl
    · simp
    · show b.acct.subIntSeq + 1 = UInt32.ofNat (b.rolls ++ [_]).length
      rw [List.length_append, UInt32.ofNat_add, h.seq]
      rfl
  · have hsame : b.call (.maybeRoll now subInt trialInt) = b := by
      simp only [call, RxAccounting.maybeRoll, if_neg hroll]
    rwa [hsame]

theorem Conserved.resetTrial (h : Conserved start loads b) :
    Conserved start loads (b.call .resetTrial) := by
  have hfresh : ({} : TrialCounters).volume = 0 := by
    funext c
    rcases c with _ | _ | (_ | _ | _) <;> rfl
  have htotal : total TrialCounters.volume (b.call .resetTrial).allTrials
      = total TrialCounters.volume b.allTrials := by
    show total _ (b.allTrials ++ [({} : TrialCounters)]) = _
    rw [total_append, total_singleton, hfresh, add_zero]
  refine ⟨htotal.symm ▸ h.same, by rw [htotal]; exact h.counted, ?_, h.subs, h.tiled, h.since,
    h.seq⟩
  intro c hc
  rcases List.mem_append.mp hc with hold | hnew
  · exact h.trials c hold
  · rw [List.mem_singleton.mp hnew]
    rfl

theorem Conserved.call (h : Conserved start loads b) (c : AcctCall) :
    Conserved start (loads + if c.isLoad then 1 else 0) (b.call c) := by
  cases c with
  | recordLoad rxTime hdr => exact h.recordLoad rxTime hdr
  | maybeRoll now subInt trialInt => exact h.maybeRoll now subInt trialInt
  | buildStatus now lastStatus wall =>
      exact ⟨h.same, h.counted, h.trials, h.subs, h.tiled, h.since, h.seq⟩
  | resetTrial => exact h.resetTrial

theorem Conserved.run (h : Conserved start loads b) (calls : List AcctCall) :
    Conserved start (loads + calls.countP AcctCall.isLoad) (b.run calls) := by
  induction calls generalizing loads b with
  | nil => exact h
  | cons c calls ih =>
      have hrest := ih (h.call c)
      rw [List.countP_cons, Nat.add_comm (calls.countP _), ← Nat.add_assoc]
      exact hrest

end Books

/-- **Nothing is lost or counted twice between trials and sub-intervals.**
For every sequence of calls: both schedules add up to the same totals, and to
the number of load PDUs; each trial and each sub-interval counts every
datagram in one class; and the sub-intervals tile the time from the start of
the test to the last roll. -/
theorem accounts_conserved (start : Time) (calls : List AcctCall) :
    let b := bookTest start calls
    (total (fun s => s.rxDatagrams) b.allSubs = total (fun c => c.tRxDatagrams) b.allTrials ∧
      total (fun s => s.rxDatagrams) b.allSubs
        = UInt32.ofNat (calls.countP AcctCall.isLoad) ∧
      total (fun s => s.rxBytes.toUInt32) b.allSubs = total (fun c => c.tRxBytes) b.allTrials ∧
      total (fun s => s.seqErrOoo) b.allSubs = total (fun c => c.tOoo) b.allTrials ∧
      total (fun s => s.seqErrDup) b.allSubs = total (fun c => c.tDup) b.allTrials ∧
      total (fun s => s.delayVarCnt) b.allSubs = total (fun c => c.tDvCnt) b.allTrials) ∧
    ((∀ c ∈ b.allTrials, c.tRxDatagrams = c.tDvCnt + c.tOoo + c.tDup) ∧
      ∀ s ∈ b.allSubs, s.rxDatagrams = s.delayVarCnt + s.seqErrOoo + s.seqErrDup) ∧
    b.rolls.map (fun r => r.2.deltaTime) = gaps start (b.rolls.map Prod.fst) ∧
    b.acct.subIntSeq = UInt32.ofNat b.rolls.length := by
  intro b
  have h : b.Conserved start (0 + calls.countP AcctCall.isLoad) :=
    (Books.conserved_new start).run calls
  have hsame : ∀ c, total (fun s => s.volume c) b.allSubs = total (fun t => t.volume c) b.allTrials
      := by
    intro c
    rw [← total_apply, ← total_apply, h.same]
  have hcount : total (fun s => s.rxDatagrams) b.allSubs
      = UInt32.ofNat (calls.countP AcctCall.isLoad) := by
    have hdatagrams := h.counted
    rw [← h.same, total_apply, Nat.zero_add] at hdatagrams
    exact hdatagrams
  exact ⟨⟨hsame .datagrams, hcount, hsame .bytes, hsame (.ofClass .late),
    hsame (.ofClass .repeated), hsame (.ofClass .sampled)⟩, ⟨h.trials, h.subs⟩, h.tiled, h.seq⟩

end Diagd.Udpst
