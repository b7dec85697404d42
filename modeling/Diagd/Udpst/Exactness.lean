import Diagd.Lib.Arrivals
import Diagd.Udpst.Accounting

/-!
# Loss, reordering and duplicates are counted exactly

The 32-bit counters of `RxAccounting` are compared with the unbounded
tallies of `Arrivals`. The invariant `Follows` relates a receiver to the
numbers it has been given so far: the high-water mark is their maximum, the
ring holds the last 32 DISTINCT ones, and both sets of counters are bounded
by the stream. From it, one load PDU is one `Tally.record` on the trial and
on the sub-interval counters alike (`recordLoad_step`), so that the trials
and the sub-intervals of a run are two `closings` of one stream, on two
schedules.
-/

namespace Diagd.Udpst

open GoStd Arrivals
open Account (total)

/-! ## Runs -/

/-- What an upstream test does to its accounting. -/
inductive AcctEvent where
  | load (rxTime : Time) (hdr : LoadPDU)
  | resetTrial
  | maybeRoll (now : Time) (subInt trialInt : Duration)
  deriving DecidableEq, Repr

def RxAccounting.exec (a : RxAccounting) : AcctEvent → RxAccounting
  | .load rxTime hdr => a.recordLoad rxTime hdr
  | .resetTrial => a.resetTrial
  | .maybeRoll now subInt trialInt => a.maybeRoll now subInt trialInt

/-- The sequence numbers recorded. -/
def seqNos : List AcctEvent → List Nat
  | [] => []
  | .load _ hdr :: es => hdr.seqNo.toNat :: seqNos es
  | .resetTrial :: es => seqNos es
  | .maybeRoll _ _ _ :: es => seqNos es

/-- The trial counters as each trial ends, and those of the unfinished one. -/
def trials (a : RxAccounting) : List AcctEvent → List TrialCounters
  | [] => [a.toTrialCounters]
  | .resetTrial :: es => a.toTrialCounters :: trials a.resetTrial es
  | e :: es => trials (a.exec e) es

/-- The sub-intervals as they are saved, and the unfinished one. -/
def subIntervals (a : RxAccounting) : List AcctEvent → List SubIntStats
  | [] => [a.sub]
  | .maybeRoll now subInt trialInt :: es =>
      let a' := a.maybeRoll now subInt trialInt
      if a.rolls now subInt trialInt then a'.saved :: subIntervals a' es
      else subIntervals a' es
  | e :: es => subIntervals (a.exec e) es

/-- No `maybeRoll` of the run closes a sub-interval. -/
def NeverRolls (a : RxAccounting) : List AcctEvent → Prop
  | [] => True
  | .maybeRoll now subInt trialInt :: es =>
      a.rolls now subInt trialInt = false ∧ NeverRolls (a.maybeRoll now subInt trialInt) es
  | e :: es => NeverRolls (a.exec e) es

/-! ## Tallies of the counters -/

def TrialCounters.tally (c : TrialCounters) : Tally := ⟨c.tLoss.toNat, c.tOoo.toNat, c.tDup.toNat⟩

def SubIntStats.tally (s : SubIntStats) : Tally :=
  ⟨s.seqErrLoss.toNat, s.seqErrOoo.toNat, s.seqErrDup.toNat⟩

/-- The part of a receiver that sequence numbers act on. -/
structure SeqState where
  seq : UInt32
  history : RingBuffer UInt32 loadHistorySize
  trial : Tally
  sub : Tally

namespace RxAccounting

def seqState (a : RxAccounting) : SeqState where
  seq := a.seq
  history := a.history
  trial := a.toTrialCounters.tally
  sub := a.sub.tally

/-- Delay samples do not touch the sequence accounting. -/
@[simp] theorem recordDelays_seqState (a : RxAccounting) (rxTime : Time) (hdr : LoadPDU) :
    (a.recordDelays rxTime hdr).seqState = a.seqState := by
  have hrtt : ∀ b : RxAccounting, (b.recordRtt rxTime hdr).seqState = b.seqState := by
    intro b
    unfold recordRtt
    split <;> rfl
  have hclock : ∀ (b : RxAccounting) (delta : Int),
      (b.recordClockDelta delta).seqState = b.seqState := by
    intro b delta
    unfold recordClockDelta
    split <;> rfl
  unfold recordDelays
  rw [hrtt]
  exact hclock a _

end RxAccounting

/-! ## The invariant -/

/-- `s` has been given the numbers `earlier`, in this order. -/
structure SeqState.Follows (s : SeqState) (earlier : List Nat) : Prop where
  seq_eq : s.seq.toNat = highest earlier
  seq_lt : s.seq.toNat < 2 ^ 32 - 1
  history : ∃ recorded : List UInt32, recorded.map UInt32.toNat = earlier.eraseDups ∧
    s.history.Holds (List.replicate loadHistorySize 0 ++ recorded)
  trial : s.trial.Within earlier
  sub : s.sub.Within earlier

/-- Each repeat comes while its number is among the last `n` distinct ones. -/
abbrev RepeatWithin (n : Nat) (earlier : List Nat) (x : Nat) : Prop :=
  x ∈ earlier → x ∈ earlier.eraseDups.rtake n

/-- The streams for which the accounting is exact, after `earlier`. -/
structure Tame (earlier xs : List Nat) : Prop where
  pos : ∀ x ∈ xs, 1 ≤ x
  lt : ∀ x ∈ xs, x < 2 ^ 32 - 1
  repeats : Each (RepeatWithin loadHistorySize) earlier xs
  length_lt : earlier.length + xs.length < 2 ^ 32

theorem Tame.tail {earlier xs : List Nat} {x : Nat} (h : Tame earlier (x :: xs)) :
    Tame (earlier ++ [x]) xs where
  pos := fun y hy => h.pos y (List.mem_cons_of_mem _ hy)
  lt := fun y hy => h.lt y (List.mem_cons_of_mem _ hy)
  repeats := h.repeats.2
  length_lt := by
    have hlen := h.length_lt
    rw [List.length_cons] at hlen
    rw [List.length_append, List.length_singleton]
    omega

/-! ## One sequence number -/

theorem toNat_add_of_lt {m n : UInt32} (h : m.toNat + n.toNat < 2 ^ 32) :
    (m + n).toNat = m.toNat + n.toNat := by
  rw [UInt32.toNat_add, Nat.mod_eq_of_lt h]

theorem toNat_takeBack (n : UInt32) : (RxAccounting.takeBack n).toNat = n.toNat - 1 := by
  unfold RxAccounting.takeBack
  split
  · rename_i h
    exact UInt32.toNat_sub_of_le n 1 (UInt32.lt_iff_toNat_lt.mp h)
  · rename_i h
    have hz : n.toNat = 0 := Nat.eq_zero_of_not_pos fun hp => h (UInt32.lt_iff_toNat_lt.mpr hp)
    omega

namespace SeqState.Follows

variable {s : SeqState} {earlier : List Nat} {x : UInt32}

/-- The ring answers the question whether the number is a repeat: its zeros
are no sequence numbers, and what it has forgotten does not come again. -/
theorem mem_history (h : s.Follows earlier) (hpos : 1 ≤ x.toNat)
    (hrep : RepeatWithin loadHistorySize earlier x.toNat) :
    x ∈ s.history.slots ↔ x.toNat ∈ earlier := by
  obtain ⟨recorded, hmap, hholds⟩ := h.history
  rw [hholds.mem_iff]
  constructor
  · intro hx
    rcases List.mem_append.mp (List.mem_of_mem_drop hx) with hz | hx
    · rw [List.eq_of_mem_replicate hz] at hpos
      exact absurd hpos (by decide)
    · rw [← List.mem_eraseDups, ← hmap]
      exact List.mem_map_of_mem hx
  · intro hx
    have hlast := hrep hx
    rw [← hmap, List.rtake, ← List.map_drop, List.length_map] at hlast
    obtain ⟨y, hy, hyx⟩ := List.mem_map.mp hlast
    rw [← UInt32.toNat_inj.mp hyx]
    exact RingBuffer.mem_rtake_append hy

/-- The ring after a first arrival. -/
theorem push_history (h : s.Follows earlier) (hnew : x.toNat ∉ earlier) :
    ∃ recorded : List UInt32,
      recorded.map UInt32.toNat = (earlier ++ [x.toNat]).eraseDups ∧
        (s.history.push x).Holds (List.replicate loadHistorySize 0 ++ recorded) := by
  obtain ⟨recorded, hmap, hholds⟩ := h.history
  refine ⟨recorded ++ [x], ?_, ?_⟩
  · rw [List.map_append, hmap, eraseDups_snoc, if_neg hnew]
    rfl
  · rw [← List.append_assoc]
    exact hholds.push x

end SeqState.Follows

namespace RxAccounting

variable {a : RxAccounting} {earlier : List Nat} {x : UInt32} {xs : List Nat}

theorem inHistory_iff : a.inHistory x = true ↔ x ∈ a.history.slots := by
  rw [← Vector.mem_toList_iff, inHistory, List.any_beq', List.contains_iff_mem]

/-- What one number does to the sequence accounting. -/
structure Records (s s' : SeqState) (earlier : List Nat) (x : Nat) : Prop where
  follows : s'.Follows (earlier ++ [x])
  trial : s'.trial = s.trial.record (classify earlier x)
  sub : s'.sub = s.sub.record (classify earlier x)

/-- Both tallies record the arrival, so they stay bounded. -/
theorem Records.of_tallies {s s' : SeqState} {y : Nat} (h : s.Follows earlier) (hpos : 1 ≤ y)
    (hseq : s'.seq.toNat = highest (earlier ++ [y])) (hlt : s'.seq.toNat < 2 ^ 32 - 1)
    (hhistory : ∃ recorded : List UInt32,
      recorded.map UInt32.toNat = (earlier ++ [y]).eraseDups ∧
        s'.history.Holds (List.replicate loadHistorySize 0 ++ recorded))
    (htrial : s'.trial = s.trial.record (classify earlier y))
    (hsub : s'.sub = s.sub.record (classify earlier y)) : Records s s' earlier y := by
  refine ⟨⟨hseq, hlt, hhistory, ?_, ?_⟩, htrial, hsub⟩
  · rw [htrial]
    exact h.trial.record hpos
  · rw [hsub]
    exact h.sub.record hpos

/-- Counters of single arrivals do not wrap while the stream is short. -/
theorem toNat_count_succ (ht : Tame earlier (x.toNat :: xs)) {n : UInt32}
    (hn : n.toNat ≤ earlier.length) : (n + 1).toNat = n.toNat + 1 := by
  have hlen := ht.length_lt
  rw [List.length_cons] at hlen
  exact toNat_add_of_lt (by show n.toNat + 1 < 2 ^ 32; omega)

theorem advanceSeq_records (h : a.seqState.Follows earlier) (ht : Tame earlier (x.toNat :: xs))
    (hadv : highest earlier < x.toNat) :
    Records a.seqState (a.advanceSeq x).seqState earlier x.toNat := by
  have hseq : a.seq.toNat = highest earlier := h.seq_eq
  have hlt : x.toNat < 2 ^ 32 - 1 := ht.lt _ List.mem_cons_self
  have hpos : 1 ≤ x.toNat := ht.pos _ List.mem_cons_self
  have hnew : x.toNat ∉ earlier := fun hx => Nat.not_le.mpr hadv (le_highest hx)
  have hgap : (x - a.seq - 1).toNat = x.toNat - highest earlier - 1 := by
    have hsub : (x - a.seq).toNat = x.toNat - a.seq.toNat :=
      UInt32.toNat_sub_of_le _ _ (UInt32.le_iff_toNat_le.mpr (by omega))
    rw [UInt32.toNat_sub_of_le _ _ (UInt32.le_iff_toNat_le.mpr (by
      rw [hsub]
      show 1 ≤ _
      omega)), hsub, hseq]
    rfl
  have hclass : classify earlier x.toNat = .advance (x.toNat - highest earlier - 1) := if_pos hadv
  -- neither loss counter can pass the number that has just arrived
  have hadd : ∀ n : UInt32, n.toNat ≤ highest earlier →
      (n + (x - a.seq - 1)).toNat = n.toNat + (x.toNat - highest earlier - 1) := by
    intro n hn
    rw [toNat_add_of_lt (by rw [hgap]; omega), hgap]
  refine Records.of_tallies h hpos ?_ hlt (h.push_history hnew) ?_ ?_
  · rw [highest_snoc]
    exact (max_eq_right hadv.le).symm
  · rw [hclass]
    exact congrArg (Tally.mk · _ _) (hadd a.tLoss h.trial.loss_le)
  · rw [hclass]
    exact congrArg (Tally.mk · _ _) (hadd a.sub.seqErrLoss h.sub.loss_le)

theorem countDup_records (h : a.seqState.Follows earlier) (ht : Tame earlier (x.toNat :: xs))
    (hrep : x.toNat ∈ earlier) :
    Records a.seqState a.countDup.seqState earlier x.toNat := by
  have hpos : 1 ≤ x.toNat := ht.pos _ List.mem_cons_self
  have hle : x.toNat ≤ highest earlier := le_highest hrep
  have hclass : classify earlier x.toNat = .duplicate := by
    rw [classify, if_neg (Nat.not_lt.mpr hle), if_pos hrep]
  refine Records.of_tallies h hpos ?_ h.seq_lt ?_ ?_ ?_
  · rw [highest_snoc, max_eq_left hle]
    exact h.seq_eq
  · rw [eraseDups_snoc, if_pos hrep]
    exact h.history
  · rw [hclass]
    exact congrArg (Tally.mk _ _) (toNat_count_succ ht h.trial.dup_le)
  · rw [hclass]
    exact congrArg (Tally.mk _ _) (toNat_count_succ ht h.sub.dup_le)

theorem countOoo_records (h : a.seqState.Follows earlier) (ht : Tame earlier (x.toNat :: xs))
    (hle : x.toNat ≤ highest earlier) (hnew : x.toNat ∉ earlier) :
    Records a.seqState (a.countOoo x).seqState earlier x.toNat := by
  have hpos : 1 ≤ x.toNat := ht.pos _ List.mem_cons_self
  have hclass : classify earlier x.toNat = .late := by
    rw [classify, if_neg (Nat.not_lt.mpr hle), if_neg hnew]
  refine Records.of_tallies h hpos ?_ h.seq_lt (h.push_history hnew) ?_ ?_
  · rw [highest_snoc, max_eq_left hle]
    exact h.seq_eq
  · rw [hclass]
    exact congrArg₂ (Tally.mk · · _) (toNat_takeBack a.tLoss)
      (toNat_count_succ ht h.trial.ooo_le)
  · rw [hclass]
    exact congrArg₂ (Tally.mk · · _) (toNat_takeBack a.sub.seqErrLoss)
      (toNat_count_succ ht h.sub.ooo_le)

/-- `recordSeq` classifies as the stream says. -/
theorem recordSeq_records (h : a.seqState.Follows earlier) (ht : Tame earlier (x.toNat :: xs)) :
    Records a.seqState (a.recordSeq x).1.seqState earlier x.toNat := by
  have hpos : 1 ≤ x.toNat := ht.pos _ List.mem_cons_self
  have hseq : a.seq.toNat = highest earlier := h.seq_eq
  have hsucc : (a.seq + 1).toNat = highest earlier + 1 := by
    have hlt : a.seq.toNat < 2 ^ 32 - 1 := h.seq_lt
    rw [← hseq]
    exact toNat_add_of_lt (by show a.seq.toNat + 1 < 2 ^ 32; omega)
  unfold recordSeq
  split_ifs with hadv hdup
  · rw [UInt32.le_iff_toNat_le, hsucc] at hadv
    exact advanceSeq_records h ht hadv
  · exact countDup_records h ht
      ((h.mem_history hpos ht.repeats.1).mp (inHistory_iff.mp hdup))
  · rw [UInt32.le_iff_toNat_le, hsucc] at hadv
    refine countOoo_records h ht (by omega) fun hx => hdup ?_
    exact inHistory_iff.mpr ((h.mem_history hpos ht.repeats.1).mpr hx)

theorem recordLoad_records {hdr : LoadPDU} (h : a.seqState.Follows earlier)
    (ht : Tame earlier (hdr.seqNo.toNat :: xs)) (rxTime : Time) :
    Records a.seqState (a.recordLoad rxTime hdr).seqState earlier hdr.seqNo.toNat := by
  have hrec := recordSeq_records (a := a.countLoad hdr) h ht
  unfold recordLoad
  rcases hr : (a.countLoad hdr).recordSeq hdr.seqNo with ⟨a', adv⟩
  rw [hr] at hrec
  cases adv with
  | true =>
      rw [recordDelays_seqState]
      exact hrec
  | false => exact hrec

/-! ## The two schedules -/

theorem resetTrial_follows (h : a.seqState.Follows earlier) :
    a.resetTrial.seqState.Follows earlier :=
  ⟨h.seq_eq, h.seq_lt, h.history, Tally.within_empty earlier, h.sub⟩

theorem maybeRoll_follows (h : a.seqState.Follows earlier) (now : Time)
    (subInt trialInt : Duration) : (a.maybeRoll now subInt trialInt).seqState.Follows earlier := by
  unfold maybeRoll
  split
  · exact ⟨h.seq_eq, h.seq_lt, h.history, h.trial, Tally.within_empty earlier⟩
  · exact h

theorem maybeRoll_trial (now : Time) (subInt trialInt : Duration) :
    (a.maybeRoll now subInt trialInt).seqState.trial = a.seqState.trial := by
  unfold maybeRoll
  split <;> rfl

end RxAccounting

/-- The run as the trial counters see it. -/
def trialOps : List AcctEvent → List Op
  | [] => []
  | .load _ hdr :: es => .arrive hdr.seqNo.toNat :: trialOps es
  | .resetTrial :: es => .close :: trialOps es
  | .maybeRoll _ _ _ :: es => trialOps es

/-- The run as the sub-interval counters see it. -/
def subOps (a : RxAccounting) : List AcctEvent → List Op
  | [] => []
  | .load rxTime hdr :: es => .arrive hdr.seqNo.toNat :: subOps (a.recordLoad rxTime hdr) es
  | .resetTrial :: es => subOps a.resetTrial es
  | .maybeRoll now subInt trialInt :: es =>
      let rest := subOps (a.maybeRoll now subInt trialInt) es
      if a.rolls now subInt trialInt then .close :: rest else rest

theorem stream_trialOps (es : List AcctEvent) : stream (trialOps es) = seqNos es := by
  induction es with
  | nil => rfl
  | cons e es ih =>
      cases e with
      | load rxTime hdr => exact congrArg (hdr.seqNo.toNat :: ·) ih
      | resetTrial => exact ih
      | maybeRoll now subInt trialInt => exact ih

theorem stream_subOps (es : List AcctEvent) (a : RxAccounting) :
    stream (subOps a es) = seqNos es := by
  induction es generalizing a with
  | nil => rfl
  | cons e es ih =>
      cases e with
      | load rxTime hdr => exact congrArg (hdr.seqNo.toNat :: ·) (ih _)
      | resetTrial => exact ih _
      | maybeRoll now subInt trialInt =>
          rw [subOps]
          split <;> exact ih _

variable {a : RxAccounting} {earlier : List Nat} {es : List AcctEvent}

/-- The trial counters never wrap: they are the unbounded tallies. -/
theorem trials_tally (h : a.seqState.Follows earlier) (ht : Tame earlier (seqNos es)) :
    (trials a es).map TrialCounters.tally = closings earlier a.seqState.trial (trialOps es) := by
  induction es generalizing a earlier with
  | nil => rfl
  | cons e es ih =>
      cases e with
      | load rxTime hdr =>
          have hrec := RxAccounting.recordLoad_records h ht rxTime
          rw [trialOps, closings, ← hrec.trial]
          exact ih hrec.follows ht.tail
      | resetTrial =>
          rw [trialOps, closings, trials, List.map_cons]
          exact congrArg (_ :: ·) (ih (RxAccounting.resetTrial_follows h) ht)
      | maybeRoll now subInt trialInt =>
          rw [trialOps, ← RxAccounting.maybeRoll_trial now subInt trialInt]
          exact ih (RxAccounting.maybeRoll_follows h now subInt trialInt) ht

/-- The sub-interval counters never wrap either. -/
theorem subIntervals_tally (h : a.seqState.Follows earlier) (ht : Tame earlier (seqNos es)) :
    (subIntervals a es).map SubIntStats.tally =
      closings earlier a.seqState.sub (subOps a es) := by
  induction es generalizing a earlier with
  | nil => rfl
  | cons e es ih =>
      cases e with
      | load rxTime hdr =>
          have hrec := RxAccounting.recordLoad_records h ht rxTime
          rw [subOps, closings, ← hrec.sub]
          exact ih hrec.follows ht.tail
      | resetTrial => exact ih (RxAccounting.resetTrial_follows h) ht
      | maybeRoll now subInt trialInt =>
          have hrest := ih (RxAccounting.maybeRoll_follows h now subInt trialInt) ht
          rw [subIntervals, subOps]
          by_cases hroll : a.rolls now subInt trialInt = true
          · have heq : a.maybeRoll now subInt trialInt = _ := if_pos hroll
            rw [if_pos hroll, if_pos hroll, List.map_cons, closings, hrest]
            rw [heq]
            rfl
          · have heq : a.maybeRoll now subInt trialInt = a := if_neg hroll
            rw [if_neg hroll, if_neg hroll, hrest, heq]

theorem close_notMem_trialOps (h : AcctEvent.resetTrial ∉ es) : Op.close ∉ trialOps es := by
  induction es with
  | nil => exact List.not_mem_nil
  | cons e es ih =>
      rw [List.mem_cons, not_or] at h
      cases e with
      | load rxTime hdr => simpa [trialOps] using ih h.2
      | resetTrial => exact absurd rfl h.1
      | maybeRoll now subInt trialInt => exact ih h.2

theorem close_notMem_subOps (h : NeverRolls a es) : Op.close ∉ subOps a es := by
  induction es generalizing a with
  | nil => exact List.not_mem_nil
  | cons e es ih =>
      cases e with
      | load rxTime hdr => simpa [subOps, RxAccounting.exec] using ih h
      | resetTrial => exact ih h
      | maybeRoll now subInt trialInt =>
          rw [subOps, if_neg (by rw [h.1]; decide)]
          exact ih h.2

/-! ## From the start of a test -/

theorem newRxAccounting_follows (start : Time) : (newRxAccounting start).seqState.Follows [] where
  seq_eq := rfl
  seq_lt := by
    show (0 : UInt32).toNat < 2 ^ 32 - 1
    decide
  history := ⟨[], rfl, by
    rw [List.append_nil]
    exact RingBuffer.holds_replicate 0 0⟩
  trial := Tally.within_empty []
  sub := Tally.within_empty []

theorem seqNos_append (es es' : List AcctEvent) : seqNos (es ++ es') = seqNos es ++ seqNos es' := by
  induction es with
  | nil => rfl
  | cons e es ih =>
      cases e with
      | load rxTime hdr => exact congrArg (hdr.seqNo.toNat :: ·) ih
      | resetTrial => exact ih
      | maybeRoll now subInt trialInt => exact ih

theorem Tame.of_append {xs ys : List Nat} (h : Tame earlier (xs ++ ys)) : Tame earlier xs where
  pos := fun x hx => h.pos x (List.mem_append_left _ hx)
  lt := fun x hx => h.lt x (List.mem_append_left _ hx)
  repeats := h.repeats.of_append
  length_lt := by
    have hlen := h.length_lt
    rw [List.length_append] at hlen
    omega

/-- Bounds on the losses of either schedule. -/
theorem total_loss_of_stream {ops : List Op} {xs : List Nat} (hstream : stream ops = xs)
    (hpos : ∀ x ∈ xs, 1 ≤ x) :
    missing xs ≤ total Tally.loss (closings [] {} ops) ∧
      total Tally.loss (closings [] {} ops) + count Advance [] xs ≤ highest xs := by
  subst hstream
  have hbounds := total_loss_bounds hpos [] {}
  have hmissing := missing_add_count hpos
  rw [List.nil_append, highest_nil] at hbounds
  simp only at hbounds
  omega

/-- **Loss, reordering and duplicates are counted exactly.** The run may
reset trials and roll sub-intervals anywhere. The last clause says that no
counter wraps or underflows, in any state on the way: after every initial
part of the run the 32-bit counters are the tallies kept in unbounded
arithmetic. -/
theorem loss_accounting_exact (start : Time) (es : List AcctEvent)
    (hlen : (seqNos es).length < 2 ^ 32) (hpos : ∀ x ∈ seqNos es, 1 ≤ x)
    (hmax : highest (seqNos es) < 2 ^ 32 - 1)
    (hrep : Each (RepeatWithin loadHistorySize) [] (seqNos es)) :
    let a := newRxAccounting start
    let xs := seqNos es
    let trialLoss := total (fun c => c.tLoss.toNat) (trials a es)
    let subLoss := total (fun s => s.seqErrLoss.toNat) (subIntervals a es)
    total (fun c => c.tDup.toNat) (trials a es) = count Repeat [] xs ∧
      total (fun c => c.tOoo.toNat) (trials a es) = count Late [] xs ∧
      (missing xs ≤ trialLoss ∧ trialLoss + count Advance [] xs ≤ highest xs) ∧
      (missing xs ≤ subLoss ∧ subLoss + count Advance [] xs ≤ highest xs) ∧
      (.resetTrial ∉ es → trialLoss = missing xs) ∧
      (NeverRolls a es → subLoss = missing xs) ∧
      ∀ pre, pre <+: es →
        (trials a pre).map TrialCounters.tally = closings [] {} (trialOps pre) ∧
          (subIntervals a pre).map SubIntStats.tally = closings [] {} (subOps a pre) := by
  intro a xs trialLoss subLoss
  have hlt : ∀ x ∈ xs, x < 2 ^ 32 - 1 := fun x hx => (le_highest hx).trans_lt hmax
  have htame : Tame [] xs := ⟨hpos, hlt, hrep, by rw [List.length_nil, Nat.zero_add]; exact hlen⟩
  have hfollows := newRxAccounting_follows start
  have htrials : (trials a es).map TrialCounters.tally = closings [] {} (trialOps es) :=
    trials_tally hfollows htame
  have hsubs : (subIntervals a es).map SubIntStats.tally = closings [] {} (subOps a es) :=
    subIntervals_tally hfollows htame
  have htstream : stream (trialOps es) = seqNos es := stream_trialOps es
  have hsstream : stream (subOps a es) = seqNos es := stream_subOps es a
  have htrialLoss : trialLoss = total Tally.loss (closings [] {} (trialOps es)) := by
    rw [← htrials, Account.total_map]
    rfl
  have hsubLoss : subLoss = total Tally.loss (closings [] {} (subOps a es)) := by
    rw [← hsubs, Account.total_map]
    rfl
  refine ⟨?_, ?_, ?_, ?_, ?_, ?_, ?_⟩
  · have hdup := total_dup (htstream ▸ hpos) [] {}
    rw [← htrials, Account.total_map, htstream, Nat.zero_add] at hdup
    exact hdup
  · have hooo := total_ooo (htstream ▸ hpos) [] {}
    rw [← htrials, Account.total_map, htstream, Nat.zero_add] at hooo
    exact hooo
  · rw [htrialLoss]
    exact total_loss_of_stream htstream hpos
  · rw [hsubLoss]
    exact total_loss_of_stream hsstream hpos
  · intro hnone
    rw [htrialLoss, total_loss_exact (htstream ▸ hpos) (close_notMem_trialOps hnone)
      (fun y hy => absurd hy List.not_mem_nil) rfl, htstream, List.nil_append]
  · intro hnone
    rw [hsubLoss, total_loss_exact (hsstream ▸ hpos) (close_notMem_subOps hnone)
      (fun y hy => absurd hy List.not_mem_nil) rfl, hsstream, List.nil_append]
  · rintro pre ⟨post, hpre⟩
    have htame' : Tame [] (seqNos pre) := by
      have hxs : xs = seqNos pre ++ seqNos post := by
        rw [← seqNos_append, hpre]
      exact (hxs ▸ htame).of_append
    exact ⟨trials_tally hfollows htame', subIntervals_tally hfollows htame'⟩

/-- A load PDU of the run below. -/
def numbered (n : UInt32) : AcctEvent := .load 0 { seqNo := n }

/-- 2 comes late, after its loss was reported, and twice; 4 never comes. -/
def lateRun : List AcctEvent :=
  [numbered 1, numbered 3, .resetTrial, numbered 2, numbered 2, .maybeRoll second 0 0, numbered 5]

/-- One loss is really missing, and two are reported. -/
theorem loss_accounting_lateRun :
    total (fun c => c.tLoss.toNat) (trials (newRxAccounting 0) lateRun) = 2 ∧
      missing (seqNos lateRun) = 1 ∧
      missing (seqNos lateRun) ≤
        total (fun c => c.tLoss.toNat) (trials (newRxAccounting 0) lateRun) :=
  ⟨by decide, by decide,
    (loss_accounting_exact 0 lateRun (by decide) (by decide) (by decide) (by decide)).2.2.1.1⟩

end Diagd.Udpst
