import Diagd.Udpst.Sending

/-!
# Numbering — the sequence numbers of the load datagrams

`sendBurst` numbers its datagrams as it makes them and takes back the numbers
of those the kernel did not accept. The protocol `numbering` has one number
as its state, the datagrams accepted so far. It allows a batch only when its
sequence numbers go on from there, whatever happened to the batches before.
-/

namespace Diagd.Udpst

open GoStd GoSlice Resumption

namespace Sending

/-- The datagrams the kernel accepted in an execution, in order. -/
def accepted (tr : List (Σ o : SendOp, o.Res)) : List Bytes :=
  tr.flatMap fun
    | ⟨.writeBatch msgs, r⟩ => msgs.take (taken r)
    | _ => []

/-- The state is the number of datagrams accepted so far; a batch that is
offered goes on from there. -/
def numbering (ipv6 : Bool) : Protocol sendSig Nat where
  Allowed k
    | .loadEcho | .now => True
    | .rand n => 0 < n
    | .writeBatch msgs => msgs.map seqNoOf = numbers k msgs.length ∧
        (∀ m ∈ msgs, Sized ipv6 m) ∧ msgs.length ≤ maxBurstSize + 1
  next k
    | .loadEcho, _ | .now, _ | .rand _, _ => k
    | .writeBatch _, r => k + taken r

section Numbering

variable {ipv6 : Bool} {k : Nat} {st : SendState} {msgs : List Bytes}

theorem numbered_split (h : msgs.map seqNoOf = numbers k msgs.length) {n : Nat}
    (hn : n ≤ msgs.length) : (msgs.take n).map seqNoOf = numbers k n ∧
      (msgs.drop n).map seqNoOf = numbers (k + n) (msgs.drop n).length := by
  have hsplit : msgs.length = n + (msgs.drop n).length := by
    rw [List.length_drop]
    omega
  rw [hsplit, numbers_add] at h
  rw [List.map_take, List.map_drop, h]
  exact ⟨List.take_left' (numbers_length k n), List.drop_left' (numbers_length k n)⟩

/-- What is left of a batch goes on from what was accepted of it. -/
theorem numbering_views {w : Order} (hw : w.Fits) :
    Views (bursting ipv6 w k) (numbering ipv6) fun p n => n = k + p.accepted := by
  rintro p _ o rfl hallowed
  match p, o, hallowed with
  | .begun, .loadEcho, _ => exact ⟨trivial, fun _ => rfl⟩
  | .loaded _, .now, _ => exact ⟨trivial, fun _ => rfl⟩
  | .building _ _, .now, _ => exact ⟨trivial, fun _ => rfl⟩
  | .building _ _, .rand n, hn => exact ⟨hn, fun _ => rfl⟩
  | .building _ _, .writeBatch msgs, hbatch =>
      exact ⟨⟨hbatch.numbered, hbatch.sized, hbatch.count.trans_le hw.count_le⟩, fun _ => rfl⟩
  | .offering _ _ batch j, .writeBatch _, ⟨hbatch, hj, rfl⟩ =>
      refine ⟨⟨(numbered_split hbatch.numbered hj).2,
        fun m hm => hbatch.sized m (List.mem_of_mem_drop hm), ?_⟩, fun _ => Nat.add_assoc _ _ _⟩
      exact (List.drop_sublist j batch).length_le.trans (hbatch.count.trans_le hw.count_le)

/-- **A burst leaves the numbering where the kernel stopped.** -/
theorem send_numbered {t : RateTable} (ht : AllBounded t.rows) (c : Burst t) (hst : Ready k st) :
    Conforms (numbering ipv6) k (c.send ipv6 st) fun st' k' => Ready k' st' := by
  refine ((send_conforms ht c hst).view (numbering_views (c.order_fits ht ipv6)) rfl).mono ?_
  rintro st' _ ⟨p, rfl, -, hst'⟩
  exact hst'

theorem sendBursts_conforms {t : RateTable} (ht : AllBounded t.rows) (cs : List (Burst t))
    (hst : Ready k st) :
    Conforms (numbering ipv6) k (sendBursts ipv6 cs st) fun st' k' => Ready k' st' := by
  induction cs generalizing k st with
  | nil => exact Conforms.ret hst
  | cons c cs ih =>
      refine Conforms.bind (send_numbered ht c hst) ?_
      intro st' k' hst'
      exact ih hst'

/-! ## What the kernel accepts -/

/-- In every execution of a program that keeps to the numbering. -/
theorem accepted_of_conforms {α : Type} {p q : SendProg α} {Q : α → Nat → Prop}
    {tr : List (Σ o : SendOp, o.Res)} (h : Conforms (numbering ipv6) k p Q)
    (he : p.Executes tr q) :
    (accepted tr).map seqNoOf = numbers k (accepted tr).length ∧
      ∀ m ∈ accepted tr, Sized ipv6 m := by
  induction he generalizing k with
  | refl p => exact ⟨rfl, by simp [accepted]⟩
  | @step o cont r tr q _ ih =>
      obtain ⟨hallowed, hnext⟩ := Conforms.op_iff.mp h
      obtain ⟨hnum, hsized⟩ := ih (hnext r)
      cases o with
      | loadEcho => exact ⟨hnum, hsized⟩
      | now => exact ⟨hnum, hsized⟩
      | rand n => exact ⟨hnum, hsized⟩
      | writeBatch msgs =>
          obtain ⟨hmsgs, hms, -⟩ := hallowed
          have hle := taken_le r
          have hlen : (msgs.take (taken r)).length = taken r := by
            rw [List.length_take]
            omega
          show (msgs.take (taken r) ++ accepted tr).map seqNoOf
              = numbers k (msgs.take (taken r) ++ accepted tr).length ∧
            ∀ m ∈ msgs.take (taken r) ++ accepted tr, Sized ipv6 m
          constructor
          · rw [List.map_append, List.length_append, hlen, numbers_add, hnum,
              (numbered_split hmsgs hle).1]
            rfl
          · intro m hm
            rcases List.mem_append.mp hm with hold | hnew
            · exact hms m (List.mem_of_mem_take hold)
            · exact hsized m hnew

/-- A batch is never longer than the message buffers. -/
theorem offered_of_conforms {α : Type} {p q : SendProg α} {Q : α → Nat → Prop}
    {tr : List (Σ o : SendOp, o.Res)} (h : Conforms (numbering ipv6) k p Q)
    (he : p.Executes tr q) (hmem : .writeBatch msgs ∈ Prog.performed (S := sendSig) tr) :
    msgs.length ≤ maxBurstSize + 1 := by
  obtain ⟨⟨o, r⟩, hin, ho⟩ := List.mem_map.mp hmem
  obtain rfl : o = .writeBatch msgs := ho
  obtain ⟨before, after, rfl⟩ := List.append_of_mem hin
  exact (h.allowed he).2.2

/-- **The numbers on the wire have no gap and no repeat.** Whatever rows are
sent, and whatever part of each batch the kernel accepts: the accepted
datagrams are numbered 1, 2, 3, … modulo 2^32; each states its own length,
which is within the bounds of the address family; and no buffer behind the
last one is touched, so that nothing panics. -/
theorem sent_without_gap (jumbo traditionalMTU ipv6 randPayload : Bool)
    (calls : List (Burst (buildRateTable jumbo traditionalMTU)))
    {tr : List (Σ o : SendOp, o.Res)} {q : SendProg SendState}
    (he : (sendBursts ipv6 calls (.init randPayload)).Executes tr q) :
    (accepted tr).map seqNoOf = numbers 0 (accepted tr).length ∧
      (∀ m ∈ accepted tr, Sized ipv6 m) ∧
      loadHdrSize ≤ (minSize ipv6).toNat ∧
      (∀ msgs, .writeBatch msgs ∈ Prog.performed (S := sendSig) tr →
        msgs.length ≤ maxBurstSize + 1) ∧
      ∀ p, q ≠ .crash p := by
  have hconf : Conforms (numbering ipv6) 0 (sendBursts ipv6 calls (.init randPayload)) fun st k =>
      Ready k st := sendBursts_conforms (buildRateTable_bounded jumbo traditionalMTU) calls
    (ready_init randPayload)
  obtain ⟨hnum, hsized⟩ := accepted_of_conforms hconf he
  refine ⟨hnum, hsized, header_le_minSize ipv6, fun _ => offered_of_conforms hconf he, ?_⟩
  rintro p rfl
  exact Conforms.not_crash (hconf.executes he)

end Numbering

/-! ### Three stop indications -/

theorem one_of_lt (n : Nat) : min 1 n < n + 1 := Nat.lt_succ_of_le (Nat.min_le_right 1 n)

/-- No status message yet, the clock at zero, the smallest size, and a kernel
that accepts one datagram a call. -/
def oneByOne : (o : SendOp) → o.Res
  | .loadEcho => none
  | .now => (0 : Int)
  | .rand _ => ⟨0, id⟩
  | .writeBatch msgs => some ⟨min 1 msgs.length, one_of_lt msgs.length⟩

def threeStops : SendProg SendState :=
  sendBursts (t := buildRateTable false false) false [.stop, .stop, .stop] (.init false)

theorem sent_without_gap_threeStops : ∃ tr q, threeStops.Executes tr q ∧
    (accepted tr).map seqNoOf = [1, 2, 3] := by
  have he := threeStops.executes_answered oneByOne
  have hlen : (accepted (threeStops.answered oneByOne).1).length = 3 := by decide +kernel
  refine ⟨_, _, he, ?_⟩
  rw [(sent_without_gap false false false false [.stop, .stop, .stop] he).1, hlen]
  rfl

end Sending

end Diagd.Udpst
