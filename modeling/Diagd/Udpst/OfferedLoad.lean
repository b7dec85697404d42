import Diagd.Udpst.Nominal
import Diagd.Udpst.Numbering
import Diagd.Udpst.SendLoop

/-!
# The load that is offered

The nominal rate of a row against what `sendLoop` hands to the kernel on that
row. Both ends are in the source: `BitsPerSecond` computes the rate from the
fields of the row, and `sendBurst` turns the same fields into datagrams, after
taking the larger IPv6 header off the payload.

What is offered is read off an execution (`offers`): the first batch of each
call, since what comes after it is offered again. It agrees burst by burst
with the row, and the pacing makes up for the time between two wakes, so that
over any stretch without a stall the offered load is the nominal one, up to
one interval.
-/

namespace Diagd.Udpst

open GoSlice GoStd Resumption

/-- The headers of a datagram, `(*session).l3Overhead`. -/
def l3OverheadOf (ipv6 : Bool) : Nat := if ipv6 then l3Overhead + ipv6AddSize else l3Overhead

namespace Sending

variable {t : RateTable} {ipv6 : Bool}

/-! ## The datagrams of a burst -/

/-- The payloads a burst is to have, unless they are randomised. -/
def Burst.sizes (ipv6 : Bool) (c : Burst t) : List Nat := (c.order ipv6).sizes ipv6

/-- The first batch of each call of `sendBurst`. A call begins with a look at
`echo`; the batches after the first one repeat what was not accepted. -/
def collecting : Protocol sendSig (List (List Bytes)) where
  Allowed _ _ := True
  next
    | bs, .loadEcho, _ => bs ++ [[]]
    | bs, .writeBatch msgs, _ => bs.modifyLast fun batch => if batch = [] then msgs else batch
    | bs, .now, _ | bs, .rand _, _ => bs

/-- What the calls of an execution have offered. -/
def offers (tr : List (Σ o : SendOp, o.Res)) : List (List Bytes) :=
  tr.foldl (fun bs e => collecting.next bs e.1 e.2) []

section Offer

variable {w : Order} {k : Nat} {st : SendState} {bs : List (List Bytes)}

/-- What is collected after `bs`, in a call that has come so far. -/
def Progress.Collected (bs : List (List Bytes)) : Progress → List (List Bytes) → Prop
  | .begun, bs' => bs' = bs
  | .loaded _, bs' | .building _ _, bs' => bs' = bs ++ [[]]
  | .offering _ _ batch _, bs' => bs' = bs ++ [batch]

theorem collecting_views : Views (bursting ipv6 w k) collecting (Progress.Collected bs) := by
  intro p bs' o hbs hallowed
  match p, o, hallowed with
  | .begun, .loadEcho, _ => exact ⟨trivial, fun _ => congrArg (· ++ [[]]) hbs⟩
  | .loaded _, .now, _ => exact ⟨trivial, fun _ => hbs⟩
  | .building _ _, .now, _ => exact ⟨trivial, fun _ => hbs⟩
  | .building _ _, .rand _, _ => exact ⟨trivial, fun _ => hbs⟩
  | .building _ _, .writeBatch msgs, _ =>
      obtain rfl : bs' = bs ++ [[]] := hbs
      exact ⟨trivial, fun _ => List.modifyLast_concat _ _ _⟩
  | .offering _ _ batch j, .writeBatch _, ⟨_, _, rfl⟩ =>
      obtain rfl : bs' = bs ++ [batch] := hbs
      refine ⟨trivial, fun _ => (List.modifyLast_concat _ _ _).trans ?_⟩
      by_cases hnil : batch = []
      · rw [hnil, if_pos rfl, List.drop_nil]
      · rw [if_neg hnil]

theorem Order.sizes_length (w : Order) : (w.sizes ipv6).length = w.count := by
  rw [Order.sizes, burstSizes, List.length_append, List.length_replicate, Order.count]
  split <;> rfl

/-- A call offers the datagrams its row asks for. -/
theorem send_offers (ht : AllBounded t.rows) (c : Burst t) (hc : (c.order ipv6).Plain)
    (hst : Ready k st) :
    Conforms collecting bs (c.send ipv6 st) fun st' bs' => (∃ k', Ready k' st') ∧
      bs'.map (·.map List.length) = bs.map (·.map List.length) ++ [c.sizes ipv6] := by
  refine ((send_conforms ht c hst).view collecting_views rfl).mono ?_
  rintro st' bs' ⟨p, hbs, hover, hst'⟩
  refine ⟨⟨_, hst'⟩, ?_⟩
  match p, hover with
  | .offering _ _ batch _, ⟨hbatch, _⟩ =>
      obtain rfl : bs' = bs ++ [batch] := hbs
      rw [List.map_append, List.map_singleton, hbatch.sizes hc]
      rfl
  | .building _ _, hnone =>
      obtain rfl : bs' = bs ++ [[]] := hbs
      have hnil : c.sizes ipv6 = [] :=
        List.length_eq_zero_iff.mp ((Order.sizes_length (c.order ipv6)).trans hnone)
      rw [List.map_append, hnil]
      rfl

theorem sendBursts_offers (ht : AllBounded t.rows) {cs : List (Burst t)}
    (hcs : ∀ c ∈ cs, (c.order ipv6).Plain) (hst : Ready k st) :
    Conforms collecting bs (sendBursts ipv6 cs st) fun _ bs' =>
      bs'.map (·.map List.length) = bs.map (·.map List.length) ++ cs.map (·.sizes ipv6) := by
  induction cs generalizing k st bs with
  | nil => exact Conforms.ret (by simp)
  | cons c cs ih =>
      obtain ⟨hc, hrest⟩ := List.forall_mem_cons.mp hcs
      refine Conforms.bind (send_offers ht c hc hst) ?_
      rintro st' bs' ⟨⟨k', hst'⟩, hbs⟩
      refine (ih hrest hst').mono fun _ bs'' hbs' => ?_
      rw [hbs', hbs, List.append_assoc, List.map_cons, List.singleton_append]

end Offer

end Sending

/-! ## The rows above row 0 -/

/-- A payload between the smallest and the largest datagram. -/
def InSize (v : UInt32) : Prop := minPayloadSize ≤ v.toNat ∧ v.toNat ≤ maxJPayloadSize

/-- Nothing is randomised, and what is sent goes at the base intervals. -/
structure Rate.Regular (r : Rate) : Prop where
  fixed : r.udpPayload1.toNat < 2 ^ 31 ∧ r.udpPayload2.toNat < 2 ^ 31 ∧ r.udpAddon2.toNat < 2 ^ 31
  first : 0 < r.burstSize1 → r.txInterval1 = baseSendTimer1 ∧ InSize r.udpPayload1
  second : 0 < r.burstSize2 → r.txInterval2 = baseSendTimer2 ∧ InSize r.udpPayload2
  addon : 0 < r.udpAddon2 → r.txInterval2 = baseSendTimer2 ∧ InSize r.udpAddon2

section Regular

theorem inSize_ofNat {n : Nat} (hmin : 52 ≤ n) (hmax : n ≤ 8972) : InSize (UInt32.ofNat n) := by
  have hn : (UInt32.ofNat n).toNat = n := toNat_ofNat_small (by omega)
  rw [InSize, hn]
  exact ⟨hmin, hmax⟩

theorem zero_fixed : (0 : UInt32).toNat < 2 ^ 31 := by decide

theorem InSize.fixed {v : UInt32} (h : InSize v) : v.toNat < 2 ^ 31 :=
  Nat.lt_of_le_of_lt h.2 (by decide)

theorem fastRow_regular {payload : UInt32} (h : InSize payload) (burst : Nat) :
    (fastRow payload burst).Regular where
  fixed := ⟨h.fixed, zero_fixed, zero_fixed⟩
  first := fun _ => ⟨rfl, h⟩
  second := fun hpos => absurd hpos (UInt32.lt_irrefl 0)
  addon := fun hpos => absurd hpos (UInt32.lt_irrefl 0)

theorem plainRow_regular {payload : UInt32} (h : InSize payload) (k i : Nat) :
    (plainRow payload k i).Regular := by
  rw [plainRow_eq]
  have hpos : ∀ n, 0 < UInt32.ofNat n → 0 < n := by
    intro n hn
    by_contra hzero
    rw [Nat.eq_zero_of_not_pos hzero] at hn
    cases hn
  refine ⟨⟨?_, ?_, zero_fixed⟩, fun hk => ?_, fun hi => ?_, fun h => absurd h (UInt32.lt_irrefl 0)⟩
  · dsimp only
    split
    · exact h.fixed
    · decide
  · dsimp only
    split
    · exact h.fixed
    · decide
  · dsimp only
    rw [if_pos (hpos k hk), if_pos (hpos k hk)]
    exact ⟨rfl, h⟩
  · dsimp only
    rw [if_pos (hpos i hi), if_pos (hpos i hi)]
    exact ⟨rfl, h⟩

theorem Rate.Regular.addonRow {r : Rate} (h : r.Regular) {addon : UInt32} (ha : InSize addon) :
    Rate.Regular { r with txInterval2 := baseSendTimer2, udpAddon2 := addon } where
  fixed := ⟨h.fixed.1, h.fixed.2.1, ha.fixed⟩
  first := h.first
  second := fun hpos => ⟨rfl, (h.second hpos).2⟩
  addon := fun _ => ⟨rfl, ha⟩

theorem tableRow_regular (jumbo traditionalMTU : Bool) {n : Nat} (h0 : 0 < n) :
    (tableRow jumbo traditionalMTU n).Regular := by
  have hl3 := l3Overhead_eq
  have hmax : maxL3Packet = 1250 := rfl
  unfold tableRow
  split
  · have hpayload : InSize (UInt32.ofNat (gridPayload traditionalMTU)) := by
      cases traditionalMTU
      · exact inSize_ofNat (by decide) (by decide)
      · exact inSize_ofNat (by decide) (by decide)
    have hw : 0 < cellWidth traditionalMTU ∧ cellWidth traditionalMTU ≤ 12 := by
      cases traditionalMTU <;> decide
    rw [gridRow, if_neg (Nat.pos_iff_ne_zero.mp h0)]
    split
    · exact plainRow_regular hpayload _ _
    · have hlt := Nat.mod_lt n hw.1
      exact (plainRow_regular hpayload _ _).addonRow (inSize_ofNat (by omega) (by omega))
  · split
    · split
      · exact fastRow_regular (inSize_ofNat (by omega) (by omega)) _
      · exact fastRow_regular (inSize_ofNat (by decide) (by decide)) _
    · split
      · exact fastRow_regular (inSize_ofNat (by decide) (by decide)) _
      · exact fastRow_regular (inSize_ofNat (by decide) (by decide)) _

end Regular

namespace Sending

variable {t : RateTable} {ipv6 : Bool}

/-! ## The bits of a burst -/

/-- Datagrams of these payloads at the IP layer. -/
def ipBits (ipv6 : Bool) (sizes : List Nat) : Nat := 8 * (sizes.map (· + l3OverheadOf ipv6)).sum

/-- The bits that the calls of an execution have offered. -/
def offeredBits (ipv6 : Bool) (tr : List (Σ o : SendOp, o.Res)) : Nat :=
  ((offers tr).map fun batch => ipBits ipv6 (batch.map List.length)).sum

def scheduledBits (ipv6 : Bool) (cs : List (Burst t)) : Nat :=
  (cs.map fun c => ipBits ipv6 (c.sizes ipv6)).sum

/-- The bits of a burst by the fields of its row. -/
def Transmitter.bits : Transmitter → Rate → Nat
  | .first, r => 8 * (r.burstSize1.toNat * (r.udpPayload1.toNat + l3Overhead))
  | .second, r => 8 * (r.burstSize2.toNat * (r.udpPayload2.toNat + l3Overhead) +
      if 0 < r.udpAddon2 then r.udpAddon2.toNat + l3Overhead else 0)

section Bits

variable {r : Rate}

theorem offeredBits_eq {tr : List (Σ o : SendOp, o.Res)} {cs : List (Burst t)}
    (h : (offers tr).map (·.map List.length) = cs.map (·.sizes ipv6)) :
    offeredBits ipv6 tr = scheduledBits ipv6 cs := by
  have hbits := congrArg (fun sizes => (sizes.map (ipBits ipv6)).sum) h
  rwa [List.map_map, List.map_map] at hbits

/-- The larger header of IPv6 is taken off the payload. -/
theorem datagramSize_add {v : UInt32} (h : InSize v) (ipv6 : Bool) :
    datagramSize ipv6 v + l3OverheadOf ipv6 = v.toNat + l3Overhead := by
  have hmin : 52 ≤ v.toNat := h.1
  have hmax : v.toNat ≤ 8972 := h.2
  have htwenty : (20 : UInt32).toNat = 20 := rfl
  have hfield : (fieldSize ipv6 v).toNat = v.toNat - if ipv6 then 20 else 0 := by
    rw [fieldSize, (mask_of_fixed h.fixed).1]
    have hlt : UInt32.ofNat ipv6AddSize < v := by
      rw [UInt32.lt_iff_toNat_lt]
      show 20 < v.toNat
      omega
    cases ipv6 with
    | true =>
        rw [if_pos ⟨rfl, hlt⟩, UInt32.toNat_sub_of_le _ _ (UInt32.le_of_lt hlt)]
        rfl
    | false => rw [if_neg (fun h => Bool.false_ne_true h.1)]; rfl
  have hclamp : clampSize ipv6 (fieldSize ipv6 v) = fieldSize ipv6 v := by
    have hlow : ¬ fieldSize ipv6 v < minSize ipv6 := by
      rw [UInt32.lt_iff_toNat_lt, hfield]
      cases ipv6 with
      | true =>
          show ¬ v.toNat - 20 < 32
          omega
      | false =>
          show ¬ v.toNat - 0 < 52
          omega
    have hhigh : ¬ maxSize < fieldSize ipv6 v := by
      rw [UInt32.lt_iff_toNat_lt, hfield]
      show ¬ 8972 < v.toNat - _
      omega
    simp only [clampSize, if_neg hlow, if_neg hhigh]
  rw [datagramSize, hclamp, hfield]
  cases ipv6 with
  | true =>
      show v.toNat - 20 + 48 = v.toNat + 28
      omega
  | false => rfl

theorem sum_map_replicate (n m k : Nat) : ((List.replicate n m).map (· + k)).sum = n * (m + k) := by
  rw [List.map_replicate, List.sum_replicate, smul_eq_mul]

theorem ipBits_first (h : r.Regular) (ipv6 : Bool) :
    ipBits ipv6 (burstSizes ipv6 r.udpPayload1 r.burstSize1.toNat 0) = Transmitter.first.bits r := by
  rw [ipBits, burstSizes, if_neg (by decide), List.append_nil, sum_map_replicate, Transmitter.bits]
  rcases Nat.eq_zero_or_pos r.burstSize1.toNat with hzero | hpos
  · rw [hzero, Nat.zero_mul, Nat.zero_mul]
  · rw [datagramSize_add (h.first (UInt32.lt_iff_toNat_lt.mpr hpos)).2]

theorem ipBits_second (h : r.Regular) (ipv6 : Bool) :
    ipBits ipv6 (burstSizes ipv6 r.udpPayload2 r.burstSize2.toNat r.udpAddon2) =
      Transmitter.second.bits r := by
  have hburst : r.burstSize2.toNat * (datagramSize ipv6 r.udpPayload2 + l3OverheadOf ipv6) =
      r.burstSize2.toNat * (r.udpPayload2.toNat + l3Overhead) := by
    rcases Nat.eq_zero_or_pos r.burstSize2.toNat with hzero | hpos
    · rw [hzero, Nat.zero_mul, Nat.zero_mul]
    · rw [datagramSize_add (h.second (UInt32.lt_iff_toNat_lt.mpr hpos)).2]
  rw [ipBits, burstSizes, List.map_append, List.sum_append, sum_map_replicate, hburst, Transmitter.bits]
  split
  · rename_i haddon
    rw [List.map_singleton, List.sum_singleton, datagramSize_add (h.addon haddon).2]
  · rfl

/-- The nominal rate is that of the two transmitters. -/
theorem bitsPerSecond_regular (h : r.Regular) (ipv6 : Bool) :
    r.bitsPerSecond ipv6 =
      10000 * (Transmitter.first.bits r : Int) + 1000 * (Transmitter.second.bits r : Int) := by
  have hfirst : (if 0 < r.burstSize1 ∧ 0 < r.txInterval1 then
      perSecond r.txInterval1 * r.burstSize1.toNat * Rate.sized ipv6 r.udpPayload1 else 0) =
      10000 * (r.burstSize1.toNat * (r.udpPayload1.toNat + l3Overhead) : Int) := by
    rcases Nat.eq_zero_or_pos r.burstSize1.toNat with hzero | hpos
    · rw [if_neg (fun hp => absurd (UInt32.lt_iff_toNat_lt.mp hp.1) (by simp [hzero])), hzero]
      simp
    · have hpos' : 0 < r.burstSize1 := UInt32.lt_iff_toNat_lt.mpr hpos
      rw [(h.first hpos').1, if_pos ⟨hpos', by decide⟩, sized_of_lt h.fixed.1,
        show perSecond baseSendTimer1 = 10000 from rfl, mul_assoc]
  have hsecond : (if 0 < r.burstSize2 ∧ 0 < r.txInterval2 then
      perSecond r.txInterval2 * r.burstSize2.toNat * Rate.sized ipv6 r.udpPayload2 else 0) =
      1000 * (r.burstSize2.toNat * (r.udpPayload2.toNat + l3Overhead) : Int) := by
    rcases Nat.eq_zero_or_pos r.burstSize2.toNat with hzero | hpos
    · rw [if_neg (fun hp => absurd (UInt32.lt_iff_toNat_lt.mp hp.1) (by simp [hzero])), hzero]
      simp
    · have hpos' : 0 < r.burstSize2 := UInt32.lt_iff_toNat_lt.mpr hpos
      rw [(h.second hpos').1, if_pos ⟨hpos', by decide⟩, sized_of_lt h.fixed.2.1,
        show perSecond baseSendTimer2 = 1000 from rfl, mul_assoc]
  have haddon : (if 0 < r.udpAddon2 ∧ 0 < r.txInterval2 then
      perSecond r.txInterval2 * Rate.sized ipv6 r.udpAddon2 else 0) =
      1000 * ((if 0 < r.udpAddon2 then r.udpAddon2.toNat + l3Overhead else 0 : Nat) : Int) := by
    by_cases hpos : 0 < r.udpAddon2
    · rw [(h.addon hpos).1, if_pos ⟨hpos, by decide⟩, if_pos hpos, sized_of_lt h.fixed.2.2,
        show perSecond baseSendTimer2 = 1000 from rfl]
      push_cast
      rfl
    · rw [if_neg (fun hp => hpos hp.1), if_neg hpos]
      simp
  rw [bitsPerSecond_eq, hfirst, hsecond, haddon, Transmitter.bits, Transmitter.bits]
  push_cast
  ring

end Bits

/-! ## The bursts of a run on one row -/

section Counting

variable {i : Fin t.rows.length} {tx : Transmitter}

theorem mem_turn_row {sch : Schedule} {now : Time} {c : Burst t} (h : c ∈ (sch.turn (.row i now)).2) :
    c = .first i ∨ c = .second i := by
  simp only [Schedule.turn] at h
  split at h
  · cases h
  · rcases List.mem_append.mp h with h | h
    · exact .inl (List.mem_replicate.mp h).2
    · exact .inr (List.mem_replicate.mp h).2

theorem mem_run_row {sch : Schedule} {ws : List Time} {c : Burst t}
    (h : c ∈ (sch.run (ws.map (LoopTurn.row i))).2) : c = .first i ∨ c = .second i := by
  induction ws generalizing sch with
  | nil => cases h
  | cons w ws ih =>
      rcases List.mem_append.mp h with h | h
      · exact mem_turn_row h
      · exact ih h

theorem countP_run (tx : Transmitter) (i : Fin t.rows.length) (sch : Schedule) (ws : List Time) :
    (sch.run (ws.map (LoopTurn.row i))).2.countP tx.owns =
      (sch.sendTimes tx (ws.map (LoopTurn.row i))).length := by
  induction ws generalizing sch with
  | nil => rfl
  | cons w ws ih =>
      rw [List.map_cons, Schedule.run, Schedule.sendTimes, List.countP_append, List.length_append,
        List.length_replicate, ih]
      rfl

/-- The bits of bursts on one row. -/
theorem scheduledBits_row (h : (t.rows.get i).Regular) (ipv6 : Bool) {cs : List (Burst t)}
    (hcs : ∀ c ∈ cs, c = .first i ∨ c = .second i) :
    scheduledBits ipv6 cs =
      cs.countP Transmitter.first.owns * Transmitter.first.bits (t.rows.get i) +
        cs.countP Transmitter.second.owns * Transmitter.second.bits (t.rows.get i) := by
  induction cs with
  | nil => simp [scheduledBits]
  | cons c cs ih =>
      obtain ⟨hc, hrest⟩ := List.forall_mem_cons.mp hcs
      rw [scheduledBits, List.map_cons, List.sum_cons, ← scheduledBits, ih hrest, List.countP_cons,
        List.countP_cons]
      rcases hc with rfl | rfl
      · have hbits : ipBits ipv6 (Burst.sizes ipv6 (.first i)) = _ := ipBits_first h ipv6
        simp only [hbits, Transmitter.owns, if_true, Bool.false_eq_true, if_false]
        ring
      · have hbits : ipBits ipv6 (Burst.sizes ipv6 (.second i)) = _ := ipBits_second h ipv6
        simp only [hbits, Transmitter.owns, if_true, Bool.false_eq_true, if_false]
        ring

/-- A transmitter that sends anything is active, at its base interval. -/
theorem active_of_bits {r : Rate} (h : r.Regular) (hbits : 0 < tx.bits r) : tx.active r = true := by
  cases tx with
  | first =>
      have hburst : 0 < r.burstSize1 := by
        rw [UInt32.lt_iff_toNat_lt]
        by_contra hzero
        rw [Transmitter.bits, Nat.eq_zero_of_not_pos hzero, Nat.zero_mul] at hbits
        exact absurd hbits (Nat.lt_irrefl 0)
      have hiv : 0 < r.txInterval1 := by rw [(h.first hburst).1]; decide
      simp [Transmitter.active, hburst, hiv]
  | second =>
      by_cases hburst : 0 < r.burstSize2
      · have hiv : 0 < r.txInterval2 := by rw [(h.second hburst).1]; decide
        simp [Transmitter.active, hburst, hiv]
      · have haddon : 0 < r.udpAddon2 := by
          by_contra hnone
          have hzero : r.burstSize2.toNat = 0 :=
            Nat.eq_zero_of_not_pos fun hpos => hburst (UInt32.lt_iff_toNat_lt.mpr hpos)
          rw [Transmitter.bits, hzero, if_neg hnone, Nat.zero_mul] at hbits
          exact absurd hbits (Nat.lt_irrefl 0)
        have hiv : 0 < r.txInterval2 := by rw [(h.addon haddon).1]; decide
        simp [Transmitter.active, haddon, hiv]

/-- Bursts per second. -/
def Transmitter.perSecond : Transmitter → Int
  | .first => 10000
  | .second => 1000

theorem interval_regular {r : Rate} (h : r.Regular) (hact : tx.active r = true) :
    tx.interval r * tx.perSecond = 1000000000 ∧ 100000 ≤ tx.interval r ∧
      tx.interval r ≤ 1000000 := by
  cases tx with
  | first =>
      have hburst : 0 < r.burstSize1 := of_decide_eq_true (Bool.and_eq_true_iff.mp hact).2
      rw [Transmitter.interval, (h.first hburst).1]
      decide
  | second =>
      have hiv : r.txInterval2 = baseSendTimer2 := by
        rcases Bool.or_eq_true_iff.mp (Bool.and_eq_true_iff.mp hact).2 with hb | ha
        · exact (h.second (of_decide_eq_true hb)).1
        · exact (h.addon (of_decide_eq_true ha)).1
      rw [Transmitter.interval, hiv]
      decide

/-- One transmitter: its bits over a stretch without a stall. -/
theorem transmitter_rate (h : (t.rows.get i).Regular) (tx : Transmitter) {sch : Schedule}
    {t0 w : Int} {ws : List Int} (hnext : sch.next tx = t0)
    (hgaps : (t0 :: (ws ++ [w])).IsChain fun a b => a ≤ b ∧ b < a + 2000000) :
    let n : Int := (sch.run ((ws ++ [w]).map (LoopTurn.row i))).2.countP tx.owns
    let bits : Int := tx.bits (t.rows.get i)
    tx.perSecond * bits * (w - t0) ≤ n * bits * 1000000000 ∧
      n * bits * 1000000000 ≤ tx.perSecond * bits * (w - t0 + 1000000) := by
  intro n bits
  rcases Nat.eq_zero_or_pos (tx.bits (t.rows.get i)) with hzero | hpos
  · have hbits : bits = 0 := congrArg Nat.cast hzero
    simp [hbits]
  · have hact := active_of_bits h hpos
    have hiv := Transmitter.interval_pos hact
    obtain ⟨hunit, hlow, hhigh⟩ := interval_regular h hact
    -- the wakes are in order and in time
    have hmono : (t0 :: (ws ++ [w])).Pairwise (· ≤ ·) :=
      List.isChain_iff_pairwise.mp (hgaps.imp fun _ _ hab => hab.1)
    have hstart : t0 ≤ w := (List.pairwise_cons.mp hmono).1 w (by simp)
    have htime : Pacing.InTime maxCaught (tx.interval (t.rows.get i)) t0 (ws ++ [w]) := by
      refine Pacing.inTime_of_gaps hiv (le_refl t0) (hgaps.imp fun a b hab => ?_)
      have hcap : (2000000 : Int) ≤ (maxCaught : Int) * tx.interval (t.rows.get i) := by
        have hcaught : (maxCaught : Int) = 20 := rfl
        rw [hcaught]
        linarith
      linarith [hab.2]
    have hn : n = (w - t0) / tx.interval (t.rows.get i) + 1 := by
      have hcount := Pacing.wakes_length hiv (List.pairwise_cons.mp hmono).2 htime
      have hrun := countP_run tx i sch (ws ++ [w])
      rw [(run_active hact sch (ws ++ [w])).2, hnext, hcount] at hrun
      show ((List.countP _ _ : Nat) : Int) = _
      rw [hrun]
      exact Pacing.due_eq_of_le hiv hstart
    -- so many bursts take at least the elapsed time, and at most one interval more
    have hfloor := Int.emod_add_mul_ediv (w - t0) (tx.interval (t.rows.get i))
    have hmod := Int.emod_nonneg (w - t0) hiv.ne'
    have hmod' := Int.emod_lt_of_pos (w - t0) hiv
    have hspan : w - t0 ≤ n * tx.interval (t.rows.get i) ∧
        n * tx.interval (t.rows.get i) ≤ w - t0 + 1000000 := by
      rw [hn, add_mul, one_mul]
      constructor <;> nlinarith
    have hrate : n * bits * 1000000000 = tx.perSecond * bits * (n * tx.interval (t.rows.get i)) := by
      rw [← hunit]
      ring
    have hnonneg : 0 ≤ tx.perSecond * bits := by
      have hper : 0 ≤ tx.perSecond := by cases tx <;> decide
      exact mul_nonneg hper (Int.natCast_nonneg _)
    rw [hrate]
    exact ⟨mul_le_mul_of_nonneg_left hspan.1 hnonneg, mul_le_mul_of_nonneg_left hspan.2 hnonneg⟩

/-- Both transmitters together. -/
theorem row_rate (h : (t.rows.get i).Regular) (ipv6 : Bool) {t0 w : Int} {ws : List Int}
    (hgaps : (t0 :: (ws ++ [w])).IsChain fun a b => a ≤ b ∧ b < a + 2000000) :
    let bits : Int := scheduledBits ipv6 (Schedule.run ⟨t0, t0⟩ ((ws ++ [w]).map (LoopTurn.row i))).2
    (t.rows.get i).bitsPerSecond ipv6 * (w - t0) ≤ bits * 1000000000 ∧
      bits * 1000000000 ≤ (t.rows.get i).bitsPerSecond ipv6 * (w - t0 + 1000000) := by
  intro bits
  have hnext : ∀ tx, Schedule.next ⟨t0, t0⟩ tx = t0 := by
    intro tx
    cases tx <;> rfl
  obtain ⟨hlow₁, hhigh₁⟩ := transmitter_rate h .first (hnext _) hgaps
  obtain ⟨hlow₂, hhigh₂⟩ := transmitter_rate h .second (hnext _) hgaps
  have hbits : bits = _ := congrArg Nat.cast (scheduledBits_row h ipv6
    fun c (hc : c ∈ (Schedule.run ⟨t0, t0⟩ ((ws ++ [w]).map (LoopTurn.row i))).2) => mem_run_row hc)
  rw [hbits, bitsPerSecond_regular h]
  push_cast
  simp only [Transmitter.perSecond] at hlow₁ hhigh₁ hlow₂ hhigh₂
  constructor
  · linarith
  · linarith

end Counting

/-! ## Results -/

/-- **The offered load is the nominal rate.** On a row above row 0 of any of
the tables, from the first due time `t0` on, as long as the loop is woken at
least every 2 ms: the calls of `sendBurst` never panic, and in every execution
in which they all return, whatever part of each batch the kernel accepts, the
first batch of each call has exactly the datagrams its row asks for; and up to
a wake at `w` the bits so offered at the IP layer are those of the nominal rate
over `w - t0`, or up to a millisecond more. -/
theorem offered_rate (jumbo traditionalMTU ipv6 randPayload : Bool)
    (i : Fin (buildRateTable jumbo traditionalMTU).rows.length) (hi : 0 < i.val) (t0 w : Time)
    (ws : List Time)
    (hgaps : (t0 :: (ws ++ [w])).IsChain fun a b => a ≤ b ∧ b < a + 2 * millisecond) :
    let rate := ((buildRateTable jumbo traditionalMTU).rows.get i).bitsPerSecond ipv6
    let bursts := (Schedule.run ⟨t0, t0⟩ ((ws ++ [w]).map (LoopTurn.row i))).2
    let calls := sendBursts ipv6 bursts (.init randPayload)
    (∀ tr e, ¬ calls.Executes tr (.crash e)) ∧
      ∀ tr st, calls.Executes tr (.ret st) →
        (offers tr).map (·.map List.length) = bursts.map (·.sizes ipv6) ∧
        rate * (w - t0) ≤ (offeredBits ipv6 tr : Int) * second ∧
        (offeredBits ipv6 tr : Int) * second ≤ rate * (w - t0 + millisecond) := by
  intro rate bursts calls
  have hrow : ((buildRateTable jumbo traditionalMTU).rows.get i).Regular := by
    have hget : (buildRateTable jumbo traditionalMTU).rows[i.val]? =
        some ((buildRateTable jumbo traditionalMTU).rows.get i) := List.getElem?_eq_getElem i.isLt
    rw [(eq_tableRow hget).2]
    exact tableRow_regular jumbo traditionalMTU hi
  have hplain : ∀ c ∈ bursts, (c.order ipv6).Plain := by
    intro c hc
    rcases mem_run_row hc with rfl | rfl
    · exact ⟨(mask_of_fixed hrow.fixed.1).2, (mask_of_fixed zero_fixed).2⟩
    · exact ⟨(mask_of_fixed hrow.fixed.2.1).2, (mask_of_fixed hrow.fixed.2.2).2⟩
  have hconf : Conforms collecting [] calls _ :=
    sendBursts_offers (buildRateTable_bounded jumbo traditionalMTU) hplain (ready_init randPayload)
  refine ⟨fun tr e he => Conforms.not_crash (hconf.executes he), fun tr st he => ?_⟩
  have hoffers : (offers tr).map (·.map List.length) = bursts.map (·.sizes ipv6) := by
    have hend := hconf.executes he
    rwa [Conforms.ret_iff] at hend
  rw [offeredBits_eq hoffers]
  exact ⟨hoffers, row_rate hrow ipv6 hgaps⟩

/-- Row 1 of the standard table. -/
def rowOne : Fin (buildRateTable false false).rows.length :=
  ⟨1, Nat.lt_of_lt_of_eq (by decide) (buildRateTable_length false false).symm⟩

theorem bitsPerSecond_rowOne :
    ((buildRateTable false false).rows.get rowOne).bitsPerSecond true = 1000000 := by
  have hget : (buildRateTable false false).rows[1]? =
      some ((buildRateTable false false).rows.get rowOne) := List.getElem?_eq_getElem rowOne.isLt
  rw [(eq_tableRow hget).2]
  decide +kernel

/-- Woken after a millisecond and a half, and again after another, with a
kernel that accepts one datagram a call: 2500 bits in 2.5 ms. -/
theorem offered_rate_rowOne : ∃ tr st,
    (sendBursts true (Schedule.run ⟨0, 0⟩ (([1500000] ++ [2500000]).map (LoopTurn.row rowOne))).2
      (.init false)).Executes tr (.ret st) ∧ 2500 ≤ offeredBits true tr := by
  obtain ⟨hok, hall⟩ :=
    offered_rate false false true false rowOne Nat.one_pos 0 2500000 [1500000] (by decide)
  have he := Prog.executes_answered oneByOne (sendBursts true
    (Schedule.run ⟨0, 0⟩ (([1500000] ++ [2500000]).map (LoopTurn.row rowOne))).2 (.init false))
  rcases Prog.answered_ends oneByOne (sendBursts true
    (Schedule.run ⟨0, 0⟩ (([1500000] ++ [2500000]).map (LoopTurn.row rowOne))).2 (.init false))
    with ⟨st, hst⟩ | ⟨e, hcrash⟩
  · rw [hst] at he
    obtain ⟨-, hlow, -⟩ := hall _ st he
    rw [bitsPerSecond_rowOne] at hlow
    refine ⟨_, st, he, ?_⟩
    have hbits : (1000000 * (2500000 - 0) : Int) ≤ (offeredBits true _ : Int) * 1000000000 := hlow
    omega
  · rw [hcrash] at he
    exact (hok _ e he).elim

end Sending

end Diagd.Udpst
