import Diagd.Lib.GoSlice

/-!
# The sending rate table (`srates.go`)

`Rate` is one row, `buildRateTable` the construction both ends of a test
run independently. The three nested loops of region 1 stop each other
through one `stop` flag; `forUntil` is that loop, and all three levels are
instances of it. The nominal rate of a row (`BitsPerSecond`) is in `Nominal`.

What the rest of the server needs from the table is its SIZE: the control
flow depends on the row count alone, so the loops are run a second time on
bare counters (`forUntil_map`) and the counters are evaluated.
-/

namespace Diagd.Udpst

open GoSlice

/-! ## Constants -/

abbrev maxSendingRates : Nat := 1153
abbrev baseSendTimer1 : UInt32 := 100
abbrev baseSendTimer2 : UInt32 := 1000
abbrev maxL3Packet : Nat := 1250
abbrev maxJL3Packet : Nat := 9000
abbrev maxTL3Packet : Nat := 1500
abbrev l3Overhead : Nat := 28
abbrev ipv6AddSize : Nat := 20
abbrev maxBurstSize : Nat := 100
abbrev loadHdrSize : Nat := 32
abbrev maxPayloadSize : Nat := maxL3Packet - l3Overhead
abbrev maxJPayloadSize : Nat := maxJL3Packet - l3Overhead
abbrev maxTPayloadSize : Nat := maxTL3Packet - l3Overhead
abbrev minPayloadSize : Nat := loadHdrSize + ipv6AddSize

/-- In a payload field: the size is randomised per datagram. -/
abbrev rateRandBit : UInt32 := 0x80000000

/-! ## Rows -/

/-- One row of the table (`struct sendingRate`): two transmitters and a
once-per-interval add-on datagram. `{}` is Go's `Rate{}`. -/
structure Rate where
  txInterval1 : UInt32 := 0
  udpPayload1 : UInt32 := 0
  burstSize1 : UInt32 := 0
  txInterval2 : UInt32 := 0
  udpPayload2 : UInt32 := 0
  burstSize2 : UInt32 := 0
  udpAddon2 : UInt32 := 0
  deriving DecidableEq, Repr

/-- `r.marshal(b)`, with the updated buffer as its result. -/
def Rate.marshal (r : Rate) (b : Bytes) : Except Panic Bytes := do
  let b ← putU32 b 0 r.txInterval1
  let b ← putU32 b 4 r.udpPayload1
  let b ← putU32 b 8 r.burstSize1
  let b ← putU32 b 12 r.txInterval2
  let b ← putU32 b 16 r.udpPayload2
  let b ← putU32 b 20 r.burstSize2
  putU32 b 24 r.udpAddon2

def parseRate (b : Bytes) : Except Panic Rate := do
  return {
    txInterval1 := ← getU32 b 0
    udpPayload1 := ← getU32 b 4
    burstSize1 := ← getU32 b 8
    txInterval2 := ← getU32 b 12
    udpPayload2 := ← getU32 b 16
    burstSize2 := ← getU32 b 20
    udpAddon2 := ← getU32 b 24 }

/-- The table and the index at which fast ramping ends. -/
structure RateTable where
  rows : List Rate
  highSpeedThresh : Int
  deriving DecidableEq, Repr

/-! ## Construction -/

/-- `for x := range xs` whose body returns the state and whether to stop. -/
def forUntil {ι σ : Type} (body : ι → σ → σ × Bool) : List ι → σ → σ × Bool
  | [], s => (s, false)
  | x :: xs, s =>
      match body x s with
      | (s', true) => (s', true)
      | (s', false) => forUntil body xs s'

/-- The body of the `j` loop: one add-on row on top of `sr`. -/
def addonRow (sr : Rate) (j : Nat) (rows : List Rate) : List Rate × Bool :=
  let add := { sr with
    txInterval2 := baseSendTimer2
    udpAddon2 := UInt32.ofNat (j * 1000 / 8 - l3Overhead) }
  let rows := rows ++ [add]
  (rows, decide (1000 < rows.length))

/-- The plain row of cell `(k, i)`: transmitter 1 sends `k` datagrams a
burst, transmitter 2 sends `i`. -/
def plainRow (payload : UInt32) (k i : Nat) : Rate :=
  let sr : Rate := {}
  let sr := if 0 < k then
      { sr with
        txInterval1 := baseSendTimer1
        udpPayload1 := payload
        burstSize1 := UInt32.ofNat k }
    else sr
  if 0 < i then
    { sr with
      txInterval2 := baseSendTimer2
      udpPayload2 := payload
      burstSize2 := UInt32.ofNat i }
  else sr

/-- The body of the `i` loop: the plain row of the cell, then its add-on
rows. -/
def cellRows (traditionalMTU : Bool) (jmax kmax : Nat) (payload : UInt32) (k i : Nat)
    (rows : List Rate) : List Rate × Bool :=
  let sr := plainRow payload k i
  if k = 0 ∧ i = 0 then
    -- row 0, the connectivity keepalive rate
    let sr := { sr with txInterval2 := 50000, udpAddon2 := payload ||| rateRandBit }
    forUntil (addonRow sr) (List.range' 1 jmax) (rows ++ [sr])
  else if ¬ traditionalMTU ∧ k = kmax then
    (rows ++ [sr], true)
  else
    forUntil (addonRow sr) (List.range' 1 jmax) (rows ++ [sr])

/-- Region 1: the `k` loop over the `i` loop. -/
def region1 (traditionalMTU : Bool) (jmax kmax : Nat) (payload : UInt32) : List Rate :=
  (forUntil
    (fun k rows => forUntil (cellRows traditionalMTU jmax kmax payload k) (List.range 10) rows)
    (List.range (kmax + 1)) []).1

/-- The jumbo rows of region 2: `l3` from 1375 to 9000 in steps of 125. -/
def jumboRows : List Rate :=
  (List.range' (maxL3Packet + 125) ((maxJL3Packet - (maxL3Packet + 125)) / 125 + 1) 125).map
    fun l3 => {
      txInterval1 := baseSendTimer1
      udpPayload1 := UInt32.ofNat (l3 - l3Overhead)
      burstSize1 := 10 }

/-- The last loop, `for j := jmax; len(t.Rows) < maxSendingRates; j++`, run
for the `n` rows that are missing. -/
def fillRows (payload : UInt32) : Nat → Nat → List Rate → List Rate
  | 0, _, rows => rows
  | n + 1, j, rows =>
      let burst := if maxBurstSize ≤ j then UInt32.ofNat maxBurstSize else UInt32.ofNat j
      fillRows payload n (j + 1) (rows ++ [{
        txInterval1 := baseSendTimer1
        udpPayload1 := payload
        burstSize1 := burst }])

/-- Region 1 with the bounds `jmax`, `kmax` and the payload of the MTU
setting. -/
def region1Rows (traditionalMTU : Bool) : List Rate :=
  if traditionalMTU then region1 true 11 8 (UInt32.ofNat maxTPayloadSize)
  else region1 false 9 10 (UInt32.ofNat maxPayloadSize)

/-- First burst size and payload of the last loop. -/
def region2Start (jumbo traditionalMTU : Bool) : Nat × Nat :=
  if jumbo then (11, maxJPayloadSize)
  else if traditionalMTU then (9, maxTPayloadSize)
  else (11, maxPayloadSize)

def buildRateTable (jumbo traditionalMTU : Bool) : RateTable :=
  let low := region1Rows traditionalMTU
  let rows := if jumbo then low ++ jumboRows else low
  let start := region2Start jumbo traditionalMTU
  { rows := fillRows (UInt32.ofNat start.2) (maxSendingRates - rows.length) start.1 rows
    highSpeedThresh := low.length - 1 }

/-! ## The size of the table -/

/-- The loop commutes with any abstraction of its state that its body
commutes with. -/
theorem forUntil_map {ι σ τ : Type} {f : ι → σ → σ × Bool} {g : ι → τ → τ × Bool} (φ : σ → τ)
    (h : ∀ x s, (φ (f x s).1, (f x s).2) = g x (φ s)) (xs : List ι) (s : σ) :
    (φ (forUntil f xs s).1, (forUntil f xs s).2) = forUntil g xs (φ s) := by
  induction xs generalizing s with
  | nil => rfl
  | cons x xs ih =>
      have hx := h x s
      rcases hf : f x s with ⟨s', stop⟩
      rw [hf] at hx
      cases stop <;> simp only [forUntil, hf, ← hx, ih]

/-- The row counter of the `j` loop. -/
def addonCount (_j n : Nat) : Nat × Bool := (n + 1, decide (1000 < n + 1))

/-- The row counter of the `i` loop. -/
def cellCount (traditionalMTU : Bool) (jmax kmax k i n : Nat) : Nat × Bool :=
  if ¬ (k = 0 ∧ i = 0) ∧ ¬ traditionalMTU ∧ k = kmax then (n + 1, true)
  else forUntil addonCount (List.range' 1 jmax) (n + 1)

theorem addonRow_count (sr : Rate) (j : Nat) (rows : List Rate) :
    ((addonRow sr j rows).1.length, (addonRow sr j rows).2) = addonCount j rows.length := by
  simp [addonRow, addonCount]

theorem addonRows_count (sr : Rate) (js : List Nat) (rows : List Rate) :
    ((forUntil (addonRow sr) js (rows ++ [sr])).1.length,
      (forUntil (addonRow sr) js (rows ++ [sr])).2)
      = forUntil addonCount js (rows.length + 1) := by
  have h := forUntil_map List.length (addonRow_count sr) js (rows ++ [sr])
  simpa using h

theorem cellRows_count (traditionalMTU : Bool) (jmax kmax : Nat) (payload : UInt32) (k i : Nat)
    (rows : List Rate) :
    ((cellRows traditionalMTU jmax kmax payload k i rows).1.length,
      (cellRows traditionalMTU jmax kmax payload k i rows).2)
      = cellCount traditionalMTU jmax kmax k i rows.length := by
  unfold cellRows cellCount
  by_cases h0 : k = 0 ∧ i = 0
  · have hc : ¬ (¬ (k = 0 ∧ i = 0) ∧ ¬ traditionalMTU ∧ k = kmax) := fun h => h.1 h0
    rw [if_pos h0, if_neg hc]
    exact addonRows_count _ _ rows
  · rw [if_neg h0]
    by_cases hk : ¬ traditionalMTU ∧ k = kmax
    · have hc : ¬ (k = 0 ∧ i = 0) ∧ ¬ traditionalMTU ∧ k = kmax := ⟨h0, hk⟩
      rw [if_pos hk, if_pos hc, List.length_append, List.length_singleton]
    · have hc : ¬ (¬ (k = 0 ∧ i = 0) ∧ ¬ traditionalMTU ∧ k = kmax) := fun h => hk h.2
      rw [if_neg hk, if_neg hc]
      exact addonRows_count _ _ rows

/-- The number of rows of region 1, by counting. -/
theorem region1_length (traditionalMTU : Bool) (jmax kmax : Nat) (payload : UInt32) :
    (region1 traditionalMTU jmax kmax payload).length
      = (forUntil (fun k n => forUntil (cellCount traditionalMTU jmax kmax k) (List.range 10) n)
          (List.range (kmax + 1)) 0).1 := by
  have h := forUntil_map List.length
    (fun k rows => forUntil_map List.length
      (cellRows_count traditionalMTU jmax kmax payload k) (List.range 10) rows)
    (List.range (kmax + 1)) []
  exact congrArg Prod.fst h

theorem fillRows_length (payload : UInt32) (n j : Nat) (rows : List Rate) :
    (fillRows payload n j rows).length = rows.length + n := by
  induction n generalizing j rows with
  | zero => rfl
  | succ n ih =>
      rw [fillRows, ih]
      simp only [List.length_append, List.length_singleton]
      omega

/-- Region 1 has rows `0..1000` for both payload progressions. -/
theorem region1Rows_length (traditionalMTU : Bool) :
    (region1Rows traditionalMTU).length = 1001 := by
  unfold region1Rows
  split
  · rw [region1_length]
    decide +kernel
  · rw [region1_length]
    decide +kernel

theorem jumboRows_length : jumboRows.length = 62 := by
  rw [jumboRows, List.length_map, List.length_range']
  rfl

/-- The last loop tops the table up to `maxSendingRates` rows. -/
theorem fillRows_full (payload : UInt32) (j : Nat) {rows : List Rate}
    (h : rows.length ≤ maxSendingRates) :
    (fillRows payload (maxSendingRates - rows.length) j rows).length = maxSendingRates := by
  rw [fillRows_length]
  omega

/-- **The table has `maxSendingRates` rows** whatever the two settings. -/
theorem buildRateTable_length (jumbo traditionalMTU : Bool) :
    (buildRateTable jumbo traditionalMTU).rows.length = maxSendingRates := by
  unfold buildRateTable
  apply fillRows_full
  split
  · rw [List.length_append, region1Rows_length, jumboRows_length]
    decide
  · rw [region1Rows_length]
    decide

/-- Fast ramping ends at row 1000 in every table. -/
theorem buildRateTable_highSpeedThresh (jumbo traditionalMTU : Bool) :
    (buildRateTable jumbo traditionalMTU).highSpeedThresh = 1000 := by
  unfold buildRateTable
  simp only [region1Rows_length]
  rfl

/-! ## The bursts of the table -/

/-- What every iteration preserves, the loop preserves. -/
theorem forUntil_preserves {ι σ : Type} {f : ι → σ → σ × Bool} {I : σ → Prop} {xs : List ι}
    (h : ∀ x ∈ xs, ∀ s, I s → I (f x s).1) {s : σ} (hs : I s) : I (forUntil f xs s).1 := by
  induction xs generalizing s with
  | nil => exact hs
  | cons x xs ih =>
      have hx := h x List.mem_cons_self s hs
      have hrest : ∀ s, I s → I (forUntil f xs s).1 := fun s hs =>
        ih (fun y hy => h y (List.mem_cons_of_mem x hy)) hs
      rcases hf : f x s with ⟨s', stop⟩
      rw [hf] at hx
      cases stop
      · simpa only [forUntil, hf] using hrest s' hx
      · simpa only [forUntil, hf] using hx

/-- Neither transmitter sends more than `maxBurstSize` datagrams at once. -/
def Rate.Bounded (r : Rate) : Prop :=
  r.burstSize1.toNat ≤ maxBurstSize ∧ r.burstSize2.toNat ≤ maxBurstSize

def AllBounded (rows : List Rate) : Prop := ∀ r ∈ rows, r.Bounded

theorem AllBounded.snoc {rows : List Rate} (h : AllBounded rows) {r : Rate} (hr : r.Bounded) :
    AllBounded (rows ++ [r]) := by
  intro x hx
  rcases List.mem_append.mp hx with hold | hnew
  · exact h x hold
  · exact List.mem_singleton.mp hnew ▸ hr

theorem plainRow_bounded (payload : UInt32) {k i : Nat} (hk : k ≤ maxBurstSize)
    (hi : i ≤ maxBurstSize) : (plainRow payload k i).Bounded := by
  have hof : ∀ n, n ≤ maxBurstSize → (UInt32.ofNat n).toNat ≤ maxBurstSize := by
    intro n hn
    rw [UInt32.toNat_ofNat']
    exact Nat.le_trans (Nat.mod_le _ _) hn
  unfold plainRow
  by_cases h0 : 0 < k
  · by_cases h1 : 0 < i
    · simp only [if_pos h0, if_pos h1]
      exact ⟨hof k hk, hof i hi⟩
    · simp only [if_pos h0, if_neg h1]
      exact ⟨hof k hk, Nat.zero_le _⟩
  · by_cases h1 : 0 < i
    · simp only [if_neg h0, if_pos h1]
      exact ⟨Nat.zero_le _, hof i hi⟩
    · simp only [if_neg h0, if_neg h1]
      exact ⟨Nat.zero_le _, Nat.zero_le _⟩

/-- The add-on rows have the bursts of the row they are built on. -/
theorem addonRows_bounded {sr : Rate} (hsr : sr.Bounded) (js : List Nat) {rows : List Rate}
    (h : AllBounded rows) : AllBounded (forUntil (addonRow sr) js (rows ++ [sr])).1 :=
  forUntil_preserves (fun _ _ _ hrows => hrows.snoc hsr) (h.snoc hsr)

theorem cellRows_bounded (traditionalMTU : Bool) (jmax kmax : Nat) (payload : UInt32) {k i : Nat}
    (hk : k ≤ maxBurstSize) (hi : i ≤ maxBurstSize) {rows : List Rate} (h : AllBounded rows) :
    AllBounded (cellRows traditionalMTU jmax kmax payload k i rows).1 := by
  have hplain := plainRow_bounded payload hk hi
  unfold cellRows
  split
  · -- row 0 has the (empty) bursts of its plain row
    have hrow0 : Rate.Bounded { plainRow payload k i with
        txInterval2 := 50000, udpAddon2 := payload ||| rateRandBit } := hplain
    exact addonRows_bounded hrow0 _ h
  · split
    · exact h.snoc hplain
    · exact addonRows_bounded hplain _ h

theorem region1_bounded (traditionalMTU : Bool) (jmax : Nat) {kmax : Nat} (payload : UInt32)
    (hkmax : kmax ≤ maxBurstSize) : AllBounded (region1 traditionalMTU jmax kmax payload) := by
  refine forUntil_preserves (fun k hk rows hrows => ?_) (by simp [AllBounded])
  refine forUntil_preserves (fun i hi rows hrows => ?_) hrows
  have hk' := List.mem_range.mp hk
  have hi' : i ≤ maxBurstSize := Nat.le_trans (Nat.le_of_lt (List.mem_range.mp hi)) (by decide)
  exact cellRows_bounded traditionalMTU jmax kmax payload (by omega) hi' hrows

theorem fillRows_bounded (payload : UInt32) (n j : Nat) {rows : List Rate} (h : AllBounded rows) :
    AllBounded (fillRows payload n j rows) := by
  induction n generalizing j rows with
  | zero => exact h
  | succ n ih =>
      refine ih (j + 1) (h.snoc ⟨?_, Nat.zero_le _⟩)
      show (if maxBurstSize ≤ j then _ else _ : UInt32).toNat ≤ maxBurstSize
      split
      · decide
      · rw [UInt32.toNat_ofNat']
        exact Nat.le_trans (Nat.mod_le _ _) (by omega)

/-- **Every burst of the table fits**, whatever the two settings. -/
theorem buildRateTable_bounded (jumbo traditionalMTU : Bool) :
    AllBounded (buildRateTable jumbo traditionalMTU).rows := by
  have hlow : AllBounded (region1Rows traditionalMTU) := by
    unfold region1Rows
    split
    · exact region1_bounded _ _ _ (by decide)
    · exact region1_bounded _ _ _ (by decide)
  have hjumbo : AllBounded jumboRows := by
    intro r hr
    obtain ⟨l3, -, rfl⟩ := List.mem_map.mp hr
    have hten : (10 : UInt32).toNat ≤ maxBurstSize := by decide
    exact ⟨hten, Nat.zero_le _⟩
  apply fillRows_bounded
  split
  · intro r hr
    exact (List.mem_append.mp hr).elim (hlow r) (hjumbo r)
  · exact hlow

end Diagd.Udpst
