import Diagd.Udpst.Session

/-!
# The rows of the table and their nominal rates (`srates.go`)

The loops of `buildRateTable` stop each other and append as they go; here the
table is given by its indices. Up to 1 Gbit/s the index of a row reads as
three digits: `k` datagrams of transmitter 1, `i` datagrams of transmitter 2
and an add-on of `j` Mbit/s, in cells of 10 rows (12 with the traditional
MTU). The loop invariant is that the rows so far are an initial part of this
grid.

`bitsPerSecond` is exact. The source computes in `float64`, but every value
that occurs for a row of the table is an integer below `2 ^ 53`.
-/

namespace Diagd.Udpst

open GoSlice

/-! ## The code -/

/-- The closure `sized`: bytes of a datagram at the IP layer, a randomised
one counted at its average size. -/
def Rate.sized (ipv6 : Bool) (v : UInt32) : Int :=
  let ipAdd : Int := if ipv6 then ipv6AddSize else 0
  let payload : Int := (v &&& ~~~rateRandBit).toNat - ipAdd
  let payload := if v &&& rateRandBit ≠ 0 then (minPayloadSize - ipAdd + payload).tdiv 2 else payload
  payload + l3Overhead + ipAdd

/-- `1e6/iv`, a division of `uint32`. -/
def perSecond (iv : UInt32) : Int := ((1000000 : UInt32) / iv).toNat

/-- The nominal rate of the row at the IP layer. -/
def Rate.bitsPerSecond (r : Rate) (ipv6 : Bool) : Int :=
  let bytesPerSec : Int := 0
  let bytesPerSec := if 0 < r.burstSize1 ∧ 0 < r.txInterval1 then
      bytesPerSec + perSecond r.txInterval1 * r.burstSize1.toNat * Rate.sized ipv6 r.udpPayload1
    else bytesPerSec
  let bytesPerSec := if 0 < r.burstSize2 ∧ 0 < r.txInterval2 then
      bytesPerSec + perSecond r.txInterval2 * r.burstSize2.toNat * Rate.sized ipv6 r.udpPayload2
    else bytesPerSec
  let bytesPerSec := if 0 < r.udpAddon2 ∧ 0 < r.txInterval2 then
      bytesPerSec + perSecond r.txInterval2 * Rate.sized ipv6 r.udpAddon2
    else bytesPerSec
  bytesPerSec * 8

/-! ## The table by its indices -/

/-- Row 0. -/
def keepaliveRow (payload : UInt32) : Rate where
  txInterval2 := 50000
  udpAddon2 := payload ||| rateRandBit

/-- Row `n` up to 1 Gbit/s, in cells of `w` rows. -/
def gridRow (payload : UInt32) (w n : Nat) : Rate :=
  if n = 0 then keepaliveRow payload
  else if n % w = 0 then plainRow payload (n / (10 * w)) (n / w % 10)
  else { plainRow payload (n / (10 * w)) (n / w % 10) with
    txInterval2 := baseSendTimer2
    udpAddon2 := UInt32.ofNat (n % w * 1000 / 8 - l3Overhead) }

/-- A row above 1 Gbit/s: one transmitter. -/
def fastRow (payload : UInt32) (burst : Nat) : Rate where
  txInterval1 := baseSendTimer1
  udpPayload1 := payload
  burstSize1 := UInt32.ofNat burst

/-- The rows are an initial part of the grid. -/
def OnGrid (payload : UInt32) (w : Nat) (rows : List Rate) : Prop :=
  rows = (List.range rows.length).map (gridRow payload w)

/-- The rows are the first `n` of the grid. -/
def GridTo (payload : UInt32) (w n : Nat) (rows : List Rate) : Prop :=
  OnGrid payload w rows ∧ rows.length = n

/-- A loop ends with `J` in any case, and with `I` unless it was stopped. -/
def LoopEnds {σ : Type} (J I : σ → Prop) (r : σ × Bool) : Prop := J r.1 ∧ (r.2 = false → I r.1)

/-- The loop over `a, …, a + n - 1`: `I j` holds before iteration `j`. -/
theorem forUntil_range' {σ : Type} {f : Nat → σ → σ × Bool} {I : Nat → σ → Prop} {J : σ → Prop}
    {a n : Nat} (hJ : ∀ j s, I j s → J s)
    (h : ∀ j, a ≤ j → j < a + n → ∀ s, I j s → LoopEnds J (I (j + 1)) (f j s)) {s : σ} (hs : I a s) :
    LoopEnds J (I (a + n)) (forUntil f (List.range' a n) s) := by
  induction n generalizing a s with
  | zero => exact ⟨hJ a s hs, fun _ => hs⟩
  | succ n ih =>
      obtain ⟨hstop, hgo⟩ := h a (Nat.le_refl a) (by omega) s hs
      rw [List.range'_succ, forUntil]
      rcases hf : f a s with ⟨s', stop⟩
      rw [hf] at hstop hgo
      cases stop with
      | true => exact ⟨hstop, fun hgoes => absurd hgoes.symm Bool.false_ne_true⟩
      | false =>
          rw [show a + (n + 1) = a + 1 + n by omega]
          exact ih (fun j hlow hj => h j (by omega) (by omega)) (hgo rfl)

section Grid

variable {payload : UInt32} {w : Nat} {rows : List Rate}

theorem OnGrid.snoc (h : OnGrid payload w rows) {r : Rate} (hr : r = gridRow payload w rows.length) :
    OnGrid payload w (rows ++ [r]) := by
  unfold OnGrid at h ⊢
  rw [List.length_append, List.length_singleton, List.range_succ, List.map_append, ← h, hr]
  rfl

theorem GridTo.snoc {n : Nat} (h : GridTo payload w n rows) {r : Rate}
    (hr : r = gridRow payload w n) : GridTo payload w (n + 1) (rows ++ [r]) := by
  obtain ⟨hgrid, rfl⟩ := h
  exact ⟨hgrid.snoc hr, by rw [List.length_append, List.length_singleton]⟩

/-- The digits of an index. -/
theorem grid_digits {k i j : Nat} (hi : i < 10) (hj : j < w) :
    ((10 * k + i) * w + j) / (10 * w) = k ∧ ((10 * k + i) * w + j) / w % 10 = i ∧
      ((10 * k + i) * w + j) % w = j := by
  have hw : 0 < w := by omega
  have hdiv : ((10 * k + i) * w + j) / w = 10 * k + i := by
    rw [Nat.add_comm, Nat.add_mul_div_right _ _ hw, Nat.div_eq_of_lt hj, Nat.zero_add]
  refine ⟨?_, ?_, ?_⟩
  · rw [Nat.mul_comm 10 w, ← Nat.div_div_eq_div_mul, hdiv]
    omega
  · rw [hdiv]
    omega
  · rw [Nat.add_comm, Nat.add_mul_mod_self_right, Nat.mod_eq_of_lt hj]

/-- The first row of a cell. -/
theorem gridRow_plain (payload : UInt32) {k i : Nat} (hi : i < 10) (hw : 0 < w)
    (h : ¬ (k = 0 ∧ i = 0)) :
    gridRow payload w ((10 * k + i) * w) = plainRow payload k i := by
  obtain ⟨hk, hi', hj⟩ := grid_digits (k := k) hi hw
  rw [Nat.add_zero] at hk hi' hj
  have hne : (10 * k + i) * w ≠ 0 := Nat.mul_ne_zero (by omega) (by omega)
  rw [gridRow, if_neg hne, if_pos hj, hk, hi']

/-- The other rows of a cell. -/
theorem gridRow_addon {k i j : Nat} (hi : i < 10) (hj : j < w) (h0 : 0 < j) :
    gridRow payload w ((10 * k + i) * w + j) =
      { plainRow payload k i with
        txInterval2 := baseSendTimer2
        udpAddon2 := UInt32.ofNat (j * 1000 / 8 - l3Overhead) } := by
  obtain ⟨hk, hi', hj'⟩ := grid_digits (k := k) hi hj
  rw [gridRow, if_neg (by omega), hj', if_neg (by omega), hk, hi']

/-- A row and the add-on rows on top of it fill a cell. Only the bursts of the
row matter for the latter. -/
theorem addonRows_onGrid {k i : Nat} (hi : i < 10) {sr : Rate}
    (hsr : { sr with txInterval2 := 0, udpAddon2 := 0 } =
      { plainRow payload k i with txInterval2 := 0, udpAddon2 := 0 })
    (hw : 0 < w) (h : GridTo payload w ((10 * k + i) * w) rows)
    (hfirst : sr = gridRow payload w ((10 * k + i) * w)) :
    LoopEnds (OnGrid payload w) (GridTo payload w ((10 * k + (i + 1)) * w))
      (forUntil (addonRow sr) (List.range' 1 (w - 1)) (rows ++ [sr])) := by
  have hend : (10 * k + (i + 1)) * w = (10 * k + i) * w + (1 + (w - 1)) := by
    rw [← Nat.add_assoc, Nat.succ_mul]
    omega
  rw [hend]
  refine forUntil_range' (I := fun j => GridTo payload w ((10 * k + i) * w + j)) (fun _ _ hI => hI.1)
    (fun j hpos hj rows hI => ?_) (h.snoc hfirst)
  have hsnoc : GridTo payload w ((10 * k + i) * w + (j + 1)) (addonRow sr j rows).1 := by
    refine hI.snoc ?_
    rw [gridRow_addon hi (by omega) hpos]
    exact congrArg (fun r : Rate => { r with
      txInterval2 := baseSendTimer2
      udpAddon2 := UInt32.ofNat (j * 1000 / 8 - l3Overhead) }) hsr
  exact ⟨hsnoc.1, fun _ => hsnoc⟩

theorem cellRows_onGrid (traditionalMTU : Bool) (kmax : Nat) {k i : Nat} (hi : i < 10) (hw : 0 < w)
    (h : GridTo payload w ((10 * k + i) * w) rows) :
    LoopEnds (OnGrid payload w) (GridTo payload w ((10 * k + (i + 1)) * w))
      (cellRows traditionalMTU (w - 1) kmax payload k i rows) := by
  unfold cellRows
  by_cases h0 : k = 0 ∧ i = 0
  · rw [if_pos h0]
    obtain ⟨rfl, rfl⟩ := h0
    exact addonRows_onGrid hi rfl hw h (by rw [Nat.zero_mul]; rfl)
  · rw [if_neg h0]
    have hplain := gridRow_plain payload hi hw h0
    split
    · exact ⟨(h.snoc hplain.symm).1, nofun⟩
    · exact addonRows_onGrid hi rfl hw h hplain.symm

theorem region1_onGrid (traditionalMTU : Bool) (kmax : Nat) (payload : UInt32) (hw : 0 < w) :
    OnGrid payload w (region1 traditionalMTU (w - 1) kmax payload) := by
  have hrows : ∀ k rows, GridTo payload w (10 * k * w) rows →
      LoopEnds (OnGrid payload w) (GridTo payload w (10 * (k + 1) * w))
        (forUntil (cellRows traditionalMTU (w - 1) kmax payload k) (List.range 10) rows) := by
    intro k rows h
    rw [List.range_eq_range']
    exact forUntil_range' (I := fun i => GridTo payload w ((10 * k + i) * w)) (fun _ _ hI => hI.1)
      (fun i _ hi rows hI => cellRows_onGrid traditionalMTU kmax (by omega) hw hI) h
  have hnil : GridTo payload w (10 * 0 * w) [] := ⟨rfl, by simp⟩
  unfold region1
  rw [List.range_eq_range' (n := kmax + 1)]
  exact (forUntil_range' (I := fun k => GridTo payload w (10 * k * w)) (fun _ _ hI => hI.1)
    (fun k _ _ rows hI => hrows k rows hI) hnil).1

end Grid

/-- Rows per cell of the grid. -/
def cellWidth (traditionalMTU : Bool) : Nat := if traditionalMTU then 12 else 10

/-- The payload of the grid. -/
def gridPayload (traditionalMTU : Bool) : Nat :=
  if traditionalMTU then maxTPayloadSize else maxPayloadSize

/-- Region 1 is the grid up to row 1000. -/
theorem region1Rows_eq (traditionalMTU : Bool) :
    region1Rows traditionalMTU = (List.range 1001).map
      (gridRow (UInt32.ofNat (gridPayload traditionalMTU)) (cellWidth traditionalMTU)) := by
  have hgrid : OnGrid (UInt32.ofNat (gridPayload traditionalMTU)) (cellWidth traditionalMTU)
      (region1Rows traditionalMTU) := by
    cases traditionalMTU with
    | true =>
        rw [region1Rows, if_pos rfl, cellWidth, if_pos rfl, gridPayload, if_pos rfl]
        exact region1_onGrid true 8 _ (Nat.succ_pos 11)
    | false =>
        rw [region1Rows, if_neg nofun, cellWidth, if_neg nofun, gridPayload, if_neg nofun]
        exact region1_onGrid false 10 _ (Nat.succ_pos 9)
  rw [OnGrid, region1Rows_length] at hgrid
  exact hgrid

theorem fillRows_eq (payload : UInt32) (n j : Nat) (rows : List Rate) :
    fillRows payload n j rows =
      rows ++ (List.range' j n).map fun b => fastRow payload (min b maxBurstSize) := by
  induction n generalizing j rows with
  | zero => simp [fillRows]
  | succ n ih =>
      have hburst : (if maxBurstSize ≤ j then UInt32.ofNat maxBurstSize else UInt32.ofNat j) =
          UInt32.ofNat (min j maxBurstSize) := by
        split
        · rename_i hge
          rw [Nat.min_eq_right hge]
        · rename_i hlt
          rw [Nat.min_eq_left (Nat.le_of_not_ge hlt)]
      rw [fillRows, ih, List.range'_succ, List.map_cons, List.append_assoc, hburst]
      rfl

/-- Row `n` of the table. Above 1 Gbit/s the jumbo rows come first, then the
bursts grow up to `maxBurstSize`. -/
def tableRow (jumbo traditionalMTU : Bool) (n : Nat) : Rate :=
  if n ≤ 1000 then
    gridRow (UInt32.ofNat (gridPayload traditionalMTU)) (cellWidth traditionalMTU) n
  else if jumbo then
    if n ≤ 1062 then fastRow (UInt32.ofNat (maxL3Packet + (n - 1000) * 125 - l3Overhead)) 10
    else fastRow (UInt32.ofNat maxJPayloadSize) (min (n - 1052) maxBurstSize)
  else if traditionalMTU then fastRow (UInt32.ofNat maxTPayloadSize) (min (n - 992) maxBurstSize)
  else fastRow (UInt32.ofNat maxPayloadSize) (min (n - 990) maxBurstSize)

/-- A last loop that starts with burst `j` at row `a`. -/
theorem getElem?_fillRows {payload : UInt32} {j a n : Nat} {rows : List Rate} (hlen : rows.length = a)
    (hlow : a ≤ n) (hn : n < maxSendingRates) :
    (fillRows payload (maxSendingRates - rows.length) j rows)[n]? =
      some (fastRow payload (min (n - a + j) maxBurstSize)) := by
  rw [fillRows_eq, List.getElem?_append_right (hlen ▸ hlow), List.getElem?_map, hlen,
    List.getElem?_range' (by omega), Option.map_some, Nat.one_mul, Nat.add_comm j]

/-- The rows before the last loop. -/
theorem getElem?_fillRows_left {payload : UInt32} {j m n : Nat} {rows : List Rate}
    (hn : n < rows.length) : (fillRows payload m j rows)[n]? = rows[n]? := by
  rw [fillRows_eq, List.getElem?_append_left hn]

theorem getElem?_jumboRows {n : Nat} (hn : n < 62) :
    jumboRows[n]? = some (fastRow (UInt32.ofNat (maxL3Packet + (n + 1) * 125 - l3Overhead)) 10) := by
  have hl3 : maxL3Packet + 125 + 125 * n = maxL3Packet + (n + 1) * 125 := by ring
  rw [jumboRows, List.getElem?_map, List.getElem?_range' (by omega), Option.map_some, hl3]
  rfl

theorem getElem?_region1Rows (jumbo traditionalMTU : Bool) {n : Nat} (hlow : n ≤ 1000) :
    (region1Rows traditionalMTU)[n]? = some (tableRow jumbo traditionalMTU n) := by
  rw [region1Rows_eq, List.getElem?_map, List.getElem?_range (by omega), Option.map_some, tableRow,
    if_pos hlow]

/-- Above 1 Gbit/s without jumbo frames: the last loop. -/
theorem tableRow_fast (traditionalMTU : Bool) {n : Nat} (hhigh : 1000 < n) :
    tableRow false traditionalMTU n =
      fastRow (UInt32.ofNat (region2Start false traditionalMTU).2)
        (min (n - 1001 + (region2Start false traditionalMTU).1) maxBurstSize) := by
  rw [tableRow, if_neg (Nat.not_le.mpr hhigh), if_neg Bool.false_ne_true]
  cases traditionalMTU with
  | true => rw [if_pos rfl, show n - 992 = n - 1001 + 9 by omega]; rfl
  | false => rw [if_neg Bool.false_ne_true, show n - 990 = n - 1001 + 11 by omega]; rfl

/-- **The table by its indices.** -/
theorem getElem?_buildRateTable (jumbo traditionalMTU : Bool) {n : Nat} (hn : n < maxSendingRates) :
    (buildRateTable jumbo traditionalMTU).rows[n]? = some (tableRow jumbo traditionalMTU n) := by
  have hlen := region1Rows_length traditionalMTU
  simp only [buildRateTable]
  cases jumbo with
  | true =>
      rw [if_pos rfl, region2Start, if_pos rfl]
      have hlen' : (region1Rows traditionalMTU ++ jumboRows).length = 1063 := by
        rw [List.length_append, hlen, jumboRows_length]
      by_cases hfill : 1063 ≤ n
      · rw [getElem?_fillRows hlen' hfill hn, tableRow, if_neg (by omega), if_pos rfl,
          if_neg (by omega), show n - 1063 + 11 = n - 1052 by omega]
      · rw [getElem?_fillRows_left (by omega)]
        by_cases hlow : n ≤ 1000
        · rw [List.getElem?_append_left (by omega), getElem?_region1Rows true traditionalMTU hlow]
        · rw [List.getElem?_append_right (by omega), hlen, getElem?_jumboRows (by omega), tableRow,
            if_neg hlow, if_pos rfl, if_pos (by omega), show n - 1001 + 1 = n - 1000 by omega]
  | false =>
      rw [if_neg Bool.false_ne_true]
      by_cases hlow : n ≤ 1000
      · rw [getElem?_fillRows_left (by omega), getElem?_region1Rows false traditionalMTU hlow]
      · rw [getElem?_fillRows hlen (by omega) hn, tableRow_fast traditionalMTU (by omega)]

/-- The table, written so that a row can be evaluated without the ones before. -/
def indexedTable (jumbo traditionalMTU : Bool) : RateTable where
  rows := (List.range maxSendingRates).map (tableRow jumbo traditionalMTU)
  highSpeedThresh := 1000

theorem indexedTable_eq (jumbo traditionalMTU : Bool) :
    indexedTable jumbo traditionalMTU = buildRateTable jumbo traditionalMTU := by
  have hrows : (buildRateTable jumbo traditionalMTU).rows =
      (List.range maxSendingRates).map (tableRow jumbo traditionalMTU) := by
    refine List.ext_getElem? fun n => ?_
    by_cases hn : n < maxSendingRates
    · rw [getElem?_buildRateTable jumbo traditionalMTU hn, List.getElem?_map,
        List.getElem?_range hn, Option.map_some]
    · rw [List.getElem?_eq_none, List.getElem?_eq_none]
      · simpa using hn
      · rw [buildRateTable_length]
        exact Nat.le_of_not_lt hn
  rw [indexedTable, ← hrows, ← buildRateTable_highSpeedThresh jumbo traditionalMTU]

/-- The same server, on which a run can be evaluated. -/
def Server.indexed (srv : Server) : Server :=
  { srv with
    table := indexedTable srv.cfg.jumbo srv.cfg.traditionalMTU
    table_eq := indexedTable_eq _ _ }

theorem Server.indexed_eq (srv : Server) : srv.indexed = srv := by
  obtain ⟨cfg, table, rfl, hmax⟩ := srv
  simp only [Server.indexed, indexedTable_eq]

/-! ## The nominal rates -/

section Rates

variable {ipv6 : Bool} {payload : UInt32}

theorem l3Overhead_eq : l3Overhead = 28 := rfl

theorem maxBurstSize_eq : maxBurstSize = 100 := rfl

/-- A field without the bit for randomised sizes. -/
theorem mask_of_fixed {v : UInt32} (h : v.toNat < 2 ^ 31) :
    v &&& ~~~rateRandBit = v ∧ v &&& rateRandBit = 0 := by
  constructor
  · rw [← UInt32.toNat_inj, UInt32.toNat_and]
    exact (Nat.and_two_pow_sub_one_eq_mod v.toNat 31).trans (Nat.mod_eq_of_lt h)
  · rw [← UInt32.toNat_inj, UInt32.toNat_and]
    refine (Nat.and_two_pow v.toNat 31).trans ?_
    rw [Nat.testBit_lt_two_pow h]
    rfl

theorem sized_of_lt {v : UInt32} (h : v.toNat < 2 ^ 31) (ipv6 : Bool) :
    Rate.sized ipv6 v = v.toNat + l3Overhead := by
  obtain ⟨hmask, hbit⟩ := mask_of_fixed h
  simp only [Rate.sized, hmask, hbit, ne_eq, not_true, if_false]
  omega

/-- The three parts of the rate. -/
theorem bitsPerSecond_eq (r : Rate) (ipv6 : Bool) :
    r.bitsPerSecond ipv6 =
      ((if 0 < r.burstSize1 ∧ 0 < r.txInterval1 then
          perSecond r.txInterval1 * r.burstSize1.toNat * Rate.sized ipv6 r.udpPayload1 else 0) +
        (if 0 < r.burstSize2 ∧ 0 < r.txInterval2 then
          perSecond r.txInterval2 * r.burstSize2.toNat * Rate.sized ipv6 r.udpPayload2 else 0) +
        (if 0 < r.udpAddon2 ∧ 0 < r.txInterval2 then
          perSecond r.txInterval2 * Rate.sized ipv6 r.udpAddon2 else 0)) * 8 := by
  unfold Rate.bitsPerSecond
  dsimp only
  split <;> split <;> split <;> ring

theorem toNat_ofNat_small {n : Nat} (h : n < 2 ^ 31) : (UInt32.ofNat n).toNat = n :=
  UInt32.toNat_ofNat_of_lt' (Nat.lt_trans h (by decide))

theorem ofNat_pos {n : Nat} (h0 : 0 < n) (h : n < 2 ^ 31) : 0 < UInt32.ofNat n := by
  rw [UInt32.lt_iff_toNat_lt, toNat_ofNat_small h]
  exact h0

/-- A burst of `n` datagrams every interval; a transmitter without one is off. -/
theorem burst_rate {n : Nat} (hn : n < 2 ^ 31) (hp : payload.toNat < 2 ^ 31) (iv : UInt32)
    (hiv : 0 < iv) (ipv6 : Bool) :
    (if 0 < UInt32.ofNat n ∧ 0 < (if 0 < n then iv else 0) then
        perSecond (if 0 < n then iv else 0) * (UInt32.ofNat n).toNat *
          Rate.sized ipv6 (if 0 < n then payload else 0) else 0) =
      perSecond iv * n * (payload.toNat + l3Overhead) := by
  rcases Nat.eq_zero_or_pos n with rfl | hpos
  · simp
  · rw [if_pos hpos, if_pos hpos, if_pos ⟨ofNat_pos hpos hn, hiv⟩, toNat_ofNat_small hn,
      sized_of_lt hp]

/-- An add-on of `j` Mbit/s is a datagram of 125 `j` bytes a millisecond. -/
theorem addon_rate {j : Nat} (h0 : 0 < j) (hj : j < 16) :
    (if 0 < UInt32.ofNat (j * 1000 / 8 - l3Overhead) ∧ 0 < baseSendTimer2 then
        perSecond baseSendTimer2 * Rate.sized ipv6 (UInt32.ofNat (j * 1000 / 8 - l3Overhead))
      else 0) = 125000 * j := by
  have hsize : j * 1000 / 8 = 125 * j := by omega
  have hsmall : 125 * j - l3Overhead < 2 ^ 31 := by omega
  have hpos : 0 < UInt32.ofNat (125 * j - l3Overhead) :=
    ofNat_pos (by rw [l3Overhead_eq]; omega) hsmall
  rw [hsize, if_pos ⟨hpos, by decide⟩, sized_of_lt (by rw [toNat_ofNat_small hsmall]; exact hsmall),
    toNat_ofNat_small hsmall, l3Overhead_eq]
  show (1000 : Int) * _ = _
  omega

/-- A row of one cell, with or without an add-on. -/
theorem plainRow_eq (payload : UInt32) (k i : Nat) :
    plainRow payload k i = {
      txInterval1 := if 0 < k then baseSendTimer1 else 0
      udpPayload1 := if 0 < k then payload else 0
      burstSize1 := UInt32.ofNat k
      txInterval2 := if 0 < i then baseSendTimer2 else 0
      udpPayload2 := if 0 < i then payload else 0
      burstSize2 := UInt32.ofNat i } := by
  unfold plainRow
  rcases Nat.eq_zero_or_pos k with rfl | hk <;> rcases Nat.eq_zero_or_pos i with rfl | hi
  · rfl
  · simp [hi]
  · simp [hk]
  · simp [hk, hi]

theorem bitsPerSecond_plainRow {k i : Nat} (hk : k < 2 ^ 31) (hi : i < 2 ^ 31)
    (hp : payload.toNat < 2 ^ 31) :
    (plainRow payload k i).bitsPerSecond ipv6 =
      8000 * (10 * k + i) * (payload.toNat + l3Overhead) := by
  rw [bitsPerSecond_eq, plainRow_eq]
  dsimp only
  rw [burst_rate hk hp baseSendTimer1 (by decide), burst_rate hi hp baseSendTimer2 (by decide),
    if_neg (fun h => absurd h.1 (by decide)),
    show perSecond baseSendTimer1 = 10000 from rfl, show perSecond baseSendTimer2 = 1000 from rfl]
  ring

theorem bitsPerSecond_addonRow {k i j : Nat} (hk : k < 2 ^ 31) (hi : i < 2 ^ 31) (h0 : 0 < j)
    (hj : j < 16) (hp : payload.toNat < 2 ^ 31) :
    Rate.bitsPerSecond { plainRow payload k i with
        txInterval2 := baseSendTimer2
        udpAddon2 := UInt32.ofNat (j * 1000 / 8 - l3Overhead) } ipv6 =
      8000 * (10 * k + i) * (payload.toNat + l3Overhead) + 1000000 * j := by
  rw [bitsPerSecond_eq, plainRow_eq]
  dsimp only
  have hsecond : (if 0 < UInt32.ofNat i ∧ 0 < baseSendTimer2 then
      perSecond baseSendTimer2 * (UInt32.ofNat i).toNat *
        Rate.sized ipv6 (if 0 < i then payload else 0) else 0) =
      perSecond baseSendTimer2 * i * (payload.toNat + l3Overhead) := by
    have hrate := burst_rate hi hp baseSendTimer2 (by decide) ipv6
    rcases Nat.eq_zero_or_pos i with rfl | hpos
    · simp
    · simp only [if_pos hpos] at hrate ⊢
      exact hrate
  rw [burst_rate hk hp baseSendTimer1 (by decide), hsecond, addon_rate h0 hj,
    show perSecond baseSendTimer1 = 10000 from rfl, show perSecond baseSendTimer2 = 1000 from rfl]
  ring

/-- The rate of a row of the grid is its index, in Mbit/s. -/
theorem bitsPerSecond_gridRow {w n : Nat} (hp : payload.toNat + l3Overhead = 125 * w) (hw : w ≤ 16)
    (h0 : 0 < n) (hn : n < 2 ^ 31) :
    (gridRow payload w n).bitsPerSecond ipv6 = 1000000 * n := by
  have hpay : payload.toNat < 2 ^ 31 := by omega
  have hwpos : 0 < w := by rw [l3Overhead_eq] at hp; omega
  have hj : n % w < w := Nat.mod_lt n hwpos
  have hk : n / (10 * w) < 2 ^ 31 := Nat.lt_of_le_of_lt (Nat.div_le_self _ _) hn
  have hi : n / w % 10 < 2 ^ 31 := Nat.lt_trans (Nat.mod_lt _ (by decide)) (by decide)
  have hten : n / w = 10 * (n / (10 * w)) + n / w % 10 := by
    rw [Nat.mul_comm 10 w, ← Nat.div_div_eq_div_mul]
    omega
  have hdigits : 8000 * (10 * (n / (10 * w) : Nat) + (n / w % 10 : Nat)) * (payload.toNat + l3Overhead) +
      1000000 * (n % w : Nat) = 1000000 * (n : Int) := by
    have hp' : (payload.toNat + l3Overhead : Int) = 125 * w := by exact_mod_cast hp
    have hten' : (10 * (n / (10 * w) : Nat) + (n / w % 10 : Nat) : Int) = (n / w : Nat) := by
      exact_mod_cast hten.symm
    have hmod : (w * (n / w : Nat) + (n % w : Nat) : Int) = n := by
      exact_mod_cast Nat.div_add_mod n w
    rw [hp', hten', ← hmod]
    ring
  rw [gridRow, if_neg (Nat.pos_iff_ne_zero.mp h0)]
  split
  · rename_i hzero
    rw [bitsPerSecond_plainRow hk hi hpay, ← hdigits, hzero, Nat.cast_zero, mul_zero, add_zero]
  · rename_i hpos
    rw [bitsPerSecond_addonRow hk hi (Nat.pos_of_ne_zero hpos) (by omega) hpay, hdigits]

theorem bitsPerSecond_fastRow {burst : Nat} (hp : payload.toNat < 2 ^ 31) (h0 : 0 < burst)
    (hb : burst < 2 ^ 31) :
    (fastRow payload burst).bitsPerSecond ipv6 = 80000 * burst * (payload.toNat + l3Overhead) := by
  rw [bitsPerSecond_eq, fastRow]
  dsimp only
  rw [if_pos ⟨ofNat_pos h0 hb, by decide⟩, if_neg (by simp), if_neg (by simp), toNat_ofNat_small hb,
    sized_of_lt hp, show perSecond baseSendTimer1 = 10000 from rfl]
  ring

/-- Row 0 sends well below 1 Mbit/s. -/
theorem bitsPerSecond_tableRow_zero (jumbo traditionalMTU ipv6 : Bool) :
    0 < (tableRow jumbo traditionalMTU 0).bitsPerSecond ipv6 ∧
      (tableRow jumbo traditionalMTU 0).bitsPerSecond ipv6 < 1000000 := by
  cases traditionalMTU <;> cases ipv6 <;> cases jumbo <;> decide

/-- The rate of row `n`, in Mbit/s. -/
def tableMbps (jumbo traditionalMTU : Bool) (n : Nat) : Nat :=
  if n ≤ 1000 then n
  else if jumbo then
    if n ≤ 1062 then 100 * (n - 990) else 720 * min (n - 1052) maxBurstSize
  else if traditionalMTU then 120 * min (n - 992) maxBurstSize
  else 100 * min (n - 990) maxBurstSize

theorem tableMbps_mono (jumbo traditionalMTU : Bool) {n m : Nat} (h : n ≤ m) :
    tableMbps jumbo traditionalMTU n ≤ tableMbps jumbo traditionalMTU m := by
  unfold tableMbps
  rw [maxBurstSize_eq]
  cases jumbo <;> cases traditionalMTU <;> simp only [if_true, if_false, Bool.false_eq_true] <;>
    split_ifs <;> omega

theorem tableMbps_bounds (jumbo traditionalMTU : Bool) {n : Nat} (h0 : 0 < n) :
    0 < tableMbps jumbo traditionalMTU n ∧ tableMbps jumbo traditionalMTU n ≤ 72000 := by
  unfold tableMbps
  rw [maxBurstSize_eq]
  cases jumbo <;> cases traditionalMTU <;> simp only [if_true, if_false, Bool.false_eq_true] <;>
    split_ifs <;> omega

theorem bitsPerSecond_tableRow (jumbo traditionalMTU ipv6 : Bool) {n : Nat} (h0 : 0 < n) :
    (tableRow jumbo traditionalMTU n).bitsPerSecond ipv6 =
      1000000 * tableMbps jumbo traditionalMTU n := by
  have hburst : ∀ b, min b maxBurstSize < 2 ^ 31 := fun b =>
    Nat.lt_of_le_of_lt (Nat.min_le_right _ _) (by decide)
  have hfast : ∀ (l3 b : Nat), l3Overhead ≤ l3 → l3 ≤ 9000 → 0 < b → b < 2 ^ 31 →
      (fastRow (UInt32.ofNat (l3 - l3Overhead)) b).bitsPerSecond ipv6 = 80000 * b * l3 := by
    intro l3 b hlow hhigh hpos hb
    have hsmall : l3 - l3Overhead < 2 ^ 31 := by omega
    rw [bitsPerSecond_fastRow (by rw [toNat_ofNat_small hsmall]; exact hsmall) hpos hb,
      toNat_ofNat_small hsmall, Int.natCast_sub hlow, sub_add_cancel]
  unfold tableRow tableMbps
  have hmax := maxBurstSize_eq
  have hl3 := l3Overhead_eq
  have hl3max : maxL3Packet = 1250 := rfl
  split
  · refine bitsPerSecond_gridRow ?_ ?_ h0 (by omega) <;> cases traditionalMTU <;> decide
  · split
    · split
      · rw [hfast _ 10 (by omega) (by omega) (by decide) (by decide)]
        push_cast
        omega
      · rw [show maxJPayloadSize = 9000 - l3Overhead from rfl,
          hfast _ _ (by decide) (by decide) (by omega) (hburst _)]
        omega
    · split
      · rw [show maxTPayloadSize = 1500 - l3Overhead from rfl,
          hfast _ _ (by decide) (by decide) (by omega) (hburst _)]
        omega
      · rw [show maxPayloadSize = 1250 - l3Overhead from rfl,
          hfast _ _ (by decide) (by decide) (by omega) (hburst _)]
        omega

end Rates

/-! ## Results -/

section Results

variable {jumbo traditionalMTU : Bool} {n m : Nat} {r r' : Rate}

theorem eq_tableRow (h : (buildRateTable jumbo traditionalMTU).rows[n]? = some r) :
    n < maxSendingRates ∧ r = tableRow jumbo traditionalMTU n := by
  have hn : n < maxSendingRates := by
    rw [← buildRateTable_length jumbo traditionalMTU]
    exact (List.getElem?_eq_some_iff.mp h).1
  rw [getElem?_buildRateTable jumbo traditionalMTU hn] at h
  exact ⟨hn, (Option.some.inj h).symm⟩

theorem tableRow_rate_mono (ipv6 : Bool) (h : n ≤ m) :
    (tableRow jumbo traditionalMTU n).bitsPerSecond ipv6 ≤
      (tableRow jumbo traditionalMTU m).bitsPerSecond ipv6 := by
  rcases Nat.eq_zero_or_pos m with rfl | hm
  · rw [Nat.le_zero.mp h]
  · rw [bitsPerSecond_tableRow _ _ _ hm]
    rcases Nat.eq_zero_or_pos n with rfl | hn
    · have hzero := (bitsPerSecond_tableRow_zero jumbo traditionalMTU ipv6).2
      have hpos := (tableMbps_bounds jumbo traditionalMTU hm).1
      omega
    · rw [bitsPerSecond_tableRow _ _ _ hn]
      have hmono := tableMbps_mono jumbo traditionalMTU h
      omega

/-- **The table is graduated in Mbit/s.** For each of the four tables and
either address family: rows 1 to 1000 send at exactly their index in Mbit/s,
a higher row never sends at a lower rate, and every rate is positive, an
integer that `float64` represents. -/
theorem nominal_rates (jumbo traditionalMTU ipv6 : Bool) :
    (∀ (n : Nat) r, 1 ≤ n → n ≤ 1000 → (buildRateTable jumbo traditionalMTU).rows[n]? = some r →
        r.bitsPerSecond ipv6 = 1000000 * n) ∧
      (∀ (n m : Nat) r r', n ≤ m → (buildRateTable jumbo traditionalMTU).rows[n]? = some r →
        (buildRateTable jumbo traditionalMTU).rows[m]? = some r' →
        r.bitsPerSecond ipv6 ≤ r'.bitsPerSecond ipv6) ∧
      ∀ r ∈ (buildRateTable jumbo traditionalMTU).rows,
        0 < r.bitsPerSecond ipv6 ∧ r.bitsPerSecond ipv6 < 2 ^ 53 := by
  refine ⟨?_, ?_, ?_⟩
  · intro n r hlow hhigh hr
    obtain ⟨-, rfl⟩ := eq_tableRow hr
    rw [bitsPerSecond_tableRow _ _ _ hlow, tableMbps, if_pos hhigh]
  · intro n m r r' hle hr hr'
    obtain ⟨-, rfl⟩ := eq_tableRow hr
    obtain ⟨-, rfl⟩ := eq_tableRow hr'
    exact tableRow_rate_mono ipv6 hle
  · intro r hr
    obtain ⟨n, hn⟩ := List.getElem?_of_mem hr
    obtain ⟨-, rfl⟩ := eq_tableRow hn
    rcases Nat.eq_zero_or_pos n with rfl | hpos
    · have hzero := bitsPerSecond_tableRow_zero jumbo traditionalMTU ipv6
      omega
    · have hbounds := tableMbps_bounds jumbo traditionalMTU hpos
      rw [bitsPerSecond_tableRow _ _ _ hpos]
      omega

end Results

end Diagd.Udpst
