import Diagd.Lib.GoSlice

/-!
# Patches — fixed layouts as lists of block writes

A marshaller with hand-written offsets is a list of block writes
(`Patch`), a parser of the same layout a list of block reads. When the
blocks do not overlap, the two are tied together by ONE notion:
`Shows b ws`, "the buffer `b` holds each block of `ws` at its place".

* Writing non-overlapping blocks leaves a buffer that shows them
  (`shows_patch`): nothing written is overwritten later.
* Two buffers that show the same blocks agree wherever a block lies
  (`Shows.getElem?_eq`).
* A big-endian word, a byte, a nested structure is shown exactly when it is
  the value read back (`rd_eq_encodeU16`, ..., `shows_shift`).

`Writes n f ws` is the contract of a marshalling pass: on a buffer of `n`
bytes `f` does not panic and performs exactly the writes `ws`.
-/

namespace GoSlice

/-- One block write: `bytes` from `off` on. -/
structure Patch where
  off : Nat
  bytes : Bytes
  deriving DecidableEq, Repr

namespace Patch

/-- Where the block lies: offset and length. -/
def span (w : Patch) : Nat × Nat := (w.off, w.bytes.length)

/-- The block of a structure that is itself placed at `k`. -/
def shift (k : Nat) (w : Patch) : Patch := ⟨k + w.off, w.bytes⟩

@[simp] theorem shift_off (k : Nat) (w : Patch) : (w.shift k).off = k + w.off := rfl

@[simp] theorem map_shift_zero (ws : List Patch) : ws.map (shift 0) = ws := by
  have hid : shift 0 = id := by
    funext w
    simp [shift]
  rw [hid, List.map_id]

@[simp] theorem shift_bytes (k : Nat) (w : Patch) : (w.shift k).bytes = w.bytes := rfl

end Patch

/-- The writes, in order. -/
def patch (b : Bytes) (ws : List Patch) : Bytes := ws.foldl (fun b w => wr b w.off w.bytes) b

@[simp] theorem patch_nil (b : Bytes) : patch b [] = b := rfl

@[simp] theorem patch_cons (b : Bytes) (w : Patch) (ws : List Patch) :
    patch b (w :: ws) = patch (wr b w.off w.bytes) ws := rfl

theorem patch_append (b : Bytes) (ws ws' : List Patch) :
    patch b (ws ++ ws') = patch (patch b ws) ws' := List.foldl_append

@[simp] theorem patch_length (b : Bytes) (ws : List Patch) : (patch b ws).length = b.length := by
  induction ws generalizing b with
  | nil => rfl
  | cons w ws ih => rw [patch_cons, ih, wr_length]

/-! ## Geometry -/

/-- Two blocks, given by offset and length, do not overlap. -/
def Apart (s t : Nat × Nat) : Prop := s.1 + s.2 ≤ t.1 ∨ t.1 + t.2 ≤ s.1

instance (s t : Nat × Nat) : Decidable (Apart s t) := inferInstanceAs (Decidable (_ ∨ _))

/-- The blocks lie inside a buffer of `n` bytes and do not overlap. -/
structure Tiled (n : Nat) (spans : List (Nat × Nat)) : Prop where
  within : ∀ s ∈ spans, s.1 + s.2 ≤ n
  apart : spans.Pairwise Apart

theorem tiled_iff (n : Nat) (spans : List (Nat × Nat)) :
    Tiled n spans ↔ (∀ s ∈ spans, s.1 + s.2 ≤ n) ∧ spans.Pairwise Apart :=
  ⟨fun h => ⟨h.within, h.apart⟩, fun h => ⟨h.1, h.2⟩⟩

instance (n : Nat) (spans : List (Nat × Nat)) : Decidable (Tiled n spans) :=
  decidable_of_iff _ (tiled_iff n spans).symm

/-- Byte `i` belongs to one of the blocks. -/
def Covered (spans : List (Nat × Nat)) (i : Nat) : Prop :=
  ∃ s ∈ spans, s.1 ≤ i ∧ i < s.1 + s.2

instance (spans : List (Nat × Nat)) (i : Nat) : Decidable (Covered spans i) :=
  inferInstanceAs (Decidable (∃ s ∈ spans, s.1 ≤ i ∧ i < s.1 + s.2))

/-! ## What a buffer shows -/

/-- `b` holds each block at its place. -/
def Shows (b : Bytes) (ws : List Patch) : Prop := ∀ w ∈ ws, rd b w.off w.bytes.length = w.bytes

@[simp] theorem shows_nil (b : Bytes) : Shows b [] := by simp [Shows]

@[simp] theorem shows_cons (b : Bytes) (w : Patch) (ws : List Patch) :
    Shows b (w :: ws) ↔ rd b w.off w.bytes.length = w.bytes ∧ Shows b ws := by
  simp [Shows]

@[simp] theorem shows_append (b : Bytes) (ws ws' : List Patch) :
    Shows b (ws ++ ws') ↔ Shows b ws ∧ Shows b ws' := by
  simp only [Shows, List.mem_append, or_imp, forall_and]

/-- A block apart from all writes is left as it was. -/
theorem rd_patch_apart {ws : List Patch} : ∀ {b : Bytes} {off n : Nat},
    (∀ w ∈ ws, w.off + w.bytes.length ≤ b.length) →
    (∀ w ∈ ws, Apart (off, n) w.span) → rd (patch b ws) off n = rd b off n := by
  induction ws with
  | nil => intros; rfl
  | cons w ws ih =>
      intro b off n hin hap
      rw [patch_cons, ih]
      · have h := hap w (by simp)
        exact rd_wr_disjoint (hin w (by simp)) h.symm
      · intro v hv
        rw [wr_length]
        exact hin v (by simp [hv])
      · intro v hv
        exact hap v (by simp [hv])

/-- A byte outside all writes is left as it was. -/
theorem getElem?_patch_of_not_covered {ws : List Patch} {b : Bytes} {i : Nat}
    (hin : ∀ w ∈ ws, w.off + w.bytes.length ≤ b.length) (hi : ¬ Covered (ws.map Patch.span) i) :
    (patch b ws)[i]? = b[i]? := by
  have hrd : rd (patch b ws) i 1 = rd b i 1 := by
    apply rd_patch_apart hin
    intro w hw
    by_contra hover
    refine hi ⟨w.span, List.mem_map_of_mem hw, ?_⟩
    simp only [Apart, not_or] at hover
    omega
  have hget := congrArg (fun l => l[0]?) hrd
  simpa [getElem?_rd] using hget

/-- **Non-overlapping writes are all visible at the end.** -/
theorem shows_patch {b : Bytes} {ws : List Patch} (h : Tiled b.length (ws.map Patch.span)) :
    Shows (patch b ws) ws := by
  induction ws generalizing b with
  | nil => simp
  | cons w ws ih =>
      have hin : ∀ v ∈ w :: ws, v.off + v.bytes.length ≤ b.length :=
        fun v hv => h.within v.span (List.mem_map_of_mem hv)
      obtain ⟨hhead, htail⟩ := List.pairwise_cons.mp h.apart
      rw [shows_cons, patch_cons]
      constructor
      · -- the later writes do not touch the first block
        rw [rd_patch_apart, rd_wr_self (hin w (by simp))]
        · intro v hv
          rw [wr_length]
          exact hin v (by simp [hv])
        · intro v hv
          exact hhead v.span (List.mem_map_of_mem hv)
      · apply ih
        rw [wr_length]
        exact ⟨fun s hs => h.within s (by simp [hs]), htail⟩

/-- Two buffers that show the same blocks agree where the blocks lie. -/
theorem Shows.getElem?_eq {b b' : Bytes} {ws : List Patch} {i : Nat} (h : Shows b ws)
    (h' : Shows b' ws) (hi : Covered (ws.map Patch.span) i) : b[i]? = b'[i]? := by
  obtain ⟨s, hs, hlo, hhi⟩ := hi
  obtain ⟨w, hw, rfl⟩ := List.mem_map.mp hs
  have hrd : rd b w.off w.bytes.length = rd b' w.off w.bytes.length := (h w hw).trans (h' w hw).symm
  have hget := congrArg (fun l => l[i - w.off]?) hrd
  simp only [getElem?_rd] at hget
  simp only [Patch.span] at hlo hhi
  rwa [if_pos (by omega), if_pos (by omega), Nat.add_sub_cancel' hlo] at hget

/-- What is shown through a slice is shown at the shifted place. -/
theorem shows_shift {b : Bytes} {k : Nat} {ws : List Patch} (hi : Nat)
    (hin : ∀ s ∈ ws.map Patch.span, s.1 + s.2 ≤ hi - k) :
    Shows b (ws.map (Patch.shift k)) ↔ Shows (sub b k hi) ws := by
  have hrd : ∀ w ∈ ws, rd b (k + w.off) w.bytes.length = rd (sub b k hi) w.off w.bytes.length := by
    intro w hw
    have hw' : w.off + w.bytes.length ≤ hi - k := hin w.span (List.mem_map_of_mem hw)
    apply List.ext_getElem?
    intro i
    rw [getElem?_rd, getElem?_rd]
    split
    · rw [sub, getElem?_rd, if_pos (by omega), Nat.add_assoc]
    · rfl
  simp only [Shows, List.forall_mem_map, Patch.shift_off, Patch.shift_bytes]
  exact forall₂_congr fun w hw => by rw [hrd w hw]

/-- A copied block that is itself made of blocks is their shifted writes. -/
theorem wr_eq_patch {b src : Bytes} {off : Nat} {ws : List Patch} (hsrc : Shows src ws)
    (ht : Tiled src.length (ws.map Patch.span))
    (hcov : ∀ i, i < src.length → Covered (ws.map Patch.span) i)
    (h : off + src.length ≤ b.length) : wr b off src = patch b (ws.map (Patch.shift off)) := by
  have hin : ∀ w ∈ ws, w.off + w.bytes.length ≤ src.length :=
    fun w hw => ht.within w.span (List.mem_map_of_mem hw)
  have hspans : (ws.map (Patch.shift off)).map Patch.span
      = (ws.map Patch.span).map fun s => (off + s.1, s.2) := by simp [Patch.span, Function.comp_def]
  have ht' : Tiled b.length ((ws.map (Patch.shift off)).map Patch.span) := by
    rw [hspans]
    constructor
    · intro s hs
      obtain ⟨t, htm, rfl⟩ := List.mem_map.mp hs
      have := ht.within t htm
      simp only
      omega
    · refine List.pairwise_map.mpr (ht.apart.imp ?_)
      intro s t hst
      simp only [Apart] at hst ⊢
      omega
  apply List.ext_getElem?
  intro i
  by_cases hi : off ≤ i ∧ i < off + src.length
  · -- inside the copied block both sides show the same fields
    have hsub : sub (wr b off src) off (off + src.length) = src := by
      rw [sub, Nat.add_sub_cancel_left, rd_wr_self h]
    have hslice : Shows (wr b off src) (ws.map (Patch.shift off)) ↔
        Shows (sub (wr b off src) off (off + src.length)) ws :=
      shows_shift _ fun s hs => by have := ht.within s hs; omega
    have hwr : Shows (wr b off src) (ws.map (Patch.shift off)) := hslice.mpr (hsub.symm ▸ hsrc)
    refine Shows.getElem?_eq hwr (shows_patch ht') ?_
    obtain ⟨s, hs, hlo, hhi⟩ := hcov (i - off) (by omega)
    rw [hspans]
    exact ⟨(off + s.1, s.2), List.mem_map_of_mem hs, by simp only; omega, by simp only; omega⟩
  · rw [getElem?_wr h, if_neg hi]
    have hrd : rd (patch b (ws.map (Patch.shift off))) i 1 = rd b i 1 := by
      apply rd_patch_apart
      · intro w hw
        exact ht'.within w.span (List.mem_map_of_mem hw)
      · intro w hw
        obtain ⟨v, hv, rfl⟩ := List.mem_map.mp hw
        have := hin v hv
        simp only [Apart, Patch.span, Patch.shift_off, Patch.shift_bytes]
        omega
    have hget := congrArg (fun l => l[0]?) hrd
    simpa [getElem?_rd] using hget.symm

/-! ## Words and bytes -/

theorem decodeBE_append (b : Bytes) (x : UInt8) :
    decodeBE (b ++ [x]) = decodeBE b * 256 + x.toNat := by
  simp [decodeBE]

theorem decodeBE_encodeBE (n v : Nat) : decodeBE (encodeBE n v) = v % 256 ^ n := by
  induction n generalizing v with
  | zero => simp [encodeBE, decodeBE, Nat.mod_one]
  | succ n ih =>
      have hbyte : (UInt8.ofNat (v % 256)).toNat = v % 256 := by
        rw [UInt8.toNat_ofNat']
        omega
      rw [encodeBE, decodeBE_append, ih, hbyte, Nat.pow_succ, Nat.mul_comm (256 ^ n),
        Nat.mod_mul]
      omega

theorem encodeBE_decodeBE (b : Bytes) : encodeBE b.length (decodeBE b) = b := by
  induction b using List.reverseRecOn with
  | nil => rfl
  | append_singleton b x ih =>
      have hx : x.toNat < 256 := x.toNat_lt
      have hdiv : (decodeBE b * 256 + x.toNat) / 256 = decodeBE b := by omega
      have hmod : (decodeBE b * 256 + x.toNat) % 256 = x.toNat := by omega
      rw [List.length_append, List.length_singleton, encodeBE, decodeBE_append, hdiv, hmod, ih,
        UInt8.ofNat_toNat]

theorem rd_length {b : Bytes} {off n : Nat} (h : off + n ≤ b.length) : (rd b off n).length = n := by
  rw [rd, List.length_take, List.length_drop]
  omega

/-- A block holds the encoding of `v` exactly when it decodes to `v`. -/
theorem rd_eq_encodeBE {b : Bytes} {off n v : Nat} (h : off + n ≤ b.length) (hv : v < 256 ^ n) :
    rd b off n = encodeBE n v ↔ decodeBE (rd b off n) = v := by
  constructor
  · intro hrd
    rw [hrd, decodeBE_encodeBE, Nat.mod_eq_of_lt hv]
  · intro hdec
    have henc := encodeBE_decodeBE (rd b off n)
    rw [rd_length h, hdec] at henc
    exact henc.symm

theorem decodeBE_lt (b : Bytes) : decodeBE b < 256 ^ b.length := by
  have h := decodeBE_encodeBE b.length (decodeBE b)
  rw [encodeBE_decodeBE] at h
  rw [h]
  exact Nat.mod_lt _ (Nat.pow_pos (by decide))

section Fields

variable {b : Bytes} {off : Nat}

theorem rd_eq_encodeU16 {v : UInt16} (h : off + 2 ≤ b.length) :
    rd b off 2 = encodeBE 2 v.toNat ↔ u16At b off = v := by
  have hlt : decodeBE (rd b off 2) < 2 ^ 16 := by simpa [rd_length h] using decodeBE_lt (rd b off 2)
  rw [rd_eq_encodeBE h v.toNat_lt, u16At, ← UInt16.toNat_inj, UInt16.toNat_ofNat',
    Nat.mod_eq_of_lt hlt]

theorem rd_eq_encodeU32 {v : UInt32} (h : off + 4 ≤ b.length) :
    rd b off 4 = encodeBE 4 v.toNat ↔ u32At b off = v := by
  have hlt : decodeBE (rd b off 4) < 2 ^ 32 := by simpa [rd_length h] using decodeBE_lt (rd b off 4)
  rw [rd_eq_encodeBE h v.toNat_lt, u32At, ← UInt32.toNat_inj, UInt32.toNat_ofNat',
    Nat.mod_eq_of_lt hlt]

theorem encodeU32_inj {v w : UInt32} : encodeBE 4 v.toNat = encodeBE 4 w.toNat ↔ v = w := by
  constructor
  · intro h
    have hdec := congrArg decodeBE h
    rw [decodeBE_encodeBE, decodeBE_encodeBE] at hdec
    have hv : v.toNat < 256 ^ 4 := v.toNat_lt
    have hw : w.toNat < 256 ^ 4 := w.toNat_lt
    rw [Nat.mod_eq_of_lt hv, Nat.mod_eq_of_lt hw] at hdec
    exact UInt32.toNat_inj.mp hdec
  · rintro rfl
    rfl

theorem rd_eq_encodeU64 {v : UInt64} (h : off + 8 ≤ b.length) :
    rd b off 8 = encodeBE 8 v.toNat ↔ u64At b off = v := by
  have hlt : decodeBE (rd b off 8) < 2 ^ 64 := by simpa [rd_length h] using decodeBE_lt (rd b off 8)
  rw [rd_eq_encodeBE h v.toNat_lt, u64At, ← UInt64.toNat_inj, UInt64.toNat_ofNat',
    Nat.mod_eq_of_lt hlt]

theorem rd_eq_singleton {v : UInt8} (h : off < b.length) : rd b off 1 = [v] ↔ b.getD off 0 = v := by
  rw [rd, List.take_one_drop_eq_of_lt_length h, List.getD_eq_getElem _ _ h]
  simp

end Fields

/-! ## Passes as writes -/

/-- On a buffer of `n` bytes, `f` performs exactly the writes `ws`. -/
def Writes (n : Nat) (f : Bytes → Except Panic Bytes) (ws : List Patch) : Prop :=
  ∀ b, b.length = n → f b = .ok (patch b ws)

section Writes

variable {n i off lo hi : Nat} {f g : Bytes → Except Panic Bytes} {ws ws' : List Patch}

theorem Writes.andThen (hf : Writes n f ws) (hg : Writes n g ws') :
    Writes n (fun b => f b >>= g) (ws ++ ws') := by
  intro b hb
  show f b >>= g = _
  rw [hf b hb, ok_bind, hg _ (by rw [patch_length, hb]), patch_append]

/-- One write in front of a pass. -/
theorem Writes.step {w : Patch} (hf : Writes n f [w]) (hg : Writes n g ws) :
    Writes n (fun b => f b >>= g) (w :: ws) := hf.andThen hg

theorem writes_store {x : UInt8} (h : i < n) : Writes n (fun b => store b i x) [⟨i, [x]⟩] := by
  intro b hb
  exact store_ok (by omega)

theorem writes_putU16 {x : UInt16} (h : off + 2 ≤ n) :
    Writes n (fun b => putU16 b off x) [⟨off, encodeBE 2 x.toNat⟩] := by
  intro b hb
  exact putU16_ok (by omega)

theorem writes_putU32 {x : UInt32} (h : off + 4 ≤ n) :
    Writes n (fun b => putU32 b off x) [⟨off, encodeBE 4 x.toNat⟩] := by
  intro b hb
  exact putU32_ok (by omega)

theorem writes_putU64 {x : UInt64} (h : off + 8 ≤ n) :
    Writes n (fun b => putU64 b off x) [⟨off, encodeBE 8 x.toNat⟩] := by
  intro b hb
  exact putU64_ok (by omega)

theorem writes_copyInto {src : Bytes} (hlen : hi = lo + src.length) (h : hi ≤ n) :
    Writes n (fun b => copyInto b lo hi src) [⟨lo, src⟩] := by
  intro b hb
  show copyInto b lo hi src = .ok (wr b lo src)
  rw [copyInto_ok (by omega) (by omega), List.take_of_length_le (by omega)]

theorem Writes.pure : Writes n (fun b => Pure.pure b) [] := fun _ _ => rfl

/-- Writing through a slice and writing back. -/
theorem wr_patch_sub {b : Bytes} (hlo : lo ≤ hi) (hhi : hi ≤ b.length)
    (hin : ∀ s ∈ ws.map Patch.span, s.1 + s.2 ≤ hi - lo) :
    wr b lo (patch (sub b lo hi) ws) = patch b (ws.map (Patch.shift lo)) := by
  induction ws generalizing b with
  | nil =>
      apply List.ext_getElem?
      intro i
      have hlen : (sub b lo hi).length = hi - lo := sub_length hhi
      rw [patch_nil, getElem?_wr (by omega)]
      split
      · rw [sub, getElem?_rd, if_pos (by omega)]
        congr 1
        omega
      · rfl
  | cons w ws ih =>
      have hw : w.off + w.bytes.length ≤ hi - lo := hin w.span (by simp)
      have hlen : (sub b lo hi).length = hi - lo := sub_length hhi
      -- the slice of the written buffer is the written slice
      have hsub : sub (wr b (lo + w.off) w.bytes) lo hi = wr (sub b lo hi) w.off w.bytes := by
        apply List.ext_getElem?
        intro i
        rw [sub, getElem?_rd, getElem?_wr (by omega), getElem?_wr (by omega), sub, getElem?_rd]
        by_cases hi' : i < hi - lo
        · rw [if_pos hi', if_pos hi']
          by_cases hc : w.off ≤ i ∧ i < w.off + w.bytes.length
          · rw [if_pos (by omega), if_pos hc]
            congr 1
            omega
          · rw [if_neg (by omega), if_neg hc]
        · rw [if_neg hi', if_neg (by omega), if_neg hi']
      have hrest := ih (b := wr b (lo + w.off) w.bytes) (by rw [wr_length]; exact hhi)
        (fun s hs => hin s (List.mem_cons_of_mem _ hs))
      rw [List.map_cons, patch_cons, patch_cons, Patch.shift_off, Patch.shift_bytes, ← hrest, hsub]
      -- outside the slice the two buffers agree
      set s := patch (wr (sub b lo hi) w.off w.bytes) ws with hs
      have hslen : s.length = hi - lo := by rw [hs, patch_length, wr_length, hlen]
      apply List.ext_getElem?
      intro i
      rw [getElem?_wr (by omega), getElem?_wr (by rw [wr_length]; omega)]
      split
      · rfl
      · rw [getElem?_wr (by omega), if_neg (by omega)]

theorem writes_onSlice (hlo : lo ≤ hi) (hhi : hi ≤ n) (hf : Writes (hi - lo) f ws)
    (hin : ∀ s ∈ ws.map Patch.span, s.1 + s.2 ≤ hi - lo) :
    Writes n (fun b => onSlice b lo hi f) (ws.map (Patch.shift lo)) := by
  intro b hb
  have hhi' : hi ≤ b.length := by omega
  show onSlice b lo hi f = _
  rw [onSlice, slice_ok hlo hhi', ok_bind, hf _ (sub_length hhi'), ok_bind,
    ← wr_patch_sub hlo hhi' hin]
  rfl

theorem writes_onSliceFrom (hlo : lo ≤ n) (hf : Writes (n - lo) f ws)
    (hin : ∀ s ∈ ws.map Patch.span, s.1 + s.2 ≤ n - lo) :
    Writes n (fun b => onSliceFrom b lo f) (ws.map (Patch.shift lo)) := by
  intro b hb
  subst hb
  exact writes_onSlice hlo (Nat.le_refl _) hf hin b rfl

end Writes

/-! ## Codecs -/

/-- The buffers have one length and agree at every byte that is not
reserved. -/
def AgreeOff (reserved : Nat → Prop) (b b' : Bytes) : Prop :=
  b.length = b'.length ∧ ∀ i, ¬ reserved i → b[i]? = b'[i]?

/-- `marshal` and `parse` are inverse to each other over a layout of `size`
bytes: a valid value survives the wire, and an accepted buffer is rebuilt
from its value up to the reserved bytes. -/
structure Inverse {α : Type} (size : Nat) (reserved : Nat → Prop) (Valid : α → Prop)
    (marshal : α → Except Panic Bytes) (parse : Bytes → Except Panic (Except String α)) : Prop where
  decode_encode : ∀ p, Valid p → (marshal p >>= parse) = .ok (.ok p)
  encode_decode : ∀ b p, b.length = size → parse b = .ok (.ok p) →
    ∃ b', marshal p = .ok b' ∧ AgreeOff reserved b' b

/-- **The layout criterion.** A marshaller that writes the blocks of its
value (and the padding `pad`) over a buffer `b₀`, and a parser that accepts
exactly the buffers showing the blocks of a valid value, are inverse. -/
theorem Inverse.of_blocks {α : Type} {Valid : α → Prop} {marshal : α → Except Panic Bytes}
    {parse : Bytes → Except Panic (Except String α)} (b₀ : Bytes) (reserved : Nat → Prop)
    (blocks : α → List Patch) (pad : List Patch) (spans : List (Nat × Nat))
    (hspans : ∀ p, (blocks p).map Patch.span = spans)
    (htiled : Tiled b₀.length (spans ++ pad.map Patch.span))
    (hcover : ∀ i, i < b₀.length → ¬ reserved i → Covered spans i)
    (hmarshal : ∀ p, Valid p → marshal p = .ok (patch b₀ (blocks p ++ pad)))
    (hparse : ∀ b p, b.length = b₀.length →
      (parse b = .ok (.ok p) ↔ Valid p ∧ Shows b (blocks p))) :
    Inverse b₀.length reserved Valid marshal parse := by
  have hshow : ∀ p, Shows (patch b₀ (blocks p ++ pad)) (blocks p) := by
    intro p
    have ht : Tiled b₀.length ((blocks p ++ pad).map Patch.span) := by
      rw [List.map_append, hspans]
      exact htiled
    exact ((shows_append _ _ _).mp (shows_patch ht)).1
  constructor
  · intro p hp
    rw [hmarshal p hp, ok_bind]
    exact (hparse _ p (patch_length _ _)).mpr ⟨hp, hshow p⟩
  · intro b p hb hparsed
    obtain ⟨hvalid, hb'⟩ := (hparse b p hb).mp hparsed
    refine ⟨_, hmarshal p hvalid, by rw [patch_length, hb], fun i hi => ?_⟩
    by_cases hlt : i < b₀.length
    · apply (hshow p).getElem?_eq hb'
      rw [hspans]
      exact hcover i hlt hi
    · rw [List.getElem?_eq_none (by rw [patch_length]; omega), List.getElem?_eq_none (by omega)]

end GoSlice
