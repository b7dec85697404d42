import Mathlib

/-!
# GoSlice — checked byte slices

Go's `[]byte` as the list of its bytes, with the two things a Go program
can do to it: succeed, or stop the process with an out-of-range panic.
The checked operations (`index`, `slice`, `getU16`, `putU32`, ...) live in
`Except Panic`; each one is a bounds test in front of a TOTAL operation on
lists (`rd`, `wr`, `sub`), and the algebra of reads after writes
is stated on the total operations only.

Slicing is checked against the length, which is what the runtime checks
for every slice expression whose upper bound is at most the length; a
slice that re-extends into spare capacity is refused here.
-/

namespace GoSlice

abbrev Bytes := List UInt8

/-- A run-time panic: an index, or a slice bound, out of range. -/
inductive Panic where
  | index (i : Int) (len : Nat)
  | slice (lo hi len : Nat)
  deriving DecidableEq, Repr

@[simp] theorem ok_bind {ε α β : Type} (a : α) (f : α → Except ε β) :
    (Except.ok a >>= f) = f a := rfl

@[simp] theorem error_bind {ε α β : Type} (e : ε) (f : α → Except ε β) :
    (Except.error e >>= f) = Except.error e := rfl

/-- What a successful computation is made of. -/
theorem bind_eq_ok {ε α β : Type} {x : Except ε α} {f : α → Except ε β} {r : β} :
    (x >>= f) = .ok r ↔ ∃ a, x = .ok a ∧ f a = .ok r := by
  cases x with
  | error e => simp
  | ok a => simp

/-! ## Total reads and writes -/

/-- The `n` bytes of `b` from `off` on (fewer when `b` ends earlier). -/
def rd (b : Bytes) (off n : Nat) : Bytes := (b.drop off).take n

/-- `b` with `bs` written over it from `off` on; what would fall behind the
end of `b` is dropped, so the length never changes. -/
def wr (b : Bytes) (off : Nat) (bs : Bytes) : Bytes :=
  b.take off ++ bs.take (b.length - off) ++ b.drop (off + bs.length)

/-- The bytes of `b[lo:hi]`. -/
def sub (b : Bytes) (lo hi : Nat) : Bytes := rd b lo (hi - lo)

/-- Big-endian value of a byte string. -/
def decodeBE (b : Bytes) : Nat := b.foldl (fun acc x => acc * 256 + x.toNat) 0

/-- The `n` low-order bytes of `v`, most significant first. -/
def encodeBE : Nat → Nat → Bytes
  | 0, _ => []
  | n + 1, v => encodeBE n (v / 256) ++ [UInt8.ofNat (v % 256)]

/-- The big-endian words at `off`. -/
def u16At (b : Bytes) (off : Nat) : UInt16 := UInt16.ofNat (decodeBE (rd b off 2))

def u32At (b : Bytes) (off : Nat) : UInt32 := UInt32.ofNat (decodeBE (rd b off 4))

def u64At (b : Bytes) (off : Nat) : UInt64 := UInt64.ofNat (decodeBE (rd b off 8))

/-! ## Checked operations -/

/-- `b[i]`. -/
def index (b : Bytes) (i : Nat) : Except Panic UInt8 :=
  if i < b.length then .ok (b.getD i 0) else .error (.index i b.length)

/-- `b[i] = v`. -/
def store (b : Bytes) (i : Nat) (v : UInt8) : Except Panic Bytes :=
  if i < b.length then .ok (wr b i [v]) else .error (.index i b.length)

/-- `xs[i]` for a slice of any element type and a signed index. -/
def element {α : Type} (xs : List α) (i : Int) : Except Panic α :=
  match xs[i.toNat]? with
  | some x => if 0 ≤ i then .ok x else .error (.index i xs.length)
  | none => .error (.index i xs.length)

/-- `b[lo:hi]`. -/
def slice (b : Bytes) (lo hi : Nat) : Except Panic Bytes :=
  if lo ≤ hi ∧ hi ≤ b.length then .ok (sub b lo hi) else .error (.slice lo hi b.length)

/-- `b[lo:]`. -/
def sliceFrom (b : Bytes) (lo : Nat) : Except Panic Bytes := slice b lo b.length

/-- The big-endian read of `n` bytes at `b[off:]`. -/
def getBE (n : Nat) (b : Bytes) (off : Nat) : Except Panic Nat :=
  if off + n ≤ b.length then .ok (decodeBE (rd b off n))
  else .error (.index (off + n) b.length)

/-- The big-endian write of `n` bytes at `b[off:]`. -/
def putBE (n : Nat) (b : Bytes) (off v : Nat) : Except Panic Bytes :=
  if off + n ≤ b.length then .ok (wr b off (encodeBE n v))
  else .error (.index (off + n) b.length)

/-- `binary.BigEndian.Uint16(b[off:])`. -/
def getU16 (b : Bytes) (off : Nat) : Except Panic UInt16 := UInt16.ofNat <$> getBE 2 b off

/-- `binary.BigEndian.Uint32(b[off:])`. -/
def getU32 (b : Bytes) (off : Nat) : Except Panic UInt32 := UInt32.ofNat <$> getBE 4 b off

/-- `binary.BigEndian.Uint64(b[off:])`. -/
def getU64 (b : Bytes) (off : Nat) : Except Panic UInt64 := UInt64.ofNat <$> getBE 8 b off

/-- `binary.BigEndian.PutUint16(b[off:], v)`. -/
def putU16 (b : Bytes) (off : Nat) (v : UInt16) : Except Panic Bytes := putBE 2 b off v.toNat

/-- `binary.BigEndian.PutUint32(b[off:], v)`. -/
def putU32 (b : Bytes) (off : Nat) (v : UInt32) : Except Panic Bytes := putBE 4 b off v.toNat

/-- `binary.BigEndian.PutUint64(b[off:], v)`. -/
def putU64 (b : Bytes) (off : Nat) (v : UInt64) : Except Panic Bytes := putBE 8 b off v.toNat

/-- `copy(b[lo:hi], src)`. -/
def copyInto (b : Bytes) (lo hi : Nat) (src : Bytes) : Except Panic Bytes :=
  if lo ≤ hi ∧ hi ≤ b.length then .ok (wr b lo (src.take (hi - lo)))
  else .error (.slice lo hi b.length)

/-- A call `f(b[lo:hi])` of a function that writes into its argument. -/
def onSlice (b : Bytes) (lo hi : Nat) (f : Bytes → Except Panic Bytes) :
    Except Panic Bytes := do
  let s ← slice b lo hi
  let s' ← f s
  return wr b lo s'

/-- A call `f(b[lo:])` of a function that writes into its argument. -/
def onSliceFrom (b : Bytes) (lo : Nat) (f : Bytes → Except Panic Bytes) :
    Except Panic Bytes :=
  onSlice b lo b.length f

/-- `for i := lo; i < lo+n; i++ { b[i] = 0 }`. -/
def zeroRange (b : Bytes) (lo : Nat) : Nat → Except Panic Bytes
  | 0 => .ok b
  | n + 1 => do
      let b ← store b lo 0
      zeroRange b (lo + 1) n

/-! ## The checked operations succeed exactly in range -/

section InRange

variable {b : Bytes} {i lo hi off n v : Nat}

theorem index_ok (h : i < b.length) : index b i = .ok (b.getD i 0) := if_pos h

theorem getElem?_of_element {α : Type} {xs : List α} {k : Int} {x : α} (h : element xs k = .ok x) :
    0 ≤ k ∧ xs[k.toNat]? = some x := by
  unfold element at h
  split at h
  · next y hy =>
      split at h
      · next hk =>
          cases h
          exact ⟨hk, hy⟩
      · cases h
  · cases h

theorem element_ok {α : Type} {xs : List α} {k : Int} (h : 0 ≤ k) (h' : k < xs.length) :
    ∃ x ∈ xs, element xs k = .ok x := by
  have hk : k.toNat < xs.length := by omega
  exact ⟨xs[k.toNat], List.getElem_mem hk, by simp [element, List.getElem?_eq_getElem hk, h]⟩

theorem store_ok {x : UInt8} (h : i < b.length) : store b i x = .ok (wr b i [x]) := if_pos h

theorem slice_ok (h : lo ≤ hi) (h' : hi ≤ b.length) : slice b lo hi = .ok (sub b lo hi) :=
  if_pos ⟨h, h'⟩

theorem sliceFrom_ok (h : lo ≤ b.length) : sliceFrom b lo = .ok (sub b lo b.length) :=
  slice_ok h (Nat.le_refl _)

theorem getBE_ok (h : off + n ≤ b.length) : getBE n b off = .ok (decodeBE (rd b off n)) :=
  if_pos h

theorem putBE_ok (h : off + n ≤ b.length) : putBE n b off v = .ok (wr b off (encodeBE n v)) :=
  if_pos h

theorem getU16_ok (h : off + 2 ≤ b.length) : getU16 b off = .ok (u16At b off) := by
  rw [getU16, getBE_ok h]; rfl

theorem getU32_ok (h : off + 4 ≤ b.length) : getU32 b off = .ok (u32At b off) := by
  rw [getU32, getBE_ok h]; rfl

theorem getU64_ok (h : off + 8 ≤ b.length) : getU64 b off = .ok (u64At b off) := by
  rw [getU64, getBE_ok h]; rfl

theorem putU16_ok {x : UInt16} (h : off + 2 ≤ b.length) :
    putU16 b off x = .ok (wr b off (encodeBE 2 x.toNat)) := putBE_ok h

theorem putU32_ok {x : UInt32} (h : off + 4 ≤ b.length) :
    putU32 b off x = .ok (wr b off (encodeBE 4 x.toNat)) := putBE_ok h

theorem putU64_ok {x : UInt64} (h : off + 8 ≤ b.length) :
    putU64 b off x = .ok (wr b off (encodeBE 8 x.toNat)) := putBE_ok h

theorem copyInto_ok {src : Bytes} (h : lo ≤ hi) (h' : hi ≤ b.length) :
    copyInto b lo hi src = .ok (wr b lo (src.take (hi - lo))) := if_pos ⟨h, h'⟩

end InRange

/-! ## Lengths -/

@[simp] theorem encodeBE_length (n v : Nat) : (encodeBE n v).length = n := by
  induction n generalizing v with
  | zero => rfl
  | succ n ih => simp [encodeBE, ih]

@[simp] theorem wr_length (b : Bytes) (off : Nat) (bs : Bytes) :
    (wr b off bs).length = b.length := by
  simp only [wr, List.length_append, List.length_take, List.length_drop]
  omega

theorem sub_length {b : Bytes} {lo hi : Nat} (h : hi ≤ b.length) :
    (sub b lo hi).length = hi - lo := by
  simp only [sub, rd, List.length_take, List.length_drop]
  omega

/-! ## Pointwise views -/

theorem getElem?_rd (b : Bytes) (off n i : Nat) :
    (rd b off n)[i]? = if i < n then b[off + i]? else none := by
  rw [rd, List.getElem?_take]
  split
  · rw [List.getElem?_drop]
  · rfl

/-- A write is seen inside its own range and nowhere else. -/
theorem getElem?_wr {b : Bytes} {off : Nat} {bs : Bytes} (h : off + bs.length ≤ b.length)
    (i : Nat) :
    (wr b off bs)[i]? = if off ≤ i ∧ i < off + bs.length then bs[i - off]? else b[i]? := by
  have hlen : (b.take off).length = off := by
    rw [List.length_take]
    omega
  have htake : bs.take (b.length - off) = bs := List.take_of_length_le (by omega)
  rw [wr, htake, List.append_assoc, List.getElem?_append, hlen]
  by_cases hlo : i < off
  · rw [if_pos hlo, if_neg (by omega), List.getElem?_take_of_lt hlo]
  · rw [if_neg hlo, List.getElem?_append]
    by_cases hhi : i - off < bs.length
    · rw [if_pos hhi, if_pos (by omega)]
    · rw [if_neg hhi, if_neg (by omega), List.getElem?_drop]
      congr 1
      omega

theorem getD_wr_ne {b : Bytes} {off i : Nat} {bs : Bytes} (h : off + bs.length ≤ b.length)
    (hi : i < off ∨ off + bs.length ≤ i) : (wr b off bs).getD i 0 = b.getD i 0 := by
  rw [List.getD_eq_getElem?_getD, List.getD_eq_getElem?_getD, getElem?_wr h, if_neg (by omega)]

/-- Reading back what was just written. -/
theorem rd_wr_self {b : Bytes} {off : Nat} {bs : Bytes} (h : off + bs.length ≤ b.length) :
    rd (wr b off bs) off bs.length = bs := by
  apply List.ext_getElem?
  intro i
  rw [getElem?_rd, getElem?_wr h]
  by_cases hi : i < bs.length
  · rw [if_pos hi, if_pos (by omega), Nat.add_sub_cancel_left]
  · rw [if_neg hi, List.getElem?_eq_none (by omega)]

/-- A read that does not meet the written range sees the old bytes. -/
theorem rd_wr_disjoint {b : Bytes} {off off' n : Nat} {bs : Bytes}
    (h : off + bs.length ≤ b.length) (hd : off + bs.length ≤ off' ∨ off' + n ≤ off) :
    rd (wr b off bs) off' n = rd b off' n := by
  apply List.ext_getElem?
  intro i
  rw [getElem?_rd, getElem?_rd]
  split
  · rw [getElem?_wr h, if_neg (by omega)]
  · rfl

/-! ## Filling a fresh buffer in order

A marshaller that starts from `make([]byte, n)` and writes its fields in
the order of their offsets appends: `pre` is what it has written so far. -/

section Fill

variable {pre : Bytes} {m off : Nat}

theorem wr_fill {bs : Bytes} (h : pre.length = off) (hm : bs.length ≤ m) :
    wr (pre ++ List.replicate m 0) off bs
      = pre ++ bs ++ List.replicate (m - bs.length) 0 := by
  subst h
  have htake : (pre ++ List.replicate m (0 : UInt8)).take pre.length = pre := List.take_left
  have hlen : (pre ++ List.replicate m (0 : UInt8)).length - pre.length = m := by simp
  rw [wr, htake, hlen, List.take_of_length_le hm, List.drop_length_add_append,
    List.drop_replicate]

theorem store_fill {x : UInt8} (h : pre.length = off) (hm : 1 ≤ m) :
    store (pre ++ List.replicate m 0) off x = .ok (pre ++ [x] ++ List.replicate (m - 1) 0) := by
  rw [store_ok (by simp; omega), wr_fill h hm]
  rfl

theorem putBE_fill {k v : Nat} (h : pre.length = off) (hm : k ≤ m) :
    putBE k (pre ++ List.replicate m 0) off v
      = .ok (pre ++ encodeBE k v ++ List.replicate (m - k) 0) := by
  rw [putBE_ok (by simp; omega), wr_fill h (by simpa using hm), encodeBE_length]

theorem putU16_fill {x : UInt16} (h : pre.length = off) (hm : 2 ≤ m) :
    putU16 (pre ++ List.replicate m 0) off x
      = .ok (pre ++ encodeBE 2 x.toNat ++ List.replicate (m - 2) 0) := putBE_fill h hm

theorem putU32_fill {x : UInt32} (h : pre.length = off) (hm : 4 ≤ m) :
    putU32 (pre ++ List.replicate m 0) off x
      = .ok (pre ++ encodeBE 4 x.toNat ++ List.replicate (m - 4) 0) := putBE_fill h hm

theorem copyInto_fill {src : Bytes} {hi : Nat} (h : pre.length = off)
    (hhi : hi = off + src.length) (hm : src.length ≤ m) :
    copyInto (pre ++ List.replicate m 0) off hi src
      = .ok (pre ++ src ++ List.replicate (m - src.length) 0) := by
  rw [copyInto_ok (by omega) (by simp; omega), hhi, Nat.add_sub_cancel_left,
    List.take_length, wr_fill h hm]

theorem onSliceFrom_fill {f : Bytes → Except Panic Bytes} {s : Bytes} (h : pre.length = off)
    (hf : f (List.replicate m 0) = .ok s) (hs : s.length = m) :
    onSliceFrom (pre ++ List.replicate m 0) off f = .ok (pre ++ s) := by
  subst h
  have hsub : sub (pre ++ List.replicate m 0) pre.length
      (pre ++ List.replicate m (0 : UInt8)).length = List.replicate m 0 := by
    simp [sub, rd]
  have hwr : wr (pre ++ List.replicate m 0) pre.length s = pre ++ s := by
    rw [wr_fill rfl (Nat.le_of_eq hs), hs]
    simp
  rw [onSliceFrom, onSlice, slice_ok (by simp) (Nat.le_refl _), ok_bind, hsub, hf, ok_bind, hwr]
  rfl

end Fill

/-- Zeroing a range by single stores is one block write. -/
theorem zeroRange_ok {b : Bytes} {lo n : Nat} (h : lo + n ≤ b.length) :
    zeroRange b lo n = .ok (wr b lo (List.replicate n 0)) := by
  induction n generalizing b lo with
  | zero => simp [zeroRange, wr]
  | succ n ih =>
      have hlo : lo < b.length := by omega
      rw [zeroRange, store_ok hlo]
      show zeroRange (wr b lo [0]) (lo + 1) n = _
      rw [ih (by rw [wr_length]; omega)]
      congr 1
      apply List.ext_getElem?
      intro i
      rw [getElem?_wr (by rw [wr_length, List.length_replicate]; omega),
        getElem?_wr (by rw [List.length_singleton]; omega),
        getElem?_wr (by rw [List.length_replicate]; omega)]
      simp only [List.length_replicate, List.length_singleton]
      by_cases h1 : lo + 1 ≤ i ∧ i < lo + 1 + n
      · rw [if_pos h1, if_pos (by omega)]
        rw [List.getElem?_replicate_of_lt (by omega), List.getElem?_replicate_of_lt (by omega)]
      · rw [if_neg h1]
        by_cases h2 : i = lo
        · subst h2
          simp
        · rw [if_neg (by omega), if_neg (by omega)]

/-- Zeroing a range that leaves the slice panics. -/
theorem zeroRange_panic {b : Bytes} {lo n : Nat} (h : b.length < lo + n) (hn : 0 < n) :
    ∃ p, zeroRange b lo n = .error p := by
  induction n generalizing b lo with
  | zero => omega
  | succ n ih =>
      rw [zeroRange]
      by_cases hlo : lo < b.length
      · rw [store_ok hlo]
        exact ih (by rw [wr_length]; omega) (by omega)
      · exact ⟨.index lo b.length, by simp [store, hlo]⟩

end GoSlice
