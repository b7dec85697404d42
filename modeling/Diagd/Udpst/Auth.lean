import Diagd.Udpst.Codec

/-!
# Control PDU authentication (`auth.go`)

HMAC-SHA-256 is a parameter of the model, an arbitrary function of key and
message. Masking and signing are the byte loops of the source, so a PDU
too short for its digest field panics here as it does there.
-/

namespace Diagd.Udpst

open GoSlice

/-- HMAC-SHA-256: key, then message. -/
abbrev HMAC := Bytes → Bytes → Digest

/-- Allowed clock skew of an authenticated setup request, in seconds. -/
abbrev authTimeWindow : Int := 5

abbrev authModeNone : UInt8 := 0
abbrev authModeControl : UInt8 := 1

/-- The directional keys of a version 20 session. -/
structure SessionKeys where
  client : Digest
  server : Digest
  deriving DecidableEq, Repr

/-! ## Key derivation -/

/-- The bytes of `strconv.FormatUint(n, 10)`. -/
def decimalBytes (n : Nat) : Bytes := (Nat.toDigits 10 n).map fun c => UInt8.ofNat c.toNat

/-- The bytes of the label `"UDPSTP"`. -/
def kdfLabel : Bytes := [85, 68, 80, 83, 84, 80]

/-- One block of the counter-mode KDF: counter, label, separator, context,
output length in bits. -/
def kdfBlock (context : Bytes) (counter : UInt32) : Bytes :=
  encodeBE 4 counter.toNat ++ kdfLabel ++ [0] ++ context ++ encodeBE 4 (64 * 8)

/-- `for len(out) < outBytes`; a block appends 32 bytes, so `fuel = 2`
reaches the 64 the loop asks for (`kdfLoop_length`). -/
def kdfLoop (hmac : HMAC) (key context : Bytes) : Nat → UInt32 → Bytes → Bytes
  | 0, _, out => out
  | fuel + 1, counter, out =>
      if out.length < 64 then
        kdfLoop hmac key context fuel (counter + 1)
          (out ++ (hmac key (kdfBlock context counter)).toList)
      else out

def deriveSessionKeys (hmac : HMAC) (sharedKey : Bytes) (authUnixTime : UInt32) : SessionKeys :=
  let out := kdfLoop hmac sharedKey (decimalBytes authUnixTime.toNat) 2 1 []
  { client := Digest.ofBytes (sub out 0 32)
    server := Digest.ofBytes (sub out 32 64) }

/-- The loop has stopped: the derived material is complete. -/
theorem kdfLoop_length (hmac : HMAC) (key context : Bytes) :
    (kdfLoop hmac key context 2 1 []).length = 64 := by
  simp [kdfLoop]

/-! ## Digests -/

/-- The HMAC of a PDU with its digest field zeroed. -/
def computeDigest (hmac : HMAC) (key pdu : Bytes) (digestOff : Nat) : Except Panic Digest := do
  let masked ← zeroRange pdu digestOff 32
  return hmac key masked

def verifyDigest (hmac : HMAC) (key pdu : Bytes) (digestOff : Nat) (received : Digest) :
    Except Panic Bool := do
  let want ← computeDigest hmac key pdu digestOff
  return decide (want = received)

/-- `signPDU`, with the signed PDU as its result. -/
def signPDU (hmac : HMAC) (key pdu : Bytes) (digestOff : Nat) : Except Panic Bytes := do
  let d ← computeDigest hmac key pdu digestOff
  copyInto pdu digestOff (digestOff + 32) d.toList

/-- The message the digest is computed over. -/
def masked (pdu : Bytes) (digestOff : Nat) : Bytes := wr pdu digestOff (List.replicate 32 0)

/-- The PDU with its digest filled in. -/
def signed (hmac : HMAC) (key pdu : Bytes) (digestOff : Nat) : Bytes :=
  wr pdu digestOff (hmac key (masked pdu digestOff)).toList

section Digests

variable {hmac : HMAC} {key pdu : Bytes} {off : Nat}

theorem computeDigest_ok (h : off + 32 ≤ pdu.length) :
    computeDigest hmac key pdu off = .ok (hmac key (masked pdu off)) := by
  rw [computeDigest, zeroRange_ok h]
  rfl

theorem computeDigest_panic (h : pdu.length < off + 32) :
    ∃ p, computeDigest hmac key pdu off = .error p := by
  obtain ⟨p, hp⟩ := zeroRange_panic h (by decide)
  exact ⟨p, by rw [computeDigest, hp]; rfl⟩

theorem verifyDigest_ok (h : off + 32 ≤ pdu.length) (received : Digest) :
    verifyDigest hmac key pdu off received
      = .ok (decide (hmac key (masked pdu off) = received)) := by
  rw [verifyDigest, computeDigest_ok h]
  rfl

theorem verifyDigest_panic (h : pdu.length < off + 32) (received : Digest) :
    ∃ p, verifyDigest hmac key pdu off received = .error p := by
  obtain ⟨p, hp⟩ : ∃ p, computeDigest hmac key pdu off = .error p := computeDigest_panic h
  exact ⟨p, by rw [verifyDigest, hp]; rfl⟩

/-- Signing fills the digest field and changes nothing else. -/
theorem signPDU_ok (h : off + 32 ≤ pdu.length) :
    signPDU hmac key pdu off = .ok (signed hmac key pdu off) := by
  rw [signPDU, computeDigest_ok h, ok_bind, copyInto_ok (by omega) h, Nat.add_sub_cancel_left,
    List.take_of_length_le (by simp)]
  rfl

theorem signed_getD_ne {i : Nat} (h : off + 32 ≤ pdu.length) (hi : i < off ∨ off + 32 ≤ i) :
    (signed hmac key pdu off).getD i 0 = pdu.getD i 0 :=
  getD_wr_ne (by simpa using h) (by simpa using hi)

theorem signPDU_panic (h : pdu.length < off + 32) :
    ∃ p, signPDU hmac key pdu off = .error p := by
  obtain ⟨p, hp⟩ : ∃ p, computeDigest hmac key pdu off = .error p := computeDigest_panic h
  exact ⟨p, by rw [signPDU, hp]; rfl⟩

end Digests

end Diagd.Udpst
