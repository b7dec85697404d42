import Mathlib

/-!
# GoStd — addresses, time and integer conversions

The pieces of Go's `net/netip` and `time` packages a UDP server decides on,
and what its narrowing conversions do to a value.
A `time.Time` is its number of nanoseconds since the Unix epoch and a
`time.Duration` a number of nanoseconds; both are unbounded here (Go's
`int64` nanoseconds overflow after 292 years).
-/

namespace GoStd

/-! ## `net/netip` -/

/-- A valid `netip.Addr`. -/
inductive Addr where
  | v4 (bits : BitVec 32)
  | v6 (bits : BitVec 128) (zone : String)
  deriving DecidableEq, Repr

/-- The IPv4-mapped IPv6 addresses `::ffff:a.b.c.d`. -/
def Addr.is4In6 : Addr → Bool
  | .v4 _ => false
  | .v6 bits _ => bits >>> 32 == 0xffff#128

/-- `Addr.Unmap`: the wrapped address of an IPv4-mapped IPv6 address. -/
def Addr.unmap : Addr → Addr
  | .v4 bits => .v4 bits
  | .v6 bits zone => if (Addr.v6 bits zone).is4In6 then .v4 (bits.truncate 32) else .v6 bits zone

/-- `Addr.Is4`. -/
def Addr.is4 : Addr → Bool
  | .v4 _ => true
  | .v6 _ _ => false

/-- `netip.AddrPort`. -/
structure AddrPort where
  addr : Addr
  port : UInt16
  deriving DecidableEq, Repr

/-! ## `time` -/

abbrev Time := Int
abbrev Duration := Int

abbrev microsecond : Duration := 1000
abbrev millisecond : Duration := 1000000
abbrev second : Duration := 1000000000

/-- `t.Unix()`. -/
def Time.unix (t : Time) : Int := t / 1000000000

/-- `t.Nanosecond()`. -/
def Time.nanosecond (t : Time) : Int := t % 1000000000

/-- `d.Milliseconds()`. -/
def Duration.milliseconds (d : Duration) : Int := d.tdiv 1000000

/-- `d.Microseconds()`. -/
def Duration.microseconds (d : Duration) : Int := d.tdiv 1000

/-! ## Conversions to an unsigned type -/

theorem toNat_uint32_ofInt (z : Int) : ((UInt32.ofInt z).toNat : Int) = z % 2 ^ 32 := by
  have hpos : 0 ≤ z % 2 ^ 32 := Int.emod_nonneg z (by decide)
  have hlt : z % 2 ^ 32 < 2 ^ 32 := Int.emod_lt_of_pos z (by decide)
  rw [UInt32.ofInt, UInt32.toNat_ofNat_of_lt' (show _ < 2 ^ 32 by omega), Int.toNat_of_nonneg hpos]

/-- The signed difference of two truncated values that are not far apart. -/
theorem toInt_int32_sub {a b : Int} (hlow : -2 ^ 31 ≤ a - b) (hhigh : a - b < 2 ^ 31) :
    ((UInt32.ofInt a - UInt32.ofInt b).toInt32).toInt = a - b := by
  have ha := toNat_uint32_ofInt a
  have hb := toNat_uint32_ofInt b
  have hsub := UInt32.toNat_sub (UInt32.ofInt a) (UInt32.ofInt b)
  show (UInt32.ofInt a - UInt32.ofInt b).toBitVec.toInt = _
  rw [BitVec.toInt_eq_toNat_cond]
  change (if 2 * (UInt32.ofInt a - UInt32.ofInt b).toNat < 2 ^ 32 then
    ((UInt32.ofInt a - UInt32.ofInt b).toNat : Int)
    else (UInt32.ofInt a - UInt32.ofInt b).toNat - ((2 ^ 32 : Nat) : Int)) = _
  split <;> omega

/-- A value in range is not changed. -/
theorem toNat_uint16_ofInt {z : Int} (hpos : 0 ≤ z) (hlt : z < 65536) :
    ((UInt16.ofInt z).toNat : Int) = z := by
  have hmod : z % 2 ^ 16 = z := Int.emod_eq_of_lt hpos hlt
  rw [UInt16.ofInt, hmod, UInt16.toNat_ofNat_of_lt' (show _ < 2 ^ 16 by omega),
    Int.toNat_of_nonneg hpos]

theorem toNat_uint8_ofInt {z : Int} (hpos : 0 ≤ z) (hlt : z < 256) :
    ((UInt8.ofInt z).toNat : Int) = z := by
  have hmod : z % 2 ^ 8 = z := Int.emod_eq_of_lt hpos hlt
  rw [UInt8.ofInt, hmod, UInt8.toNat_ofNat_of_lt' (show _ < 2 ^ 8 by omega),
    Int.toNat_of_nonneg hpos]

end GoStd
