import Diagd.Lib.GoStd
import Diagd.Lib.GoText

/-!
# GoNet — addresses as text

How Go writes the address of a peer: `netip.Addr.String`, the shortened form
of IPv6 included, and `net.JoinHostPort`, which puts a host with a colon in
it into brackets. The last colon of such a text is the one in front of the
port (`lastIndex_joinHostPort`); what it cuts off still has the brackets.
-/

namespace GoNet

open GoStd GoText

/-! ## Addresses -/

/-- `strconv.Itoa` of a number that is not negative. -/
def decimal (n : Nat) : Text := Nat.toDigits 10 n

def hex (n : Nat) : Text := Nat.toDigits 16 n

/-- `a.b.c.d`. -/
def dotted (bits : BitVec 32) : Text :=
  List.intercalate ['.'] ([24, 16, 8, 0].map fun k => decimal ((bits >>> k).toNat % 256))

/-- The eight groups of an IPv6 address. -/
def groups (bits : BitVec 128) : List Nat :=
  [112, 96, 80, 64, 48, 32, 16, 0].map fun k => (bits >>> k).toNat % 65536

/-- The longest run of two or more zero groups, the first one if there are
several: where it starts and where it ends. -/
def zeroRun (gs : List Nat) : Option (Nat × Nat) :=
  (List.range 8).foldl (fun best i =>
    let n := ((gs.drop i).takeWhile (· == 0)).length
    let m := match best with
      | none => 1
      | some (start, stop) => stop - start
    if m < n then some (i, i + n) else best) none

def colonHex (gs : List Nat) : Text := List.intercalate [':'] (gs.map hex)

/-- The groups in hexadecimal, with `::` for the run of zeros. -/
def hextets (bits : BitVec 128) : Text :=
  match zeroRun (groups bits) with
  | none => colonHex (groups bits)
  | some (start, stop) =>
      colonHex ((groups bits).take start) ++ ':' :: ':' :: colonHex ((groups bits).drop stop)

/-- `Addr.String` of an address that is not IPv4-mapped. -/
def addrText : Addr → Text
  | .v4 bits => dotted bits
  | .v6 bits zone => hextets bits ++ if zone = "" then [] else '%' :: zone.toList

theorem not_colon_of_mem_decimal {n : Nat} {c : Char} (h : c ∈ decimal n) : c ≠ ':' := by
  rintro rfl
  cases Nat.isDigit_of_mem_toDigits (by decide) (by decide) h

theorem colon_not_mem_dotted (bits : BitVec 32) : ':' ∉ dotted bits := by
  have hdecimal : ∀ n, ':' ∉ decimal n := fun n h => not_colon_of_mem_decimal h rfl
  simp [dotted, List.intercalate, List.intersperse, hdecimal]

theorem colon_mem_hextets (bits : BitVec 128) : ':' ∈ hextets bits := by
  unfold hextets
  split
  · simp [colonHex, groups, List.intercalate, List.intersperse]
  · simp

/-- Exactly the IPv6 addresses are written with colons. -/
theorem colon_mem_addrText (a : Addr) : ':' ∈ addrText a ↔ a.is4 = false := by
  cases a with
  | v4 bits => simp [addrText, Addr.is4, colon_not_mem_dotted]
  | v6 bits zone => simp [addrText, Addr.is4, colon_mem_hextets]

theorem addrText_ne_nil (a : Addr) : addrText a ≠ [] := by
  cases a with
  | v4 bits => simp [addrText, dotted, List.intercalate, List.intersperse, decimal]
  | v6 bits zone =>
      have hcolon := colon_mem_hextets bits
      intro hnil
      rw [addrText, List.append_eq_nil_iff] at hnil
      rw [hnil.1] at hcolon
      cases hcolon

/-! ## Hosts and ports -/

/-- `net.JoinHostPort`. -/
def joinHostPort (host port : Text) : Text :=
  if ':' ∈ host then '[' :: host ++ ']' :: ':' :: port else host ++ ':' :: port

/-- `TCPAddr.String`: an IPv4-mapped address is written as the IPv4 address. -/
def tcpAddrText (ap : AddrPort) : Text :=
  joinHostPort (addrText ap.addr.unmap) (decimal ap.port.toNat)

/-- What stands in front of the port. -/
def bracketed (host : Text) : Text := if ':' ∈ host then '[' :: host ++ [']'] else host

theorem joinHostPort_eq (host port : Text) : joinHostPort host port = bracketed host ++ ':' :: port := by
  unfold joinHostPort bracketed
  split <;> simp

theorem colon_mem_bracketed {host : Text} : ':' ∈ bracketed host ↔ ':' ∈ host := by
  unfold bracketed
  split <;> simp [*]

theorem bracketed_inj {a b : Text} (h : bracketed a = bracketed b) : a = b := by
  have hcolon : ':' ∈ a ↔ ':' ∈ b := by rw [← colon_mem_bracketed, h, colon_mem_bracketed]
  unfold bracketed at h
  by_cases ha : ':' ∈ a
  · simpa [ha, hcolon.mp ha] using h
  · have hb : ':' ∉ b := fun hb => ha (hcolon.mpr hb)
    simpa [ha, hb] using h

theorem bracketed_ne_nil {host : Text} (h : host ≠ []) : bracketed host ≠ [] := by
  unfold bracketed
  split
  · simp
  · exact h

theorem lastIndex_joinHostPort (host : Text) (port : Nat) :
    lastIndex (joinHostPort host (decimal port)) ':' = (bracketed host).length := by
  rw [joinHostPort_eq]
  exact lastIndex_append fun h => not_colon_of_mem_decimal h rfl

example : addrText (.v6 0x20010db8000000000000000000000001#128 "") = "2001:db8::1".toList := by
  decide

end GoNet
