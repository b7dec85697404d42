import Mathlib

/-!
# GoText — names and numbers in request text

The pieces of Go's `strings`, `path` and `strconv` packages with which a
server reads names and numbers, on texts given as lists of characters.
-/

namespace GoText

abbrev Text := List Char

/-! ## `strings` -/

/-- `strings.CutPrefix(s, start)`. -/
def cutPrefix (s start : Text) : Option Text :=
  if start.isPrefixOf s then some (s.drop start.length) else none

/-- `strings.TrimSuffix(s, tail)`. -/
def trimSuffix (s tail : Text) : Text :=
  if tail.isSuffixOf s then s.take (s.length - tail.length) else s

/-- `strings.LastIndex(s, c)` for a text of one character, in characters. -/
def lastIndex (s : Text) (c : Char) : Int :=
  match s.reverse.findIdx? (· == c) with
  | none => -1
  | some j => s.length - 1 - j

theorem lastIndex_append {a b : Text} {c : Char} (hb : c ∉ b) :
    lastIndex (a ++ c :: b) c = a.length := by
  have hskip : b.reverse.findIdx? (· == c) = none := by
    simp only [List.findIdx?_eq_none_iff, List.mem_reverse, beq_eq_false_iff_ne]
    rintro x hx rfl
    exact hb hx
  have hfind : (a ++ c :: b).reverse.findIdx? (· == c) = some b.length := by
    simp [List.findIdx?_append, hskip, List.findIdx?_cons]
  rw [lastIndex, hfind]
  simp
  omega

/-- A run of characters of one class ends where the class does. -/
theorem span_append {p : Char → Bool} {xs ys : Text} (hxs : ∀ c ∈ xs, p c = true)
    (hys : ∀ c ∈ ys.head?, p c = false) :
    (xs ++ ys).takeWhile p = xs ∧ (xs ++ ys).dropWhile p = ys := by
  rw [List.takeWhile_append_of_pos hxs, List.dropWhile_append_of_pos hxs]
  cases ys with
  | nil => simp
  | cons c cs =>
      have hc : p c = false := hys c rfl
      simp [hc]

/-! ## `path` -/

/-- `path.Base`: the last element, without trailing slashes. -/
def base (path : Text) : Text :=
  if path = [] then ['.']
  else
    match (path.reverse.dropWhile (· == '/')).takeWhile (· != '/') with
    | [] => ['/']
    | last => last.reverse

/-- `path.Ext`: from the final dot of the last element on. -/
def ext (path : Text) : Text :=
  match (path.reverse.takeWhile (· != '/')).span (· != '.') with
  | (after, '.' :: _) => '.' :: after.reverse
  | (_, _) => []

/-! ## `strconv` -/

def digitValue (c : Char) : Nat := c.toNat - '0'.toNat

def digitsValue (ds : Text) : Nat := ds.foldl (fun n c => 10 * n + digitValue c) 0

/-- The sign and the rest of a number. -/
def cutSign : Text → Bool × Text
  | '-' :: ds => (true, ds)
  | '+' :: ds => (false, ds)
  | ds => (false, ds)

/-- `strconv.ParseInt(s, 10, 64)`, without the reason for an error. -/
def parseInt (s : Text) : Option Int :=
  match cutSign s with
  | (negative, ds) =>
      if ds = [] ∨ ds.all Char.isDigit = false then none
      else if negative then if digitsValue ds ≤ 2 ^ 63 then some (-digitsValue ds) else none
      else if digitsValue ds < 2 ^ 63 then some (digitsValue ds) else none

theorem cutSign_digits {ds : Text} (hdigits : ds.all Char.isDigit = true) :
    cutSign ds = (false, ds) := by
  cases ds with
  | nil => rfl
  | cons c cs =>
      have hc : c.isDigit = true := (List.all_eq_true.mp hdigits) c (by simp)
      unfold cutSign
      split
      · next heq =>
          cases heq
          cases hc
      · next heq =>
          cases heq
          cases hc
      · rfl

/-- On digits alone, the value decides. -/
theorem parseInt_digits {ds : Text} (hne : ds ≠ []) (hdigits : ds.all Char.isDigit = true) :
    parseInt ds = if digitsValue ds < 2 ^ 63 then some (digitsValue ds : Int) else none := by
  simp [parseInt, cutSign_digits hdigits, hne, hdigits]

/-- `strconv.Atoi`, where an `int` has 64 bits. -/
def atoi (s : Text) : Option Int := parseInt s

example : base "/files/500KB.bin/".toList = "500KB.bin".toList := by decide

example : ext "10.tar.gz".toList = ".gz".toList := by decide

example : atoi "+42".toList = some 42 := by decide

end GoText
