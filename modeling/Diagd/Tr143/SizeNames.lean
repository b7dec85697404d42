import Diagd.Tr143.Request

/-!
# The size a name denotes (`sizeNameRE`, `parseSizeName`)

`SizeName` is the grammar of the names, with the number of bytes a name
denotes. The regular expression reads exactly the texts of the grammar, in
one way each (`sizeNameRE_eq_some`), so a name denotes at most one number.

`parseSizeName` refuses digits that do not fit into an `int64`. The product
with the unit is NOT checked: it wraps, and the limit of `downloadSized` is
then applied to what is left of it (`Overflows`).
-/

namespace Diagd.Tr143

open GoText

/-! ## The grammar -/

/-- Digits, optionally a unit of two letters, optionally an extension. -/
structure SizeName where
  digits : Text
  unit : Option (Char × Char) := none
  extension : Option Text := none
  digits_ne : digits ≠ []
  digits_all : digits.all Char.isDigit = true
  unit_letters : ∀ u ∈ unit, u.1 ∈ "kKmMgG".toList ∧ u.2 ∈ "bB".toList
  extension_ne : ∀ e ∈ extension, e ≠ []
  extension_all : ∀ e ∈ extension, e.all Char.isAlphanum = true

/-- The units are decimal. -/
def unitFactor : Option Char → Nat
  | none => 1
  | some u => if u ∈ "kK".toList then 10 ^ 3 else if u ∈ "mM".toList then 10 ^ 6 else 10 ^ 9

namespace SizeName

def unitText (n : SizeName) : Text :=
  match n.unit with
  | none => []
  | some (u, b) => [u, b]

def extensionText (n : SizeName) : Text :=
  match n.extension with
  | none => []
  | some e => '.' :: e

def text (n : SizeName) : Text := n.digits ++ (n.unitText ++ n.extensionText)

/-- `K`, `M` or `G`, in either case. -/
def unitLetter (n : SizeName) : Option Char := n.unit.map Prod.fst

/-- The number of bytes, as a natural number. -/
def bytes (n : SizeName) : Nat := digitsValue n.digits * unitFactor n.unitLetter

end SizeName

/-- The name denotes this many bytes. -/
def Denotes (name : Text) (bytes : Nat) : Prop := ∃ n : SizeName, n.text = name ∧ n.bytes = bytes

/-- The digits fit into an `int64`, the number of bytes does not. -/
def Overflows (name : Text) : Prop :=
  ∃ n : SizeName, n.text = name ∧ digitsValue n.digits < 2 ^ 63 ∧ 2 ^ 63 ≤ n.bytes

/-! ## The regular expression reads the grammar -/

namespace SizeName

variable (n : SizeName)

theorem unitGroup_text : unitGroup (n.unitText ++ n.extensionText) =
    (n.unitLetter.toList, n.extensionText) := by
  cases hunit : n.unit with
  | some u =>
      obtain ⟨hu, hb⟩ := n.unit_letters u hunit
      rw [unitText, unitLetter, hunit]
      exact if_pos (Bool.and_eq_true_iff.mpr
        ⟨List.contains_iff_mem.mpr hu, List.contains_iff_mem.mpr hb⟩)
  | none =>
      cases hext : n.extension with
      | none => simp [unitText, extensionText, unitLetter, hunit, hext, unitGroup]
      | some e =>
          -- a dot is no unit
          obtain ⟨c, cs, rfl⟩ := List.exists_cons_of_ne_nil (n.extension_ne e hext)
          simp [unitText, extensionText, unitLetter, hunit, hext, unitGroup]

theorem extensionGroup_text : extensionGroup n.extensionText = true := by
  cases hext : n.extension with
  | none => simp [extensionText, hext, extensionGroup]
  | some e =>
      have hne := n.extension_ne e hext
      have hall := n.extension_all e hext
      simp [extensionText, hext, extensionGroup, hne, hall]

/-- The digits end where the unit, the extension or the text does. -/
theorem rest_not_digit : ∀ c ∈ (n.unitText ++ n.extensionText).head?, c.isDigit = false := by
  cases hunit : n.unit with
  | some u =>
      have hletter : ∀ c ∈ "kKmMgG".toList, c.isDigit = false := by simp
      have hu := hletter u.1 (n.unit_letters u hunit).1
      simpa [unitText, hunit] using hu
  | none =>
      cases hext : n.extension with
      | none => simp [unitText, extensionText, hunit, hext]
      | some e => simp [unitText, extensionText, hunit, hext]

/-- The reading of a name. -/
theorem sizeNameRE_text : sizeNameRE n.text = some (n.digits, n.unitLetter.toList) := by
  have hdigits : ∀ c ∈ n.digits, c.isDigit = true := List.all_eq_true.mp n.digits_all
  obtain ⟨htake, hdrop⟩ := span_append hdigits n.rest_not_digit
  obtain ⟨d, ds, hd⟩ := List.exists_cons_of_ne_nil n.digits_ne
  rw [sizeNameRE, text, htake, hdrop, unitGroup_text, hd]
  simp [extensionGroup_text]

theorem bytes_of_text_eq {n n' : SizeName} (h : n.text = n'.text) : n.bytes = n'.bytes := by
  have hread := n.sizeNameRE_text
  rw [h, n'.sizeNameRE_text] at hread
  obtain ⟨hdigits, hunit⟩ := Prod.mk.inj (Option.some.inj hread)
  have hletter : n'.unitLetter = n.unitLetter := by
    cases h₁ : n'.unitLetter <;> cases h₂ : n.unitLetter <;> simp_all
  rw [bytes, bytes, hdigits, hletter]

end SizeName

theorem unitGroup_cases (rest : Text) :
    (∃ u b rest', rest = u :: b :: rest' ∧ u ∈ "kKmMgG".toList ∧ b ∈ "bB".toList ∧
        unitGroup rest = ([u], rest')) ∨
      unitGroup rest = ([], rest) := by
  unfold unitGroup
  split
  · next u b rest' =>
      split
      · next hletters =>
          obtain ⟨hu, hb⟩ := Bool.and_eq_true_iff.mp hletters
          exact .inl ⟨u, b, rest', rfl, List.contains_iff_mem.mp hu, List.contains_iff_mem.mp hb,
            rfl⟩
      · exact .inr rfl
  · exact .inr rfl

theorem extensionGroup_cases {rest : Text} (h : extensionGroup rest = true) :
    rest = [] ∨ ∃ e, rest = '.' :: e ∧ e ≠ [] ∧ e.all Char.isAlphanum = true := by
  unfold extensionGroup at h
  split at h
  · exact .inl rfl
  · next e =>
      obtain ⟨hne, hall⟩ := Bool.and_eq_true_iff.mp h
      exact .inr ⟨e, rfl, bne_iff_ne.mp hne, hall⟩
  · cases h

/-- What is behind the digits is a unit and an extension. -/
theorem exists_sizeName {digits rest : Text} (hne : digits ≠ [])
    (hdigits : digits.all Char.isDigit = true)
    (hext : extensionGroup (unitGroup rest).2 = true) :
    ∃ n : SizeName, n.text = digits ++ rest := by
  -- the extension first, since both forms of the unit end in one
  have hextension : ∃ e : Option Text, (unitGroup rest).2 = (e.elim [] fun e => '.' :: e) ∧
      (∀ x ∈ e, x ≠ []) ∧ ∀ x ∈ e, x.all Char.isAlphanum = true := by
    rcases extensionGroup_cases hext with hnil | ⟨e, he, hne, hall⟩
    · exact ⟨none, hnil, by simp, by simp⟩
    · exact ⟨some e, he, by simpa using hne, by simpa using hall⟩
  obtain ⟨e, he, hene, heall⟩ := hextension
  rcases unitGroup_cases rest with ⟨u, b, rest', rfl, hu, hb, hgroup⟩ | hgroup
  · refine ⟨⟨digits, some (u, b), e, hne, hdigits, by rintro _ ⟨⟩; exact ⟨hu, hb⟩, hene, heall⟩, ?_⟩
    rw [hgroup] at he
    cases e <;> simp_all [SizeName.text, SizeName.unitText, SizeName.extensionText]
  · refine ⟨⟨digits, none, e, hne, hdigits, by simp, hene, heall⟩, ?_⟩
    rw [hgroup] at he
    cases e <;> simp_all [SizeName.text, SizeName.unitText, SizeName.extensionText]

/-- **The expression matches the texts of the grammar**, and no others. -/
theorem sizeNameRE_eq_some {name : Text} {m : Text × Text} :
    sizeNameRE name = some m ↔
      ∃ n : SizeName, n.text = name ∧ m = (n.digits, n.unitLetter.toList) := by
  constructor
  · intro h
    have hname : ∃ n : SizeName, n.text = name := by
      have hall : (name.takeWhile Char.isDigit).all Char.isDigit = true := by simp
      rw [← List.takeWhile_append_dropWhile (p := Char.isDigit) (l := name)]
      unfold sizeNameRE at h
      split at h
      · cases h
      · next hgroup hne =>
          split at h
          · next hext => exact exists_sizeName hne hall (by rw [hgroup]; exact hext)
          · cases h
    obtain ⟨n, rfl⟩ := hname
    exact ⟨n, rfl, Option.some.inj (h.symm.trans n.sizeNameRE_text)⟩
  · rintro ⟨n, rfl, rfl⟩
    exact n.sizeNameRE_text

/-! ## What is returned -/

theorem Denotes.unique {name : Text} {a b : Nat} (ha : Denotes name a) (hb : Denotes name b) :
    a = b := by
  obtain ⟨n, hn, rfl⟩ := ha
  obtain ⟨n', rfl, rfl⟩ := hb
  exact SizeName.bytes_of_text_eq hn

namespace SizeName

variable (n : SizeName)

/-- The digits are checked, the product with the unit wraps. -/
theorem parseSizeName_text : parseSizeName n.text =
    if digitsValue n.digits < 2 ^ 63 then some (Int64.ofInt n.bytes) else none := by
  rw [parseSizeName, n.sizeNameRE_text]
  dsimp only
  rw [parseInt_digits n.digits_ne n.digits_all]
  by_cases hfits : digitsValue n.digits < 2 ^ 63
  · simp only [if_pos hfits]
    cases hunit : n.unit with
    | none => simp [bytes, unitLetter, hunit, unitFactor]
    | some u =>
        have hu := (n.unit_letters u hunit).1
        -- one case for each letter
        simp only [String.reduceToList, List.mem_cons, List.not_mem_nil, or_false] at hu
        rcases hu with hu | hu | hu | hu | hu | hu <;>
          simp [bytes, unitLetter, hunit, hu, unitFactor, Int64.ofInt_mul]
  · simp only [if_neg hfits]

theorem digitsValue_le_bytes : digitsValue n.digits ≤ n.bytes := by
  refine Nat.le_mul_of_pos_right _ ?_
  unfold unitFactor
  split
  · decide
  · split_ifs <;> decide

end SizeName

theorem parseSizeName_eq_some {name : Text} {size : Int64} : parseSizeName name = some size ↔
    ∃ n : SizeName, n.text = name ∧ digitsValue n.digits < 2 ^ 63 ∧ size = Int64.ofInt n.bytes := by
  constructor
  · intro h
    obtain ⟨n, rfl⟩ : ∃ n : SizeName, n.text = name := by
      unfold parseSizeName at h
      split at h
      · cases h
      · next hread =>
          obtain ⟨n, hn, -⟩ := sizeNameRE_eq_some.mp hread
          exact ⟨n, hn⟩
    rw [n.parseSizeName_text] at h
    obtain ⟨hfits, hsize⟩ := Option.ite_none_right_eq_some.mp h
    exact ⟨n, rfl, hfits, (Option.some.inj hsize).symm⟩
  · rintro ⟨n, rfl, hfits, rfl⟩
    rw [n.parseSizeName_text, if_pos hfits]

theorem toInt_ofInt_bytes {n : Nat} (h : n < 2 ^ 63) : (Int64.ofInt n).toInt = n :=
  Int64.toInt_ofInt_of_le (by omega) (by omega)

theorem downloadSized_eq_ok {cfg : HTTPConfig} {size : Int64} {plan : Plan}
    (hcap : 0 < cfg.maxDownloadBytes) :
    cfg.downloadSized size = .ok plan ↔
      size.toInt ≤ cfg.maxDownloadBytes.toInt ∧ plan = .sized size := by
  unfold HTTPConfig.downloadSized
  split
  · next hover =>
      have hlt := Int64.lt_iff_toInt_lt.mp hover.2
      constructor
      · intro h
        cases h
      · rintro ⟨hle, -⟩
        omega
  · next hunder =>
      have hle : ¬ cfg.maxDownloadBytes.toInt < size.toInt :=
        fun hlt => hunder ⟨hcap, Int64.lt_iff_toInt_lt.mpr hlt⟩
      constructor
      · intro h
        cases h
        exact ⟨Int.not_lt.mp hle, rfl⟩
      · rintro ⟨-, rfl⟩
        rfl

/-- The size is the number of bytes the name denotes. -/
def SizeExact (name : Text) : Prop :=
  ∀ size : Int64, parseSizeName name = some size ↔
    ∃ bytes : Nat, Denotes name bytes ∧ bytes < 2 ^ 63 ∧ size.toInt = bytes

/-- A limit lets through only names that denote no more. -/
def LimitHolds (name : Text) : Prop :=
  ∀ (cfg : HTTPConfig) (size : Int64) (plan : Plan), 0 < cfg.maxDownloadBytes →
    parseSizeName name = some size → cfg.downloadSized size = .ok plan →
      ∃ bytes : Nat, Denotes name bytes ∧ (bytes : Int) ≤ cfg.maxDownloadBytes.toInt

theorem sizeExact_of_not_overflows {name : Text} (h : ¬ Overflows name) : SizeExact name := by
  intro size
  rw [parseSizeName_eq_some]
  constructor
  · rintro ⟨n, hn, hfits, rfl⟩
    have hbytes : n.bytes < 2 ^ 63 := Nat.not_le.mp fun hbig => h ⟨n, hn, hfits, hbig⟩
    exact ⟨n.bytes, ⟨n, hn, rfl⟩, hbytes, toInt_ofInt_bytes hbytes⟩
  · rintro ⟨_, ⟨n, hn, rfl⟩, hbytes, hsize⟩
    refine ⟨n, hn, n.digitsValue_le_bytes.trans_lt hbytes, Int64.toInt_inj.mp ?_⟩
    rw [hsize, toInt_ofInt_bytes hbytes]

theorem SizeExact.limitHolds {name : Text} (h : SizeExact name) : LimitHolds name := by
  intro cfg size plan hcap hparse hplan
  obtain ⟨bytes, hdenotes, -, hsize⟩ := (h size).mp hparse
  have hle := ((downloadSized_eq_ok hcap).mp hplan).1
  exact ⟨bytes, hdenotes, hsize ▸ hle⟩

/-- The highest limit there is does not stop a size that has wrapped. -/
theorem not_overflows_of_limitHolds {name : Text} (h : LimitHolds name) : ¬ Overflows name := by
  rintro ⟨n, hn, hfits, hbig⟩
  have hparse : parseSizeName name = some (Int64.ofInt n.bytes) :=
    parseSizeName_eq_some.mpr ⟨n, hn, hfits, rfl⟩
  obtain ⟨cfg, hmaxCap⟩ : ∃ cfg : HTTPConfig, cfg.maxDownloadBytes = Int64.maxValue :=
    ⟨{ maxDownloadBytes := Int64.maxValue }, rfl⟩
  have hcap : 0 < cfg.maxDownloadBytes := by
    rw [hmaxCap]
    decide
  have hplan : cfg.downloadSized (Int64.ofInt n.bytes) = .ok (.sized (Int64.ofInt n.bytes)) := by
    rw [downloadSized_eq_ok hcap, hmaxCap]
    exact ⟨Int64.toInt_le _, rfl⟩
  obtain ⟨bytes, hdenotes, hle⟩ := h cfg _ _ hcap hparse hplan
  rw [hmaxCap] at hle
  have hsame : bytes = n.bytes := hdenotes.unique ⟨n, hn, rfl⟩
  have hmax : (bytes : Int) ≤ 2 ^ 63 - 1 := hle.trans_eq Int64.toInt_maxValue
  omega

/-- **A name is read as the size it denotes, and held to the limit, exactly if
the product of its digits and its unit fits into an `int64`.** -/
theorem size_exact_iff (name : Text) :
    (SizeExact name ↔ ¬ Overflows name) ∧ (LimitHolds name ↔ ¬ Overflows name) :=
  ⟨⟨fun h => not_overflows_of_limitHolds h.limitHolds, sizeExact_of_not_overflows⟩,
    ⟨not_overflows_of_limitHolds, fun h => (sizeExact_of_not_overflows h).limitHolds⟩⟩

/-- More than 18 exabytes, and 290 megabytes after they have wrapped. -/
def wrappedName : SizeName where
  digits := ['1', '8', '4', '4', '6', '7', '4', '4', '0', '7', '4']
  unit := some ('G', 'B')
  digits_ne := by decide
  digits_all := by decide
  unit_letters := by simp
  extension_ne := by simp
  extension_all := by simp

/-- A server with a limit of a gigabyte serves it. -/
theorem wrapped_size_served :
    Denotes "18446744074GB".toList 18446744074000000000 ∧
      parseSizeName "18446744074GB".toList = some 290448384 ∧
      HTTPConfig.serveHTTP { maxDownloadBytes := 1000000000 }
        { method := .get, path := "/18446744074GB".toList } = .ok (.sized 290448384) := by
  refine ⟨⟨wrappedName, ?_, ?_⟩, ?_, ?_⟩
  · decide
  · decide +kernel
  · decide +kernel
  · decide +kernel

end Diagd.Tr143
