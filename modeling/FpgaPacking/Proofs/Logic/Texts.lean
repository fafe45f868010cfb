import FpgaPacking.Proofs.Logic.Determined
import Mathlib.Data.String.Basic

/-!
# Vectors as texts and as integers

A vector that has been built is the vector of the list of its values, lowest
position first.  So a conversion is a conversion of lists.  A text is such a list
back to front, one character for each value, or four values for each character
if the digits are hexadecimal.  An integer is such a list in which every value
is defined.
-/

namespace FpgaPacking

/-! ## Digits -/

namespace Logic

/-- The characters that are read as values. -/
def digits : List Char := ['0', '1', 'x', 'X', 'z', 'Z']

variable {c : Char} {value : Logic}

theorem ofChar?_isSome : (ofChar? c).isSome ↔ c ∈ digits := by
  unfold ofChar?
  split
  · simp [digits]
  · simp [digits]
  · simp [digits]
  · simp [digits]
  · simp [digits]
  · simp [digits]
  · simp_all [digits]

/-- The character of the value of a digit is the digit in upper case. -/
theorem char_of_ofChar? (h : ofChar? c = some value) : value.char = c.toUpper := by
  have hall : digits.Forall fun d => (ofChar? d).map char = some d.toUpper := by decide
  have hdigit : c ∈ digits := ofChar?_isSome.mp (by rw [h]; rfl)
  have hchar := List.forall_iff_forall_mem.mp hall c hdigit
  rw [h] at hchar
  exact Option.some.inj hchar

theorem toBool?_isSome : value.toBool?.isSome ↔ value ≠ .x ∧ value ≠ .z := by
  cases value <;> decide

end Logic

namespace LogicVec

/-- The hexadecimal digits. -/
def hexDigits : List Char :=
  ['0', '1', '2', '3', '4', '5', '6', '7', '8', '9',
    'a', 'b', 'c', 'd', 'e', 'f', 'A', 'B', 'C', 'D', 'E', 'F']

/-- The four binary digits of a hexadecimal digit, highest first. -/
def expansion : Char → List Char
  | '0' => ['0', '0', '0', '0']
  | '1' => ['0', '0', '0', '1']
  | '2' => ['0', '0', '1', '0']
  | '3' => ['0', '0', '1', '1']
  | '4' => ['0', '1', '0', '0']
  | '5' => ['0', '1', '0', '1']
  | '6' => ['0', '1', '1', '0']
  | '7' => ['0', '1', '1', '1']
  | '8' => ['1', '0', '0', '0']
  | '9' => ['1', '0', '0', '1']
  | 'a' | 'A' => ['1', '0', '1', '0']
  | 'b' | 'B' => ['1', '0', '1', '1']
  | 'c' | 'C' => ['1', '1', '0', '0']
  | 'd' | 'D' => ['1', '1', '0', '1']
  | 'e' | 'E' => ['1', '1', '1', '0']
  | 'f' | 'F' => ['1', '1', '1', '1']
  | _ => []

/-- The text with each hexadecimal digit replaced by its binary digits. -/
def expanded (text : String) : String := String.ofList (text.toList.flatMap expansion)

theorem toNat_lt_of_hexDigit? {c : Char} (h : (hexDigit? c).isSome) : c.toNat < 128 := by
  have hle : ∀ d : Char, c ≤ d → c.toNat ≤ d.toNat := fun _ hcd => hcd
  have hnine : '9'.toNat < 128 := by decide
  have hsmall : 'f'.toNat < 128 := by decide
  have hlarge : 'F'.toNat < 128 := by decide
  unfold hexDigit? at h
  split at h
  · next hrange => exact Nat.lt_of_le_of_lt (hle _ hrange.2) hnine
  · split at h
    · next hrange => exact Nat.lt_of_le_of_lt (hle _ hrange.2) hsmall
    · split at h
      · next hrange => exact Nat.lt_of_le_of_lt (hle _ hrange.2) hlarge
      · cases h

theorem hexDigit?_isSome {c : Char} : (hexDigit? c).isSome ↔ c ∈ hexDigits := by
  constructor
  · intro h
    -- The digits are ASCII, so there are no more characters than these to try.
    have hall : ∀ n, n < 128 → (hexDigit? (Char.ofNat n)).isSome → Char.ofNat n ∈ hexDigits := by
      decide +kernel
    have hc := hall c.toNat (toNat_lt_of_hexDigit? h)
    rw [Char.ofNat_toNat] at hc
    exact hc h
  · have hall : hexDigits.Forall fun d => (hexDigit? d).isSome := by decide +kernel
    exact List.forall_iff_forall_mem.mp hall c

/-- The binary digits of a hexadecimal digit are the digits of its four values. -/
theorem reads_expansion {c : Char} {number : Nat} (h : hexDigit? c = some number) :
    List.Forall₂ (fun d value => Logic.ofChar? d = some value) (expansion c).reverse
      (nibble number) := by
  have hall : hexDigits.Forall fun d =>
      (expansion d).reverse.mapM Logic.ofChar? = (hexDigit? d).map nibble := by decide +kernel
  have hdigit : c ∈ hexDigits := hexDigit?_isSome.mp (by rw [h]; rfl)
  have hread := List.forall_iff_forall_mem.mp hall c hdigit
  rw [h] at hread
  exact option_mapM_eq_some.mp hread

/-! ## The values of a vector as a list -/

variable {v w : LogicVec} {values : List Logic} {digits : List Char}

theorem values_eq_ok : v.values = .ok values ↔
    values.length = v.width ∧ ∀ i value, values[i]? = some value → v.get i = .ok value := by
  unfold LogicVec.values
  rw [except_mapM_ok, List.forall₂_iff_get]
  constructor
  · intro ⟨hlength, hget⟩
    refine ⟨by rw [← hlength, List.length_range], fun i value hvalue => ?_⟩
    obtain ⟨hi, rfl⟩ := List.getElem?_eq_some_iff.mp hvalue
    have hread := hget i (hlength ▸ hi) hi
    simpa using hread
  · intro ⟨hlength, hget⟩
    refine ⟨by rw [List.length_range, hlength], fun i hrange hi => ?_⟩
    have hread := hget i values[i] (List.getElem?_eq_getElem hi)
    simpa using hread

/-- Writing a list from position `k` on puts its values there and leaves the positions before. -/
theorem get_foldl_put {k : Nat} (hstored : v.Stored) (hwidth : k + values.length ≤ v.width) :
    (∀ j, j < k →
      ((values.zipIdx k).foldl (fun v entry => v.put entry.2 entry.1) v).get j = v.get j) ∧
    ∀ j value, values[j]? = some value →
      ((values.zipIdx k).foldl (fun v entry => v.put entry.2 entry.1) v).get (k + j) =
        .ok value := by
  induction values generalizing v k with
  | nil => exact ⟨fun _ _ => rfl, nofun⟩
  | cons first rest ih =>
    have hk : k < v.width := by
      simp only [List.length_cons] at hwidth
      omega
    have hrest : k + 1 + rest.length ≤ (v.put k first).width := by
      show _ ≤ v.width
      simp only [List.length_cons] at hwidth
      omega
    obtain ⟨hbefore, hafter⟩ := ih hstored.put hrest
    -- What is written from `k + 1` on leaves position `k` as `first`.
    rw [List.zipIdx_cons, List.foldl_cons]
    dsimp only
    constructor
    · intro j hj
      rw [hbefore j (by omega), get_put hk (hstored k hk), if_neg (by omega)]
    · intro j value hvalue
      cases j with
      | zero =>
        rw [List.getElem?_cons_zero] at hvalue
        rw [hbefore (k + 0) (by omega), get_put hk (hstored k hk), if_pos (Nat.add_zero k)]
        exact congrArg Except.ok (Option.some.inj hvalue)
      | succ j =>
        rw [List.getElem?_cons_succ] at hvalue
        rw [show k + (j + 1) = k + 1 + j by omega]
        exact hafter j value hvalue

theorem width_ofValues (values : List Logic) : (ofValues values).width = values.length := by
  have hkept : ∀ (entries : List (Logic × Nat)) (v : LogicVec),
      (entries.foldl (fun v entry => v.put entry.2 entry.1) v).width = v.width := by
    intro entries
    induction entries with
    | nil => exact fun _ => rfl
    | cons entry rest ih => exact fun v => ih (v.put entry.2 entry.1)
  exact hkept values.zipIdx (zeros values.length)

theorem values_ofValues (values : List Logic) : (ofValues values).values = .ok values := by
  rw [values_eq_ok]
  refine ⟨(width_ofValues values).symm, fun i value hvalue => ?_⟩
  have hfits : 0 + values.length ≤ (zeros values.length).width := by
    rw [Nat.zero_add]
    exact Nat.le_refl _
  have hwritten := (get_foldl_put (stored_zeros values.length) hfits).2 i value hvalue
  rw [Nat.zero_add] at hwritten
  exact hwritten

theorem lt_width_of_get {i : Nat} {value : Logic} (h : v.get i = .ok value) : i < v.width := by
  by_contra hi
  unfold get at h
  rw [if_neg hi] at h
  cases h

theorem get_ofValues {i : Nat} {value : Logic} :
    (ofValues values).get i = .ok value ↔ values[i]? = some value := by
  obtain ⟨hlength, hget⟩ := values_eq_ok.mp (values_ofValues values)
  constructor
  · intro h
    have hi : i < values.length := hlength ▸ lt_width_of_get h
    have hstored := hget i _ (List.getElem?_eq_getElem hi)
    rw [h] at hstored
    rw [List.getElem?_eq_getElem hi]
    exact congrArg some (Except.ok.inj hstored).symm
  · exact hget i value

theorem Packed.eq_ofValues (h : v.Packed) (hvalues : v.values = .ok values) :
    v = ofValues values := by
  obtain ⟨hlength, hget⟩ := values_eq_ok.mp hvalues
  refine h.ext (packed_ofValues values) (by rw [width_ofValues, hlength]) fun i hi => ?_
  have hvalue : values[i]? = some values[i] := List.getElem?_eq_getElem (hlength ▸ hi)
  rw [hget i _ hvalue, get_ofValues.mpr hvalue]

/-- A vector that was built is the vector of a list. -/
theorem Built.exists_eq_ofValues (h : v.Built) : ∃ values, v = ofValues values := by
  obtain ⟨values, hvalues⟩ := h.stored.exists_values
  exact ⟨values, h.packed.eq_ofValues hvalues⟩

/-! ## Texts -/

theorem display_ofValues (values : List Logic) :
    (ofValues values).display = .ok (String.ofList (values.reverse.map Logic.char)) := by
  unfold display
  rw [values_ofValues]
  rfl

/-- The digits are the characters of the values, the highest position first. -/
structure Spells (digits : List Char) (v : LogicVec) : Prop where
  length : digits.length = v.width
  digit : ∀ i c, digits[i]? = some c →
    ∃ value, v.get (v.width - 1 - i) = .ok value ∧ value.char = c

theorem spells_ofValues (values : List Logic) :
    Spells (values.reverse.map Logic.char) (ofValues values) where
  length := by rw [width_ofValues, List.length_map, List.length_reverse]
  digit i c hc := by
    rw [List.getElem?_map, Option.map_eq_some_iff] at hc
    obtain ⟨value, hvalue, hchar⟩ := hc
    obtain ⟨hi, -⟩ := List.getElem?_eq_some_iff.mp hvalue
    rw [List.length_reverse] at hi
    rw [List.getElem?_reverse hi] at hvalue
    rw [width_ofValues]
    exact ⟨value, get_ofValues.mpr hvalue, hchar⟩

theorem spells_of_display {text : String} (hv : v.Built) (h : v.display = .ok text) :
    Spells text.toList v := by
  obtain ⟨values, rfl⟩ := hv.exists_eq_ofValues
  rw [display_ofValues] at h
  rw [← Except.ok.inj h, String.toList_ofList]
  exact spells_ofValues values

theorem ofBinaryDigits?_eq_some : ofBinaryDigits? digits = some v ↔
    ∃ values, List.Forall₂ (fun c value => Logic.ofChar? c = some value) digits.reverse values ∧
      ofValues values = v := by
  unfold ofBinaryDigits?
  rw [Option.map_eq_some_iff]
  simp only [option_mapM_eq_some]

theorem ofHexDigits?_eq_some : ofHexDigits? digits = some v ↔
    ∃ numbers, List.Forall₂ (fun c number => hexDigit? c = some number) digits.reverse numbers ∧
      ofValues (numbers.flatMap nibble) = v := by
  unfold ofHexDigits?
  rw [Option.map_eq_some_iff]
  simp only [option_mapM_eq_some]

/-- The digits that are read are the characters of the values, but for their case. -/
theorem exists_chars_of_ofBinaryDigits? (h : ofBinaryDigits? digits = some v) :
    ∃ values, ofValues values = v ∧ digits.map Char.toUpper = values.reverse.map Logic.char := by
  obtain ⟨values, hread, hv⟩ := ofBinaryDigits?_eq_some.mp h
  have hchars : List.Forall₂ (fun c value => c.toUpper = Logic.char value) digits.reverse values :=
    hread.imp fun _ _ hvalue => (Logic.char_of_ofChar? hvalue).symm
  have hequal : digits.reverse.map Char.toUpper = values.map Logic.char := by
    rw [← List.forall₂_eq_eq_eq, List.forall₂_map_left_iff, List.forall₂_map_right_iff]
    exact hchars
  refine ⟨values, hv, ?_⟩
  rw [List.map_reverse, ← hequal, List.map_reverse, List.reverse_reverse]

theorem display_of_ofBinaryDigits? (h : ofBinaryDigits? digits = some v) :
    v.display = .ok (String.ofList (digits.map Char.toUpper)) := by
  obtain ⟨values, rfl, hchars⟩ := exists_chars_of_ofBinaryDigits? h
  rw [hchars, display_ofValues]

theorem spells_of_ofBinaryDigits? (h : ofBinaryDigits? digits = some v) :
    Spells (digits.map Char.toUpper) v := by
  obtain ⟨values, rfl, hchars⟩ := exists_chars_of_ofBinaryDigits? h
  rw [hchars]
  exact spells_ofValues values

/-- What a vector shows is read as the vector again. -/
theorem ofBinaryDigits?_chars (values : List Logic) :
    ofBinaryDigits? (values.reverse.map Logic.char) = some (ofValues values) := by
  refine ofBinaryDigits?_eq_some.mpr ⟨values, ?_, rfl⟩
  rw [← List.map_reverse, List.reverse_reverse, List.forall₂_map_left_iff, List.forall₂_same]
  exact fun value _ => Logic.ofChar?_char value

theorem ofBinaryDigits?_isSome :
    (ofBinaryDigits? digits).isSome ↔ ∀ c ∈ digits, c ∈ Logic.digits := by
  unfold ofBinaryDigits?
  rw [Option.isSome_map, option_mapM_isSome]
  simp only [List.mem_reverse, Logic.ofChar?_isSome]

theorem ofHexDigits?_isSome :
    (ofHexDigits? digits).isSome ↔ ∀ c ∈ digits, c ∈ hexDigits := by
  unfold ofHexDigits?
  rw [Option.isSome_map, option_mapM_isSome]
  simp only [List.mem_reverse, hexDigit?_isSome]

/-- Hexadecimal digits stand for their binary digits. -/
theorem ofBinaryDigits?_expansion (h : ofHexDigits? digits = some v) :
    ofBinaryDigits? (digits.flatMap expansion) = some v := by
  obtain ⟨numbers, hread, rfl⟩ := ofHexDigits?_eq_some.mp h
  refine ofBinaryDigits?_eq_some.mpr ⟨numbers.flatMap nibble, ?_, rfl⟩
  rw [List.reverse_flatMap]
  exact List.rel_flatMap hread fun _ _ hnumber => reads_expansion hnumber

theorem map_toUpper_expansion (c : Char) : (expansion c).map Char.toUpper = expansion c := by
  unfold expansion
  split <;> rfl

theorem spells_of_ofHexDigits? (h : ofHexDigits? digits = some v) :
    Spells (digits.flatMap expansion) v := by
  have hspells := spells_of_ofBinaryDigits? (ofBinaryDigits?_expansion h)
  rw [List.map_flatMap] at hspells
  simpa only [map_toUpper_expansion] using hspells

theorem width_of_ofBinaryDigits? (h : ofBinaryDigits? digits = some v) :
    v.width = digits.length := by
  obtain ⟨values, hread, rfl⟩ := ofBinaryDigits?_eq_some.mp h
  rw [width_ofValues, ← hread.length_eq, List.length_reverse]

theorem width_of_ofHexDigits? (h : ofHexDigits? digits = some v) :
    v.width = 4 * digits.length := by
  obtain ⟨numbers, hread, rfl⟩ := ofHexDigits?_eq_some.mp h
  have hnibbles : ∀ numbers : List Nat, (numbers.flatMap nibble).length = 4 * numbers.length := by
    intro numbers
    induction numbers with
    | nil => rfl
    | cons number rest ih =>
      simp only [List.flatMap_cons, List.length_append, ih, List.length_cons, nibble,
        List.length_map, List.length_range]
      omega
  rw [width_ofValues, hnibbles, ← hread.length_eq, List.length_reverse]

/-- A text of digits has as many bytes as digits. -/
theorem utf8ByteSize_of_ascii {text : String} (h : ∀ c ∈ text.toList, c.utf8Size = 1) :
    text.utf8ByteSize = text.toList.length := by
  have hsum : ∀ l : List Char, (∀ c ∈ l, c.utf8Size = 1) → String.utf8Len l = l.length := by
    intro l hl
    induction l with
    | nil => rfl
    | cons c l ih =>
      obtain ⟨hc, hrest⟩ := List.forall_mem_cons.mp hl
      show String.utf8Len l + c.utf8Size = l.length + 1
      rw [hc, ih hrest]
  rw [← hsum text.toList h, ← String.utf8ByteSize_ofList, String.ofList_toList]

/-! ## Integers -/

theorem toUInt64?_ofValues (h : values.length ≤ 64) :
    (ofValues values).toUInt64? = .ok ((values.mapM Logic.toBool?).map fun bits =>
      UInt64.ofNat (binaryNumber bits)) := by
  unfold toUInt64?
  rw [if_neg (by rw [width_ofValues]; omega), values_ofValues]
  rfl

theorem ofUInt64_eq_ofValues (n : UInt64) (width : Nat) :
    ofUInt64 n width =
      ofValues (((List.range width).map n.toNat.testBit).map Logic.ofBool) := by
  obtain ⟨hwidth, hget⟩ := ofUInt64_spec n width
  refine (packed_ofUInt64 n width).eq_ofValues (values_eq_ok.mpr ⟨by simp [hwidth], ?_⟩)
  intro i value hvalue
  rw [List.map_map, List.getElem?_map, Option.map_eq_some_iff] at hvalue
  obtain ⟨j, hj, rfl⟩ := hvalue
  obtain ⟨hi, rfl⟩ := List.getElem?_eq_some_iff.mp hj
  rw [List.getElem_range]
  exact hget i (by simpa using hi)

/-- The lowest bits of a number are its remainder. -/
theorem binaryNumber_testBit (n width : Nat) :
    binaryNumber ((List.range width).map n.testBit) = n % 2 ^ width := by
  apply Nat.eq_of_testBit_eq
  intro i
  rw [testBit_binaryNumber, Nat.testBit_mod_two_pow, List.getElem?_map]
  by_cases hi : i < width
  · simp [hi]
  · simp [hi]

theorem toUInt64?_ofUInt64 (n : UInt64) {width : Nat} (h : width ≤ 64) :
    (ofUInt64 n width).toUInt64? = .ok (some (UInt64.ofNat (n.toNat % 2 ^ width))) := by
  rw [ofUInt64_eq_ofValues, toUInt64?_ofValues (by simpa using h), mapM_toBool?_ofBool,
    Option.map_some, binaryNumber_testBit]

/-- A short vector has an integer form if all its values are defined, and is the vector of it. -/
theorem toUInt64?_defined (hv : v.Built) (h : v.width ≤ 64) :
    ∃ number, v.toUInt64? = .ok number ∧
      (number.isSome ↔ ∀ i value, v.get i = .ok value → value ≠ .x ∧ value ≠ .z) ∧
      ∀ n, number = some n → ofUInt64 n v.width = v := by
  obtain ⟨number, hnumber⟩ := hv.stored.exists_toUInt64?
  refine ⟨number, hnumber, ?_, ?_⟩
  · obtain ⟨values, rfl⟩ := hv.exists_eq_ofValues
    rw [width_ofValues] at h
    rw [toUInt64?_ofValues h] at hnumber
    rw [← Except.ok.inj hnumber, Option.isSome_map, option_mapM_isSome]
    simp only [get_ofValues, Logic.toBool?_isSome]
    constructor
    · exact fun hall i value hvalue => hall value (List.mem_of_getElem? hvalue)
    · intro hall value hmem
      obtain ⟨i, hvalue⟩ := List.getElem?_of_mem hmem
      exact hall i value hvalue
  · rintro n rfl
    obtain ⟨-, hget⟩ := toUInt64?_spec hnumber
    obtain ⟨hwidth, hget'⟩ := ofUInt64_spec n v.width
    refine (packed_ofUInt64 n v.width).ext hv.packed hwidth fun i hi => ?_
    rw [hwidth] at hi
    rw [hget i hi, hget' i hi]

/-! ## The conversions together -/

variable {text : String}

theorem exists_display_read (hv : v.Built) :
    ∃ shown, v.display = .ok shown ∧ Spells shown.toList v ∧ ofBinary? shown = some v := by
  obtain ⟨shown, hshown⟩ := hv.stored.exists_display
  refine ⟨shown, hshown, spells_of_display hv hshown, ?_⟩
  obtain ⟨values, rfl⟩ := hv.exists_eq_ofValues
  rw [display_ofValues] at hshown
  rw [← Except.ok.inj hshown]
  unfold ofBinary?
  rw [String.toList_ofList]
  exact ofBinaryDigits?_chars values

theorem ofBinary?_isSome : (ofBinary? text).isSome ↔ ∀ c ∈ text.toList, c ∈ Logic.digits :=
  ofBinaryDigits?_isSome

theorem ofHex?_isSome : (ofHex? text).isSome ↔ ∀ c ∈ text.toList, c ∈ hexDigits :=
  ofHexDigits?_isSome

theorem display_of_ofBinary? (h : ofBinary? text = some v) : v.display = .ok text.toUpper := by
  have hupper : text.toUpper = String.ofList (text.toList.map Char.toUpper) := by
    apply String.ext
    rw [String.toList_ofList]
    exact String.toList_map
  rw [hupper]
  exact display_of_ofBinaryDigits? h

/-- The width is the number of bytes of the text, which has no other characters than digits. -/
theorem width_of_ofBinary? (h : ofBinary? text = some v) : v.width = text.utf8ByteSize := by
  have hascii : Logic.digits.Forall fun c => c.utf8Size = 1 := by decide
  have hdigits := ofBinary?_isSome.mp (Option.isSome_of_eq_some h)
  rw [utf8ByteSize_of_ascii fun c hc => List.forall_iff_forall_mem.mp hascii c (hdigits c hc)]
  exact width_of_ofBinaryDigits? h

theorem width_of_ofHex? (h : ofHex? text = some v) : v.width = 4 * text.utf8ByteSize := by
  have hascii : hexDigits.Forall fun c => c.utf8Size = 1 := by decide
  have hdigits := ofHex?_isSome.mp (Option.isSome_of_eq_some h)
  rw [utf8ByteSize_of_ascii fun c hc => List.forall_iff_forall_mem.mp hascii c (hdigits c hc)]
  exact width_of_ofHexDigits? h

theorem ofBinary?_expanded (h : ofHex? text = some v) : ofBinary? (expanded text) = some v := by
  unfold ofBinary? expanded
  rw [String.toList_ofList]
  exact ofBinaryDigits?_expansion h

/-- A vector shows its values from the highest position down, and what it shows is read as the
vector.  The texts of digits are read, and no others, and a hexadecimal digit is read as its four
binary digits.  The vector of an integer has the integer cut to the width as its integer form, and a
vector of at most 64 values has one if none of its values is undefined. -/
theorem codecs_exact (hv : v.Built) (text : String) (n : UInt64) (width : Nat) :
    (∃ shown, v.display = .ok shown ∧ Spells shown.toList v ∧ ofBinary? shown = some v) ∧
    ((ofBinary? text).isSome ↔ ∀ c ∈ text.toList, c ∈ Logic.digits) ∧
    (∀ w, ofBinary? text = some w →
      w.display = .ok text.toUpper ∧ w.width = text.utf8ByteSize) ∧
    ((ofHex? text).isSome ↔ ∀ c ∈ text.toList, c ∈ hexDigits) ∧
    (∀ w, ofHex? text = some w →
      ofBinary? (expanded text) = some w ∧ w.width = 4 * text.utf8ByteSize) ∧
    (ofUInt64 n width).toUInt64? =
      .ok (if width ≤ 64 then some (UInt64.ofNat (n.toNat % 2 ^ width)) else none) ∧
    (v.width ≤ 64 → ∃ number, v.toUInt64? = .ok number ∧
      (number.isSome ↔ ∀ i value, v.get i = .ok value → value ≠ .x ∧ value ≠ .z) ∧
      ∀ m, number = some m → ofUInt64 m v.width = v) := by
  refine ⟨exists_display_read hv, ofBinary?_isSome, ?_, ofHex?_isSome, ?_, ?_,
    toUInt64?_defined hv⟩
  · exact fun w hw => ⟨display_of_ofBinary? hw, width_of_ofBinary? hw⟩
  · exact fun w hw => ⟨ofBinary?_expanded hw, width_of_ofHex? hw⟩
  · by_cases hwidth : width ≤ 64
    · rw [if_pos hwidth]
      exact toUInt64?_ofUInt64 n hwidth
    · rw [if_neg hwidth]
      refine toUInt64?_of_wide ?_
      rw [(ofUInt64_spec n width).1]
      omega

namespace SecondWord

/-- The only high value is the first one of the second word. -/
def vector : LogicVec := (zeros 33).put 32 .one

theorem built_vector : vector.Built := (Built.zeros 33).put (by decide)

theorem codecs_vector : vector.Built ∧
    (∃ shown, vector.display = .ok shown ∧ Spells shown.toList vector ∧
      ofBinary? shown = some vector) ∧
    (∃ w, ofBinary? "1x0z" = some w ∧ w.display = .ok "1X0Z") ∧
    ¬ (ofBinary? "1é").isSome ∧
    (∃ w, ofHex? "8f" = some w ∧ ofBinary? "10001111" = some w) ∧
    (ofUInt64 0xFFFFFFFFFFFFFFFF 33).toUInt64? = .ok (some 0x1FFFFFFFF) ∧
    vector.toUInt64? = .ok (some 0x100000000) ∧ ofUInt64 0x100000000 33 = vector := by
  have hbuilt := built_vector
  obtain ⟨hshown, -, hupper, -, -, hcut, hinteger⟩ :=
    codecs_exact hbuilt "1x0z" 0xFFFFFFFFFFFFFFFF 33
  obtain ⟨-, haccent, -⟩ := codecs_exact hbuilt "1é" 0 0
  obtain ⟨-, -, -, -, hexpanded, -⟩ := codecs_exact hbuilt "8f" 0 0
  have hread : (ofBinary? "1x0z").isSome := by decide +kernel
  have hhex : (ofHex? "8f").isSome := by decide +kernel
  obtain ⟨w, hw⟩ := Option.isSome_iff_exists.mp hread
  obtain ⟨w', hw'⟩ := Option.isSome_iff_exists.mp hhex
  have hcapital : "1x0z".toUpper = "1X0Z" := by decide +kernel
  have hdigits : expanded "8f" = "10001111" := by decide +kernel
  refine ⟨hbuilt, hshown, ⟨w, hw, hcapital ▸ (hupper w hw).1⟩, ?_,
    ⟨w', hw', hdigits ▸ (hexpanded w' hw').1⟩, hcut, rfl, ?_⟩
  · intro hsome
    have hdigit := haccent.mp hsome 'é' (by decide +kernel)
    exact absurd hdigit (by decide)
  · obtain ⟨number, hnumber, -, hback⟩ := hinteger (by decide)
    exact hback _ (Except.ok.inj hnumber).symm

end SecondWord

end LogicVec
end FpgaPacking
