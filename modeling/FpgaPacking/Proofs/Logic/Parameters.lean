import FpgaPacking.Proofs.Logic.Texts

/-!
# Parameter texts

A text stands for a vector if it is a marker followed by digits, and for itself
otherwise.  A vector is written after the marker of binary digits, so what is
written for a vector with at least one value is read as this vector.
-/

namespace FpgaPacking
namespace ParamValue

open LogicVec

variable {content digits : String} {v : LogicVec}

/-! ## The texts of vectors -/

/-- A marker and one or more digits. -/
structure Marked (marker : String) (alphabet : List Char) (content digits : String) : Prop where
  text : content = marker ++ digits
  nonempty : digits ≠ ""
  digits : ∀ c ∈ digits.toList, c ∈ alphabet

/-- The text is a marker followed by digits. -/
def IsLiteral (content : String) : Prop :=
  ∃ digits, Marked "0b" Logic.digits content digits ∨ Marked "0x" hexDigits content digits

/-- The digits of the text are those of the vector, and there is a value for each binary digit and
there are four for each hexadecimal one. -/
inductive Denotes (content : String) (v : LogicVec) : Prop where
  | binary (digits : String) (h : Marked "0b" Logic.digits content digits)
      (hwidth : v.width = digits.length) (hspells : Spells (digits.toList.map Char.toUpper) v)
  | hex (digits : String) (h : Marked "0x" hexDigits content digits)
      (hwidth : v.width = 4 * digits.length) (hspells : Spells (digits.toList.flatMap expansion) v)

/-! ## Reading -/

theorem vectorOf?_binary (digits : String) :
    vectorOf? ("0b" ++ digits) = ofBinaryDigits? digits.toList := by
  unfold vectorOf?
  rw [String.toList_append]
  rfl

theorem vectorOf?_hex (digits : String) :
    vectorOf? ("0x" ++ digits) = ofHexDigits? digits.toList := by
  unfold vectorOf?
  rw [String.toList_append]
  rfl

/-- A vector is read after one of the two markers. -/
theorem vectorOf?_eq_some (h : vectorOf? content = some v) :
    (∃ digits, content = "0b" ++ digits ∧ ofBinaryDigits? digits.toList = some v) ∨
      ∃ digits, content = "0x" ++ digits ∧ ofHexDigits? digits.toList = some v := by
  have hmarked : ∀ (marker : String) (rest : List Char), content.toList = marker.toList ++ rest →
      content = marker ++ String.ofList rest := by
    intro marker rest htext
    apply String.ext
    rw [String.toList_append, String.toList_ofList]
    exact htext
  unfold vectorOf? at h
  split at h
  · next rest htext =>
    exact .inl ⟨_, hmarked "0b" rest htext, by rwa [String.toList_ofList]⟩
  · next rest htext =>
    exact .inr ⟨_, hmarked "0x" rest htext, by rwa [String.toList_ofList]⟩
  · cases h

theorem parse_eq_bits : parse content = .bits v ↔ vectorOf? content = some v ∧ v.width ≠ 0 := by
  unfold parse
  cases vectorOf? content with
  | none => simp
  | some w =>
    dsimp only
    by_cases hwidth : w.width = 0
    · rw [if_pos hwidth]
      constructor
      · intro h
        cases h
      · rintro ⟨⟨⟩, hne⟩
        exact absurd hwidth hne
    · rw [if_neg hwidth]
      constructor
      · rintro ⟨⟩
        exact ⟨rfl, hwidth⟩
      · rintro ⟨⟨⟩, -⟩
        rfl

theorem parse_cases (content : String) :
    (∃ v, parse content = .bits v) ∨ parse content = .text content := by
  unfold parse
  split
  · next v _ =>
    by_cases hwidth : v.width = 0
    · rw [if_pos hwidth]
      exact .inr rfl
    · rw [if_neg hwidth]
      exact .inl ⟨v, rfl⟩
  · exact .inr rfl

theorem exists_parse_of_literal (h : IsLiteral content) : ∃ v, parse content = .bits v := by
  obtain ⟨digits, ⟨rfl, hne, hdigits⟩ | ⟨rfl, hne, hdigits⟩⟩ := h
  · obtain ⟨v, hv⟩ := Option.isSome_iff_exists.mp (ofBinaryDigits?_isSome.mpr hdigits)
    refine ⟨v, parse_eq_bits.mpr ⟨by rw [vectorOf?_binary, hv], ?_⟩⟩
    rw [width_of_ofBinaryDigits? hv, String.length_toList]
    exact mt String.length_eq_zero_iff.mp hne
  · obtain ⟨v, hv⟩ := Option.isSome_iff_exists.mp (ofHexDigits?_isSome.mpr hdigits)
    refine ⟨v, parse_eq_bits.mpr ⟨by rw [vectorOf?_hex, hv], ?_⟩⟩
    rw [width_of_ofHexDigits? hv, String.length_toList]
    have hlength := mt String.length_eq_zero_iff.mp hne
    omega

theorem denotes_of_parse (h : parse content = .bits v) : Denotes content v := by
  obtain ⟨hread, hwidth⟩ := parse_eq_bits.mp h
  obtain ⟨digits, htext, hv⟩ | ⟨digits, htext, hv⟩ := vectorOf?_eq_some hread
  · have hcount := width_of_ofBinaryDigits? hv
    refine .binary digits ⟨htext, ?_, ?_⟩ hcount (spells_of_ofBinaryDigits? hv)
    · rintro rfl
      exact hwidth hcount
    · exact ofBinaryDigits?_isSome.mp (Option.isSome_of_eq_some hv)
  · have hcount := width_of_ofHexDigits? hv
    refine .hex digits ⟨htext, ?_, ?_⟩ hcount (spells_of_ofHexDigits? hv)
    · rintro rfl
      exact hwidth hcount
    · exact ofHexDigits?_isSome.mp (Option.isSome_of_eq_some hv)

theorem Denotes.isLiteral (h : Denotes content v) : IsLiteral content := by
  cases h with
  | binary digits h => exact ⟨digits, .inl h⟩
  | hex digits h => exact ⟨digits, .inr h⟩

/-! ## Writing and reading -/

theorem exists_display_parse (hv : v.Built) (hwidth : 1 ≤ v.width) :
    ∃ shown, display (.bits v) = .ok shown ∧ parse shown = .bits v := by
  obtain ⟨digits, hdigits, -, hread⟩ := exists_display_read hv
  refine ⟨"0b" ++ digits, ?_, parse_eq_bits.mpr ⟨?_, by omega⟩⟩
  · show v.display.map _ = _
    rw [hdigits]
    rfl
  · rw [vectorOf?_binary]
    exact hread

theorem one_le_width_of_parse (h : parse content = .bits v) : 1 ≤ v.width := by
  have hwidth := (parse_eq_bits.mp h).2
  omega

theorem built_of_parse (h : parse content = .bits v) : v.Built := by
  have hbuilt := built_parse content
  rw [h] at hbuilt
  exact hbuilt

/-- A text is read as a vector exactly if it is a literal, as the vector that the literal denotes,
and as itself otherwise.  What is written for a vector is read as the vector. -/
theorem parse_exact (hv : v.Built) (hwidth : 1 ≤ v.width) (content : String) :
    ((∃ w, parse content = .bits w) ↔ IsLiteral content) ∧
    (∀ w, parse content = .bits w → Denotes content w) ∧
    (¬ IsLiteral content → parse content = .text content) ∧
    (∃ shown, display (.bits v) = .ok shown ∧ parse shown = .bits v) ∧
    (parse content = .text content ∨
      ∃ shown, (parse content).display = .ok shown ∧ parse shown = parse content) := by
  refine ⟨⟨?_, exists_parse_of_literal⟩, fun w => denotes_of_parse, ?_,
    exists_display_parse hv hwidth, ?_⟩
  · rintro ⟨w, hw⟩
    exact (denotes_of_parse hw).isLiteral
  · intro hnone
    rcases parse_cases content with ⟨w, hw⟩ | htext
    · exact absurd (denotes_of_parse hw).isLiteral hnone
    · exact htext
  · rcases parse_cases content with ⟨w, hw⟩ | htext
    · rw [hw]
      exact .inr (exists_display_parse (built_of_parse hw) (one_le_width_of_parse hw))
    · exact .inl htext

/-- Hexadecimal digits of both cases are a literal, and a digit with an accent is none. -/
theorem parse_secondWord : SecondWord.vector.Built ∧ 1 ≤ SecondWord.vector.width ∧
    (∃ w, parse "0xfA" = .bits w ∧ Denotes "0xfA" w) ∧
    ¬ IsLiteral "0b1é" ∧ ¬ IsLiteral "0b" ∧
    ∃ shown, display (.bits SecondWord.vector) = .ok shown ∧
      parse shown = .bits SecondWord.vector := by
  have hbuilt := SecondWord.built_vector
  have hwidth : 1 ≤ SecondWord.vector.width := by decide
  have hbits : (vectorOf? "0xfA").isSome := by decide +kernel
  have haccent : parse "0b1é" = .text "0b1é" := by decide +kernel
  have hempty : parse "0b" = .text "0b" := by decide +kernel
  obtain ⟨-, hdenotes, -, hshown, -⟩ := parse_exact hbuilt hwidth "0xfA"
  obtain ⟨haccented, -⟩ := parse_exact hbuilt hwidth "0b1é"
  obtain ⟨hmarker, -⟩ := parse_exact hbuilt hwidth "0b"
  have hliteral : parse "0xfA" = .bits ((vectorOf? "0xfA").get hbits) := rfl
  refine ⟨hbuilt, hwidth, ⟨_, hliteral, hdenotes _ hliteral⟩, ?_, ?_, hshown⟩
  · intro h
    obtain ⟨w, hw⟩ := haccented.mpr h
    rw [haccent] at hw
    cases hw
  · intro h
    obtain ⟨w, hw⟩ := hmarker.mpr h
    rw [hempty] at hw
    cases hw

end ParamValue
end FpgaPacking
