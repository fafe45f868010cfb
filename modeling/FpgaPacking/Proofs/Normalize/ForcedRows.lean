import FpgaPacking.Proofs.Logic.Determined
import FpgaPacking.Proofs.Normalize.Tables

/-!
# Tables folded at several inputs

Folding a table at one input after another gives every row the value of the row
in which all the folded bits are forced.  Forcing one bit does not touch another,
so the order does not matter for the values, and since a folded table is built
its words do not depend on the order either.  A table that was an integer becomes
one again at each fold if it has at most 64 rows, and a vector at the first fold
otherwise.
-/

namespace FpgaPacking

namespace LogicVec

variable {v : LogicVec}

/-- A short vector without unknown values is an integer. -/
theorem exists_number (hwidth : v.width ≤ 64)
    (h : ∀ i, i < v.width → ∃ bit, v.get i = .ok (Logic.ofBool bit)) :
    ∃ n, v.toUInt64? = .ok (some n) := by
  choose! bit hbit using h
  have hvalues : v.values = .ok (((List.range v.width).map bit).map Logic.ofBool) := by
    rw [List.map_map]
    refine except_mapM_ok.mpr (List.forall₂_map_right_iff.mpr (List.forall₂_same.mpr ?_))
    exact fun i hi => hbit i (List.mem_range.mp hi)
  refine ⟨UInt64.ofNat (binaryNumber ((List.range v.width).map bit)), ?_⟩
  unfold toUInt64?
  rw [if_neg (Nat.not_lt.mpr hwidth), hvalues]
  show Except.ok (Option.map _ (List.mapM _ _)) = _
  rw [mapM_toBool?_ofBool]
  rfl

end LogicVec

namespace Normalize

open LogicVec

/-! ## Row numbers -/

/-- The row number with every bit that is tied set to its value. -/
def forcedRow (tied : List (Option Bool)) (row : Nat) : Nat :=
  binaryNumber (tied.zipIdx.map fun bit => bit.1.getD (row.testBit bit.2))

variable {tied tied' : List (Option Bool)} {row row' i j : Nat} {value : Bool}

theorem testBit_forcedRow :
    (forcedRow tied row).testBit j = tied[j]?.elim false (·.getD (row.testBit j)) := by
  unfold forcedRow
  rw [testBit_binaryNumber, List.getElem?_map, List.getElem?_zipIdx]
  cases tied[j]? with
  | none => rfl
  | some bit => simp

theorem forcedRow_lt : forcedRow tied row < 2 ^ tied.length := by
  have hlt := binaryNumber_lt (tied.zipIdx.map fun bit => bit.1.getD (row.testBit bit.2))
  rwa [List.length_map, List.length_zipIdx] at hlt

theorem forcedRow_free (hfree : ∀ bit ∈ tied, bit = none) (hrow : row < 2 ^ tied.length) :
    forcedRow tied row = row := by
  apply Nat.eq_of_testBit_eq
  intro j
  rw [testBit_forcedRow]
  by_cases hj : j < tied.length
  · rw [List.getElem?_eq_getElem hj, hfree _ (List.getElem_mem hj)]
    rfl
  · rw [List.getElem?_eq_none (Nat.not_lt.mp hj)]
    refine (Nat.testBit_lt_two_pow (Nat.lt_of_lt_of_le hrow ?_)).symm
    exact Nat.pow_le_pow_right (by decide) (Nat.not_lt.mp hj)

/-- The forced row does not depend on the tied bits. -/
theorem forcedRow_congr (h : ∀ j, tied[j]? = some none → row.testBit j = row'.testBit j) :
    forcedRow tied row = forcedRow tied row' := by
  apply Nat.eq_of_testBit_eq
  intro j
  rw [testBit_forcedRow, testBit_forcedRow]
  cases htied : tied[j]? with
  | none => rfl
  | some bit =>
    cases bit with
    | none => exact h j htied
    | some bit => rfl

theorem forcedRow_forceBit (hi : tied[i]? = some none) (hi' : tied'[i]? = some (some value))
    (hrest : ∀ j, j ≠ i → tied'[j]? = tied[j]?) :
    forcedRow tied (forceBit row (1 <<< i) value) = forcedRow tied' row := by
  apply Nat.eq_of_testBit_eq
  intro j
  rw [testBit_forcedRow, testBit_forcedRow, testBit_forceBit]
  by_cases hj : j = i
  · rw [hj, hi, hi', if_pos rfl]
    rfl
  · rw [if_neg hj, hrest j hj]

/-! ## Parameters -/

variable {before param : ParamValue} {table folded folded' : LogicVec} {rows : Nat}

/-- A folded table reads as itself. -/
theorem toBits?_tableParam (h : folded.Built) (hparam : tableParam before folded = .ok param) :
    param.toBits? folded.width = some folded := by
  obtain ⟨table, htable, hget⟩ := tableParam_spec hparam
  have hpacked := (built_tableParam h hparam).packed_toBits? htable
  have hwidth := width_toBits? htable
  rw [htable, hpacked.ext h.packed hwidth fun i hi => hget i (hwidth ▸ hi)]

/-- Every row of the vector has the value of some row of the table. -/
def Selects (table folded : LogicVec) : Prop :=
  folded.width = table.width ∧
    ∀ row, row < folded.width → ∃ row', row' < table.width ∧ folded.get row = table.get row'

/-- Rows of an integer make an integer, if they are at most 64. -/
theorem number_of_selects {n : Int64}
    (htable : (ParamValue.int n).toBits? rows = some table) (h : Selects table folded) :
    (rows ≤ 64 ∧ ∃ m, folded.toUInt64? = .ok (some m)) ∨
      64 < rows ∧ folded.toUInt64? = .ok none := by
  obtain rfl := Option.some.inj htable
  obtain ⟨hwidth, hget⟩ := ofUInt64_spec n.toUInt64 rows
  obtain ⟨hsame, hrows⟩ := h
  rw [hwidth] at hsame hrows
  rcases Nat.lt_or_ge 64 rows with hwide | hshort
  · exact .inr ⟨hwide, toUInt64?_of_wide (hsame.symm ▸ hwide)⟩
  · refine .inl ⟨hshort, exists_number (hsame.symm ▸ hshort) fun row hrow => ?_⟩
    obtain ⟨row', hrow', hselected⟩ := hrows row hrow
    exact ⟨_, hselected.trans (hget row' hrow')⟩

/-- A folded integer is one if it has at most 64 rows and a vector otherwise, and a folded vector
is a vector. -/
theorem kind_tableParam (htable : before.toBits? rows = some table) (h : Selects table folded)
    (hparam : tableParam before folded = .ok param) :
    ((∃ n, before = .int n) → rows ≤ 64 → ∃ n, param = .int n) ∧
      ((∃ n, before = .int n) → 64 < rows → param = .bits folded) ∧
      ((∃ vector, before = .bits vector) → param = .bits folded) := by
  unfold tableParam at hparam
  refine ⟨?_, ?_, ?_⟩
  · rintro ⟨n, rfl⟩ hshort
    rcases number_of_selects htable h with ⟨-, m, hm⟩ | ⟨hwide, -⟩
    · rw [hm] at hparam
      exact ⟨_, (Except.ok.inj hparam).symm⟩
    · exact absurd hwide (Nat.not_lt.mpr hshort)
  · rintro ⟨n, rfl⟩ hwide
    rcases number_of_selects htable h with ⟨hshort, -⟩ | ⟨-, hnone⟩
    · exact absurd hwide (Nat.not_lt.mpr hshort)
    · rw [hnone] at hparam
      exact (Except.ok.inj hparam).symm
  · rintro ⟨vector, rfl⟩
    obtain ⟨number, -, hnumber⟩ := except_bind_ok.mp hparam
    exact (Except.ok.inj hnumber).symm

/-- The kind of a parameter is settled by its first fold. -/
theorem tableParam_again (htable : before.toBits? rows = some table) (h : Selects table folded)
    (h' : Selects table folded') (hparam : tableParam before folded = .ok param) :
    tableParam param folded' = tableParam before folded' := by
  obtain ⟨hshort, hwide, hvector⟩ := kind_tableParam htable h hparam
  cases before with
  | int n =>
    rcases number_of_selects htable h' with ⟨hrows, -⟩ | ⟨hrows, hnone⟩
    · obtain ⟨m, rfl⟩ := hshort ⟨n, rfl⟩ hrows
      unfold tableParam
      cases folded'.toUInt64? with
      | error e => rfl
      | ok number => cases number <;> rfl
    · obtain rfl := hwide ⟨n, rfl⟩ hrows
      unfold tableParam
      rw [hnone]
      rfl
  | bits vector =>
    obtain rfl := hvector ⟨vector, rfl⟩
    rfl
  | text content => cases htable

end Normalize
end FpgaPacking
