import FpgaPacking.Logic.Vec
import FpgaPacking.Proofs.Runs
import Mathlib.Data.List.Basic
import Mathlib.Data.Nat.Bitwise

/-!
# Vectors of logic values

A position of a vector has two bits of a word for itself, so writing it changes
the value there and no other.  Integers turn into vectors and back: a defined
vector of at most 64 values is the vector of the integer it stands for.
-/

namespace FpgaPacking
namespace LogicVec

/-! ## Two bits of a word -/

theorem toNat_shift (i : Nat) : ((shift i).toBitVec % 64).toNat = 2 * (i % 32) := by
  have h : i % 32 < 32 := Nat.mod_lt _ (by decide)
  have hs : (shift i).toBitVec.toNat = 2 * (i % 32) := by
    simp [shift, perWord]
    omega
  rw [BitVec.toNat_umod, hs]
  exact Nat.mod_eq_of_lt (by show _ < 64; omega)

theorem getLsbD_shiftRight (word : UInt64) (i b : Nat) :
    (word >>> shift i).toBitVec.getLsbD b = word.toBitVec.getLsbD (2 * (i % 32) + b) := by
  rw [UInt64.toBitVec_shiftRight, BitVec.ushiftRight_eq', BitVec.getLsbD_ushiftRight, toNat_shift]

theorem getLsbD_shiftLeft (word : UInt64) (i b : Nat) :
    (word <<< shift i).toBitVec.getLsbD b =
      (decide (b < 64) && !decide (b < 2 * (i % 32)) &&
        word.toBitVec.getLsbD (b - 2 * (i % 32))) := by
  rw [UInt64.toBitVec_shiftLeft, BitVec.shiftLeft_eq', BitVec.getLsbD_shiftLeft, toNat_shift]

theorem getLsbD_three (b : Nat) : (3 : UInt64).toBitVec.getLsbD b = decide (b < 2) := by
  have h : (3 : UInt64).toBitVec = BitVec.ofNat 64 (2 ^ 2 - 1) := rfl
  rw [h, BitVec.getLsbD_ofNat, Nat.testBit_two_pow_sub_one]
  by_cases hb : b < 2
  · simp [hb]
    omega
  · simp [hb]

theorem getLsbD_code (value : Logic) {b : Nat} (hb : 2 ≤ b) :
    value.code.toBitVec.getLsbD b = false := by
  have h : value.code &&& 3 = value.code := by cases value <;> rfl
  rw [← h, UInt64.toBitVec_and, BitVec.getLsbD_and, getLsbD_three]
  simp [Nat.not_lt.mpr hb]

theorem field_writeField (word : UInt64) (i j : Nat) (value : Logic) :
    writeField word i value >>> shift j &&& 3 =
      if i % 32 = j % 32 then value.code else word >>> shift j &&& 3 := by
  have hj : j % 32 < 32 := Nat.mod_lt _ (by decide)
  apply UInt64.eq_of_toBitVec_eq
  apply BitVec.eq_of_getLsbD_eq
  intro b _
  rw [UInt64.toBitVec_and, BitVec.getLsbD_and, getLsbD_three, getLsbD_shiftRight, writeField,
    UInt64.toBitVec_or, UInt64.toBitVec_and, UInt64.toBitVec_not, BitVec.getLsbD_or,
    BitVec.getLsbD_and, BitVec.getLsbD_not, getLsbD_shiftLeft, getLsbD_shiftLeft, getLsbD_three]
  by_cases hb : b < 2
  · have hword : 2 * (j % 32) + b < 64 := by omega
    by_cases hij : i % 32 = j % 32
    · rw [if_pos hij, hij]
      have hstart : ¬ 2 * (j % 32) + b < 2 * (j % 32) := by omega
      have hrest : 2 * (j % 32) + b - 2 * (j % 32) = b := by omega
      simp [hb, hword, hstart, hrest]
    · rw [if_neg hij, UInt64.toBitVec_and, BitVec.getLsbD_and, getLsbD_three, getLsbD_shiftRight]
      by_cases hstart : 2 * (j % 32) + b < 2 * (i % 32)
      · simp [hb, hword, hstart]
      · have hpast : 2 ≤ 2 * (j % 32) + b - 2 * (i % 32) := by omega
        simp [hb, hword, hstart, getLsbD_code value hpast, Nat.not_lt.mpr hpast]
  · by_cases hij : i % 32 = j % 32
    · rw [if_pos hij, getLsbD_code value (Nat.not_lt.mp hb)]
      simp [hb]
    · rw [if_neg hij, UInt64.toBitVec_and, BitVec.getLsbD_and, getLsbD_three]
      simp [hb]

theorem readField_writeField (word : UInt64) (i j : Nat) (value : Logic) :
    readField (writeField word i value) j =
      if i % 32 = j % 32 then value else readField word j := by
  unfold readField Logic.ofCode
  rw [field_writeField]
  by_cases hij : i % 32 = j % 32
  · rw [if_pos hij, if_pos hij]
    cases value <;> rfl
  · rw [if_neg hij, if_neg hij]

/-! ## Access -/

variable {v v' : LogicVec} {i j : Nat} {value : Logic}

theorem set_ok : v.set i value = .ok v' ↔
    i < v.width ∧ i / perWord < v.words.size ∧ v' = v.put i value := by
  unfold set
  by_cases hi : i < v.width
  · rw [if_pos hi]
    by_cases hword : i / perWord < v.words.size
    · rw [if_pos hword]
      simp [hi, hword, eq_comm]
    · rw [if_neg hword]
      simp [hword]
  · rw [if_neg hi]
    simp [hi]

theorem get_of_word {word : UInt64} (hi : i < v.width) (hword : v.words[i / perWord]? = some word) :
    v.get i = .ok (readField word i) := by
  unfold get
  rw [if_pos hi, hword]

theorem get_put (hi : i < v.width) (hword : i / perWord < v.words.size) :
    (v.put i value).get j = if j = i then .ok value else v.get j := by
  by_cases hji : j = i
  · subst hji
    have hmodified : (v.put j value).words[j / perWord]? =
        some (writeField v.words[j / perWord] j value) := by
      show (v.words.modify (j / perWord) _)[j / perWord]? = _
      rw [Array.getElem?_modify, if_pos rfl, Array.getElem?_eq_getElem hword]
      rfl
    have hput : j < (v.put j value).width := hi
    rw [get_of_word hput hmodified, readField_writeField, if_pos rfl, if_pos rfl]
  · rw [if_neg hji]
    unfold get put
    by_cases hj : j < v.width
    · rw [if_pos hj, if_pos hj, Array.getElem?_modify]
      by_cases hsame : i / perWord = j / perWord
      · have hfield : ¬ i % 32 = j % 32 := by
          intro hmod
          unfold perWord at hsame
          omega
        rw [if_pos hsame]
        cases v.words[j / perWord]? with
        | none => simp
        | some word =>
          show Except.ok (readField (writeField word i value) j) = .ok (readField word j)
          rw [readField_writeField, if_neg hfield]
      · rw [if_neg hsame]
        simp
    · rw [if_neg hj, if_neg hj]

theorem word_zeros {width : Nat} (hi : i < width) : (zeros width).words[i / perWord]? = some 0 := by
  show (Array.replicate ((width + 31) / perWord) 0)[i / perWord]? = _
  rw [Array.getElem?_replicate, if_pos]
  unfold perWord
  omega

theorem get_zeros {width : Nat} (hi : i < width) : (zeros width).get i = .ok .zero := by
  rw [get_of_word hi (word_zeros hi)]
  show Except.ok (Logic.ofCode (0 >>> shift i)) = _
  rw [UInt64.zero_shiftRight]
  rfl

/-- Every position has its word. -/
def Stored (v : LogicVec) : Prop := ∀ i, i < v.width → i / perWord < v.words.size

theorem stored_zeros (width : Nat) : (zeros width).Stored := fun _ hi =>
  (Array.getElem?_eq_some_iff.mp (word_zeros hi)).1

theorem Stored.put (h : v.Stored) : (v.put i value).Stored := by
  intro j hj
  show _ < (v.words.modify _ _).size
  rw [Array.size_modify]
  exact h j hj

/-! ## Binary numbers -/

theorem binaryNumber_lt (bits : List Bool) : binaryNumber bits < 2 ^ bits.length := by
  induction bits with
  | nil => exact Nat.one_pos
  | cons bit bits ih =>
    have hbit : bit.toNat ≤ 1 := Bool.toNat_le bit
    show 2 * binaryNumber bits + bit.toNat < 2 ^ (bits.length + 1)
    rw [Nat.pow_succ]
    omega

theorem testBit_binaryNumber (bits : List Bool) (i : Nat) :
    (binaryNumber bits).testBit i = (bits[i]?).getD false := by
  induction bits generalizing i with
  | nil => simp [binaryNumber]
  | cons bit bits ih =>
    show (2 * binaryNumber bits + bit.toNat).testBit i = _
    cases i with
    | zero => cases bit <;> simp [Nat.testBit_zero]
    | succ i =>
      have hbit : bit.toNat ≤ 1 := Bool.toNat_le bit
      rw [Nat.testBit_succ, show (2 * binaryNumber bits + bit.toNat) / 2 = binaryNumber bits by omega, ih]
      simp

theorem option_mapM_eq_some {α β : Type} {f : α → Option β} {l : List α} {l' : List β} :
    l.mapM f = some l' ↔ List.Forall₂ (fun a b => f a = some b) l l' := by
  induction l generalizing l' with
  | nil =>
    rw [List.mapM_nil, List.forall₂_nil_left_iff]
    exact ⟨fun h => (Option.some.inj h).symm, fun h => h ▸ rfl⟩
  | cons a l ih =>
    rw [List.mapM_cons, List.forall₂_cons_left_iff]
    constructor
    · intro h
      obtain ⟨b, hb, h⟩ := Option.bind_eq_some_iff.mp h
      obtain ⟨bs, hbs, h⟩ := Option.bind_eq_some_iff.mp h
      exact ⟨b, bs, hb, ih.mp hbs, (Option.some.inj h).symm⟩
    · rintro ⟨b, bs, hb, hbs, rfl⟩
      exact Option.bind_eq_some_iff.mpr
        ⟨b, hb, Option.bind_eq_some_iff.mpr ⟨bs, ih.mpr hbs, rfl⟩⟩

theorem option_mapM_isSome {α β : Type} {f : α → Option β} {l : List α} :
    (l.mapM f).isSome ↔ ∀ a ∈ l, (f a).isSome := by
  induction l with
  | nil => simp
  | cons a l ih =>
    rw [List.mapM_cons, List.forall_mem_cons, ← ih]
    cases f a with
    | none => simp
    | some b => cases l.mapM f <;> simp

theorem toUInt64?_of_wide {v : LogicVec} (h : 64 < v.width) : v.toUInt64? = .ok none := if_pos h

theorem mapM_toBool?_ofBool (bits : List Bool) :
    (bits.map Logic.ofBool).mapM Logic.toBool? = some bits := by
  induction bits with
  | nil => rfl
  | cons bit bits ih =>
    rw [List.map_cons, List.mapM_cons, ih]
    cases bit <;> rfl

/-- An integer stands for a short vector whose values are its bits. -/
theorem toUInt64?_spec {v : LogicVec} {n : UInt64} (h : v.toUInt64? = .ok (some n)) :
    v.width ≤ 64 ∧ ∀ i, i < v.width → v.get i = .ok (Logic.ofBool (n.toNat.testBit i)) := by
  unfold toUInt64? at h
  by_cases hwidth : v.width > 64
  · rw [if_pos hwidth] at h
    cases h
  · rw [if_neg hwidth] at h
    refine ⟨Nat.not_lt.mp hwidth, ?_⟩
    cases hvalues : v.values with
    | error e =>
      rw [hvalues] at h
      cases h
    | ok values =>
      rw [hvalues] at h
      obtain ⟨bits, hbits, hn⟩ := Option.map_eq_some_iff.mp (Except.ok.inj h)
      have hread := except_mapM_ok.mp hvalues
      have hdefined := option_mapM_eq_some.mp hbits
      have hlength : bits.length = v.width := by
        rw [← hdefined.length_eq, ← hread.length_eq, List.length_range]
      have hlt : binaryNumber bits < 2 ^ 64 :=
        Nat.lt_of_lt_of_le (binaryNumber_lt bits) (Nat.pow_le_pow_right (by decide) (by omega))
      have hnat : n.toNat = binaryNumber bits := by
        rw [← hn]
        exact Nat.mod_eq_of_lt hlt
      intro i hi
      have hvalue : i < values.length := by rw [← hread.length_eq, List.length_range]; exact hi
      have hbit : i < bits.length := by rw [hlength]; exact hi
      have hgot := hread.get (by simpa using hi) hvalue
      have hdef := hdefined.get hvalue hbit
      simp only [List.get_eq_getElem, List.getElem_range] at hgot hdef
      rw [hgot, hnat, testBit_binaryNumber, List.getElem?_eq_getElem hbit]
      show Except.ok values[i] = .ok (Logic.ofBool bits[i])
      cases hv : values[i] with
      | zero => rw [hv] at hdef; rw [← Option.some.inj hdef]; rfl
      | one => rw [hv] at hdef; rw [← Option.some.inj hdef]; rfl
      | x => rw [hv] at hdef; cases hdef
      | z => rw [hv] at hdef; cases hdef

theorem foldl_put_spec (n : UInt64) {l : List Nat} {v : LogicVec} (hstored : v.Stored)
    (hl : ∀ i ∈ l, i < v.width) :
    (l.foldl (fun v i => if n.toNat.testBit i then v.put i .one else v) v).width = v.width ∧
      ∀ j, (l.foldl (fun v i => if n.toNat.testBit i then v.put i .one else v) v).get j =
        if j ∈ l ∧ n.toNat.testBit j then .ok .one else v.get j := by
  induction l generalizing v with
  | nil => exact ⟨rfl, fun j => by simp⟩
  | cons i l ih =>
    have hi : i < v.width := hl i List.mem_cons_self
    have hrest : ∀ j ∈ l, j < v.width := fun j hj => hl j (List.mem_cons_of_mem i hj)
    rw [List.foldl_cons]
    by_cases hbit : n.toNat.testBit i
    · rw [if_pos hbit]
      obtain ⟨hwidth, hget⟩ := ih hstored.put hrest
      refine ⟨hwidth, fun j => ?_⟩
      rw [hget, get_put hi (hstored i hi)]
      by_cases hj : j = i
      · subst hj
        simp [hbit]
      · simp [hj]
    · rw [if_neg hbit]
      obtain ⟨hwidth, hget⟩ := ih hstored hrest
      refine ⟨hwidth, fun j => ?_⟩
      rw [hget]
      by_cases hj : j = i
      · subst hj
        simp [hbit]
      · simp [hj]

/-- The vector of an integer has the bits of the integer. -/
theorem ofUInt64_spec (n : UInt64) (width : Nat) :
    (ofUInt64 n width).width = width ∧
      ∀ i, i < width → (ofUInt64 n width).get i = .ok (Logic.ofBool (n.toNat.testBit i)) := by
  obtain ⟨hwidth, hget⟩ := foldl_put_spec n (l := List.range (min width 64))
    (stored_zeros width) fun i hi => Nat.lt_of_lt_of_le (List.mem_range.mp hi) (Nat.min_le_left width 64)
  refine ⟨hwidth, fun i hi => ?_⟩
  unfold ofUInt64
  rw [hget, get_zeros hi]
  by_cases hbit : n.toNat.testBit i
  · have hlow : i < 64 := by
      by_contra hhigh
      have hlt : n.toNat < 2 ^ i :=
        Nat.lt_of_lt_of_le n.toNat_lt (Nat.pow_le_pow_right (by decide) (Nat.not_lt.mp hhigh))
      rw [Nat.testBit_lt_two_pow hlt] at hbit
      cases hbit
    rw [if_pos ⟨List.mem_range.mpr (Nat.lt_min.mpr ⟨hi, hlow⟩), hbit⟩, hbit]
    rfl
  · rw [if_neg fun h => hbit h.2, Bool.eq_false_iff.mpr hbit]
    rfl

end LogicVec
end FpgaPacking
