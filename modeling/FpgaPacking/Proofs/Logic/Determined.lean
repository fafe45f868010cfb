import FpgaPacking.Proofs.Logic.Built

/-!
# Vectors are determined by their values

Two values of a vector may be equal while the words behind them differ: a vector
could have words that no position needs, or bits behind its last position.  A
vector that has been built has no such words and only zeros behind its last
position, so it is determined by its width and the values that are read from it.
-/

namespace FpgaPacking

/-! ## Words -/

namespace Logic

theorem ofCode_mask (word : UInt64) : ofCode (word &&& 3) = ofCode word := by
  unfold ofCode
  rw [UInt64.and_assoc, UInt64.and_self]

/-- The value determines the low two bits of the word. -/
theorem code_ofCode (word : UInt64) : (ofCode word).code = word &&& 3 := by
  have hlow : (word &&& 3).toNat < 4 := by
    rw [UInt64.toNat_and]
    exact Nat.lt_of_le_of_lt Nat.and_le_right (by decide)
  have hcases : word &&& 3 = 0 ∨ word &&& 3 = 1 ∨ word &&& 3 = 2 ∨ word &&& 3 = 3 := by
    simp only [← UInt64.toNat_inj]
    show (word &&& 3).toNat = 0 ∨ (word &&& 3).toNat = 1 ∨ (word &&& 3).toNat = 2 ∨
      (word &&& 3).toNat = 3
    omega
  rw [← ofCode_mask]
  rcases hcases with h | h | h | h <;> rw [h] <;> rfl

end Logic

namespace LogicVec

variable {v w : LogicVec} {i : Nat}

/-- Each bit of a word belongs to the code of one of its 32 values. -/
theorem getLsbD_code_readField (word : UInt64) {bit : Nat} (hbit : bit < 64) :
    (readField word (bit / 2)).code.toBitVec.getLsbD (bit % 2) = word.toBitVec.getLsbD bit := by
  have hindex : 2 * (bit / 2 % 32) + bit % 2 = bit := by omega
  have hlow : bit % 2 < 2 := Nat.mod_lt bit (by decide)
  unfold readField
  rw [Logic.code_ofCode, UInt64.toBitVec_and, BitVec.getLsbD_and, getLsbD_three,
    getLsbD_shiftRight, hindex]
  simp [hlow]

/-- A word has no bits besides those of its 32 values. -/
theorem eq_of_readField {a b : UInt64} (h : ∀ i, i < perWord → readField a i = readField b i) :
    a = b := by
  apply UInt64.eq_of_toBitVec_eq
  apply BitVec.eq_of_getLsbD_eq
  intro bit hbit
  have hfield : bit / 2 < perWord := by
    unfold perWord
    omega
  rw [← getLsbD_code_readField a hbit, ← getLsbD_code_readField b hbit, h _ hfield]

/-! ## Equal vectors -/

/-- Vectors of one width without other content are equal if they have the same values. -/
theorem Packed.ext (h : v.Packed) (h' : w.Packed) (hwidth : v.width = w.width)
    (hget : ∀ i, i < v.width → v.get i = w.get i) : v = w := by
  have hwords : v.words = w.words := by
    refine Array.ext (by rw [h.size, h'.size, hwidth]) fun k hv hw => ?_
    refine eq_of_readField fun field hfield => ?_
    -- The value at position `i` of the vectors is the one at `field` of the words.
    obtain ⟨i, hdiv, hmod⟩ : ∃ i, i / perWord = k ∧ i % 32 = field := by
      unfold perWord at hfield ⊢
      exact ⟨32 * k + field, by omega, by omega⟩
    have hread : ∀ word : UInt64, readField word field = readField word i := by
      intro word
      unfold readField shift
      rw [Nat.mod_eq_of_lt hfield, show i % perWord = field from hmod]
    have hvword : v.words[i / perWord]? = some v.words[k] := by
      rw [hdiv, Array.getElem?_eq_getElem hv]
    have hwword : w.words[i / perWord]? = some w.words[k] := by
      rw [hdiv, Array.getElem?_eq_getElem hw]
    rw [hread, hread]
    by_cases hi : i < v.width
    · have hsame := hget i hi
      rw [get_of_word hi hvword, get_of_word (hwidth ▸ hi) hwword] at hsame
      exact Except.ok.inj hsame
    · rw [h.padding i _ (Nat.not_lt.mp hi) hvword,
        h'.padding i _ (hwidth ▸ Nat.not_lt.mp hi) hwword]
  cases v
  cases w
  cases hwidth
  cases hwords
  rfl

/-! ## Packed arrays -/

/-- A bit that belongs to no position is not set. -/
theorem Packed.testBit_unused (h : v.Packed) {k bit : Nat} {word : UInt64}
    (hword : v.words[k]? = some word) (hbit : bit < 64) (hpast : 2 * v.width ≤ 64 * k + bit) :
    word.toNat.testBit bit = false := by
  have hposition : (32 * k + bit / 2) / perWord = k := by
    unfold perWord
    omega
  have hzero : readField word (32 * k + bit / 2) = .zero :=
    h.padding _ word (by omega) (by rw [hposition]; exact hword)
  have hfield : readField word (bit / 2) = readField word (32 * k + bit / 2) := by
    have hmod : (32 * k + bit / 2) % 32 = bit / 2 % 32 := by omega
    unfold readField shift perWord
    rw [hmod]
  have hcode := getLsbD_code_readField word hbit
  rw [hfield, hzero] at hcode
  show word.toBitVec.getLsbD bit = false
  rw [← hcode]
  show BitVec.getLsbD 0#64 (bit % 2) = false
  exact BitVec.getLsbD_zero

theorem Built.eq_iff (hv : v.Built) (hw : w.Built) :
    v = w ↔ v.width = w.width ∧ ∀ i, i < v.width → v.get i = w.get i := by
  constructor
  · rintro rfl
    exact ⟨rfl, fun _ _ => rfl⟩
  · rintro ⟨hwidth, hget⟩
    exact hv.packed.ext hw.packed hwidth hget

theorem Built.set_eq (h : v.Built) (hi : i < v.width) (value : Logic) :
    v.set i value = .ok (v.put i value) :=
  set_ok.mpr ⟨hi, h.stored i hi, rfl⟩

theorem Built.put (h : v.Built) (hi : i < v.width) : (v.put i value).Built :=
  .set h (h.set_eq hi value)

/-- A position that exists can be written, and writing it leaves the other positions alone. -/
theorem Built.exists_set (h : v.Built) (hi : i < v.width) (value : Logic) :
    ∃ v', v.set i value = .ok v' ∧ v'.Built ∧ v'.width = v.width ∧
      ∀ j, j < v.width → ∃ old, v.get j = .ok old ∧
        v'.get j = .ok (if i = j then value else old) := by
  refine ⟨v.put i value, h.set_eq hi value, h.put hi, rfl, fun j hj => ?_⟩
  obtain ⟨old, hold⟩ := h.stored.exists_get hj
  refine ⟨old, hold, ?_⟩
  rw [get_put hi (h.stored i hi)]
  by_cases hij : i = j
  · rw [if_pos hij.symm, if_pos hij]
  · rw [if_neg (Ne.symm hij), if_neg hij, hold]

/-- The vector is an array of its values and nothing else. -/
structure Faithful (v : LogicVec) : Prop where
  size : v.words.size = (v.width + 31) / 32
  /-- Bits behind those of the last position are not set. -/
  unused : ∀ k word bit, v.words[k]? = some word → bit < 64 → 2 * v.width ≤ 64 * k + bit →
    word.toNat.testBit bit = false
  set : ∀ i value, i < v.width → ∃ v', v.set i value = .ok v' ∧ v'.Built ∧ v'.width = v.width ∧
    ∀ j, j < v.width → ∃ old, v.get j = .ok old ∧ v'.get j = .ok (if i = j then value else old)
  eq_iff : ∀ w, w.Built → (v = w ↔ v.width = w.width ∧ ∀ i, i < v.width → v.get i = w.get i)

theorem faithful_of_built (h : v.Built) : v.Faithful where
  size := h.packed.size
  unused _ _ _ hword hbit hpast := h.packed.testBit_unused hword hbit hpast
  set _ value hi := h.exists_set hi value
  eq_iff _ hw := h.eq_iff hw

namespace Straddling

/-- Values in all three words, one of them overwritten. -/
def vector : LogicVec := ((((zeros 70).put 31 .z).put 32 .x).put 69 .z).put 31 .one

theorem built_vector : vector.Built := by
  have hlow : (((zeros 70).put 31 .z).put 32 .x).Built :=
    ((Built.zeros 70).put (by decide)).put (by decide)
  exact (hlow.put (by decide)).put (by decide)

theorem faithful_vector : vector.Built ∧ vector.Faithful ∧
    vector.words = #[0x4000000000000000, 2, 0xC00] :=
  ⟨built_vector, faithful_of_built built_vector, rfl⟩

end Straddling

end LogicVec
end FpgaPacking
