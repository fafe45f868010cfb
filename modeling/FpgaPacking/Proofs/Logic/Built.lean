import FpgaPacking.Param
import FpgaPacking.Proofs.Logic.Vectors

/-!
# Vectors that have been built

A vector that comes from a constructor and from writing values at positions that
exist is packed: it has as many words as its positions need, and zeros behind the
last of them.  So there is a word for each position, and the vector can be read as
a whole, as a list, as an integer and as a text.
-/

namespace FpgaPacking

/-! ## Checks without errors -/

theorem exists_mapM_ok {ε α β : Type} {f : α → Except ε β} {l : List α}
    (hf : ∀ a ∈ l, ∃ b, f a = .ok b) : ∃ bs, l.mapM f = .ok bs := by
  induction l with
  | nil => exact ⟨[], List.mapM_nil⟩
  | cons a l ih =>
    obtain ⟨⟨b, hb⟩, hl⟩ := List.forall_mem_cons.mp hf
    obtain ⟨bs, hbs⟩ := ih hl
    exact ⟨b :: bs, by rw [List.mapM_cons, hb, hbs]; rfl⟩

namespace LogicVec

variable {v v' : LogicVec} {i : Nat} {value : Logic}

/-! ## Words -/

/-- The vector has as many words as its positions need, and zeros behind its last position. -/
structure Packed (v : LogicVec) : Prop where
  size : v.words.size = (v.width + 31) / perWord
  padding : ∀ i word, v.width ≤ i → v.words[i / perWord]? = some word → readField word i = .zero

theorem Packed.stored (h : v.Packed) : v.Stored := by
  intro i hi
  rw [h.size]
  unfold perWord
  omega

theorem packed_zeros (width : Nat) : (zeros width).Packed where
  size := Array.size_replicate
  padding i word _ hword := by
    change (Array.replicate _ 0)[i / perWord]? = some word at hword
    rw [Array.getElem?_replicate] at hword
    obtain ⟨-, hzero⟩ := Option.ite_none_right_eq_some.mp hword
    obtain rfl := Option.some.inj hzero
    show Logic.ofCode (0 >>> shift i) = _
    rw [UInt64.zero_shiftRight]
    rfl

theorem Packed.put (h : v.Packed) (hi : i < v.width) : (v.put i value).Packed where
  size := by
    show (v.words.modify _ _).size = _
    rw [Array.size_modify]
    exact h.size
  padding j word hj hword := by
    have hij : i ≠ j := Nat.ne_of_lt (Nat.lt_of_lt_of_le hi hj)
    change (v.words.modify (i / perWord) _)[j / perWord]? = some word at hword
    rw [Array.getElem?_modify] at hword
    split at hword
    · next hsame =>
      obtain ⟨old, hold, rfl⟩ := Option.map_eq_some_iff.mp hword
      have hfield : ¬ i % 32 = j % 32 := by
        unfold perWord at hsame
        omega
      rw [readField_writeField, if_neg hfield]
      exact h.padding j old hj hold
    · exact h.padding j word hj hword

theorem Packed.set (h : v.Packed) (hset : v.set i value = .ok v') : v'.Packed := by
  obtain ⟨hi, -, rfl⟩ := set_ok.mp hset
  exact h.put hi

/-- A vector that is filled at positions it has. -/
theorem Packed.foldl {α : Type} {f : LogicVec → α → LogicVec} {l : List α} (h : v.Packed)
    (hf : ∀ v', v'.Packed → v'.width = v.width → ∀ a ∈ l, (f v' a).Packed ∧ (f v' a).width = v.width) :
    (l.foldl f v).Packed := by
  suffices hall : ∀ v', v'.Packed → v'.width = v.width → (l.foldl f v').Packed from hall v h rfl
  induction l with
  | nil => exact fun v' h _ => h
  | cons a l ih =>
    intro v' hv' hwidth
    obtain ⟨hpacked, hkept⟩ := hf v' hv' hwidth a List.mem_cons_self
    exact ih (fun v' hv' hw b hb => hf v' hv' hw b (List.mem_cons_of_mem a hb)) _ hpacked hkept

theorem packed_ofValues (values : List Logic) : (ofValues values).Packed := by
  refine (packed_zeros _).foldl fun v hv hwidth entry hentry => ⟨hv.put ?_, hwidth⟩
  rw [hwidth]
  exact List.snd_lt_of_mem_zipIdx (x := entry) hentry

theorem packed_ofUInt64 (value : UInt64) (width : Nat) : (ofUInt64 value width).Packed := by
  refine (packed_zeros width).foldl fun v hv hwidth i hi => ?_
  split
  · refine ⟨hv.put ?_, hwidth⟩
    rw [hwidth]
    exact Nat.lt_of_lt_of_le (List.mem_range.mp hi) (Nat.min_le_left width 64)
  · exact ⟨hv, hwidth⟩

/-- The vector was made by a constructor and by writing values at positions that exist. -/
inductive Built : LogicVec → Prop where
  | zeros (width : Nat) : Built (zeros width)
  | ofUInt64 (value : UInt64) (width : Nat) : Built (ofUInt64 value width)
  | ofBinary (text : String) {v : LogicVec} (h : ofBinary? text = some v) : Built v
  | ofHex (text : String) {v : LogicVec} (h : ofHex? text = some v) : Built v
  | set {v v' : LogicVec} {index : Nat} {value : Logic} (hv : Built v)
    (h : v.set index value = .ok v') : Built v'

theorem Built.packed (h : v.Built) : v.Packed := by
  induction h with
  | zeros width => exact packed_zeros width
  | ofUInt64 value width => exact packed_ofUInt64 value width
  | ofBinary text h =>
    obtain ⟨values, -, rfl⟩ := Option.map_eq_some_iff.mp h
    exact packed_ofValues values
  | ofHex text h =>
    obtain ⟨numbers, -, rfl⟩ := Option.map_eq_some_iff.mp h
    exact packed_ofValues _
  | set _ h ih => exact ih.set h

theorem Built.stored (h : v.Built) : v.Stored := h.packed.stored

/-! ## Reading a vector as a whole -/

theorem Stored.exists_get (h : v.Stored) (hi : i < v.width) : ∃ value, v.get i = .ok value :=
  ⟨_, get_of_word hi (Array.getElem?_eq_getElem (h i hi))⟩

theorem Stored.exists_values (h : v.Stored) : ∃ values, v.values = .ok values :=
  exists_mapM_ok fun _ hi => h.exists_get (List.mem_range.mp hi)

theorem Stored.exists_toUInt64? (h : v.Stored) : ∃ number, v.toUInt64? = .ok number := by
  unfold toUInt64?
  split
  · exact ⟨none, rfl⟩
  · obtain ⟨values, hvalues⟩ := h.exists_values
    rw [hvalues]
    exact ⟨_, rfl⟩

theorem Stored.exists_display (h : v.Stored) : ∃ text, v.display = .ok text := by
  obtain ⟨values, hvalues⟩ := h.exists_values
  unfold display
  rw [hvalues]
  exact ⟨_, rfl⟩

end LogicVec

/-! ## Parameter values -/

namespace ParamValue

variable {p : ParamValue} {rows : Nat} {table : LogicVec}

/-- The value is no vector or a vector that was built. -/
def Built : ParamValue → Prop
  | .bits vector => vector.Built
  | .int _ | .text _ => True

/-- The vectors of a configuration are built from the digits in its texts. -/
theorem built_parse (content : String) : (parse content).Built := by
  unfold parse
  split
  · next vector hvector =>
    split
    · trivial
    · unfold vectorOf? at hvector
      split at hvector
      · next digits _ =>
        exact LogicVec.Built.ofBinary (String.ofList digits) (by
          unfold LogicVec.ofBinary?
          rw [String.toList_ofList]
          exact hvector)
      · next digits _ =>
        exact LogicVec.Built.ofHex (String.ofList digits) (by
          unfold LogicVec.ofHex?
          rw [String.toList_ofList]
          exact hvector)
      · cases hvector
  · trivial

theorem Built.packed_toBits? (h : p.Built) (ht : p.toBits? rows = some table) : table.Packed := by
  cases p with
  | int n =>
    obtain rfl := Option.some.inj ht
    exact LogicVec.packed_ofUInt64 _ rows
  | bits vector =>
    obtain ⟨-, htable⟩ := Option.ite_none_right_eq_some.mp ht
    exact Option.some.inj htable ▸ LogicVec.Built.packed h
  | text content => cases ht

theorem Built.exists_display (h : p.Built) : ∃ text, p.display = .ok text := by
  cases p with
  | int n => exact ⟨_, rfl⟩
  | bits vector =>
    obtain ⟨digits, hdigits⟩ := (LogicVec.Built.stored h).exists_display
    refine ⟨"0b" ++ digits, ?_⟩
    show vector.display.map _ = _
    rw [hdigits]
    rfl
  | text content => exact ⟨_, rfl⟩

end ParamValue

end FpgaPacking
