import FpgaPacking.Normalize.Fold
import FpgaPacking.Proofs.Logic.Built

/-!
# Folded truth tables

The nets on the inputs of a truth table select one of its rows, the input at
position `i` giving bit `i` of the row number.  In a folded table every row has
the value of the row in which the folded bit is the constant, so the row that is
selected when the folded input is cut off has the value that was selected before.
Folding stays within the table and builds a table again.
-/

namespace FpgaPacking
namespace Normalize

open LogicVec

variable {i j : Nat} {value : Bool}

/-! ## Row numbers -/

theorem testBit_forceBit (row : Nat) :
    (forceBit row (1 <<< i) value).testBit j = if j = i then value else row.testBit j := by
  have hmask : (1 <<< i).testBit j = decide (i = j) := by
    rw [Nat.one_shiftLeft, Nat.testBit_two_pow]
  unfold forceBit
  cases value with
  | true =>
    rw [if_pos rfl, Nat.testBit_or, hmask]
    by_cases hj : j = i
    · simp [hj]
    · simp [hj, Ne.symm hj]
  | false =>
    rw [if_neg nofun, Nat.testBit_xor, Nat.testBit_and, hmask]
    by_cases hj : j = i
    · simp [hj]
    · simp [hj, Ne.symm hj]

/-- The row before an input was cut off, in terms of the row after it. -/
theorem forceBit_binaryNumber {bits bits' : List Bool} (hi : bits[i]? = some value)
    (hrest : ∀ j, j ≠ i → bits'[j]? = bits[j]?) :
    forceBit (binaryNumber bits') (1 <<< i) value = binaryNumber bits := by
  apply Nat.eq_of_testBit_eq
  intro j
  rw [testBit_forceBit, testBit_binaryNumber, testBit_binaryNumber]
  by_cases hj : j = i
  · rw [if_pos hj, hj, hi]
    rfl
  · rw [if_neg hj, hrest j hj]

/-- Forcing a bit of a row number gives the number of a row. -/
theorem forceBit_lt {n row : Nat} (hi : i < n) (hrow : row < 2 ^ n) :
    forceBit row (1 <<< i) value < 2 ^ n := by
  refine Nat.lt_pow_two_of_testBit _ fun j hj => ?_
  rw [testBit_forceBit, if_neg (by omega)]
  exact Nat.testBit_lt_two_pow (Nat.lt_of_lt_of_le hrow (Nat.pow_le_pow_right (by decide) hj))

/-! ## Folding -/

theorem foldTable_spec {table folded : LogicVec} {mask : Nat}
    (h : foldTable table mask value = .ok folded) :
    folded.width = table.width ∧
      ∀ row, row < table.width → folded.get row = table.get (forceBit row mask value) := by
  have hsets : ∀ (rows : List Nat) (v : LogicVec),
      rows.foldlM (fun folded row => do folded.set row (← table.get (forceBit row mask value))) v =
        .ok folded →
      folded.width = v.width ∧ ∀ j, folded.get j =
        if j ∈ rows then table.get (forceBit j mask value) else v.get j := by
    intro rows
    induction rows with
    | nil =>
      intro v hv
      rw [List.foldlM_nil] at hv
      obtain rfl := Except.ok.inj hv
      exact ⟨rfl, fun j => by simp⟩
    | cons row rows ih =>
      intro v hv
      rw [List.foldlM_cons] at hv
      obtain ⟨v', hset, hv⟩ := except_bind_ok.mp hv
      obtain ⟨forced, hforced, hset⟩ := except_bind_ok.mp hset
      obtain ⟨hrow, hword, rfl⟩ := set_ok.mp hset
      obtain ⟨hwidth, hget⟩ := ih _ hv
      refine ⟨hwidth, fun j => ?_⟩
      rw [hget, get_put hrow hword]
      by_cases hj : j = row
      · subst hj
        simp [hforced]
      · simp [hj]
  obtain ⟨hwidth, hget⟩ := hsets _ _ h
  refine ⟨hwidth, fun row hrow => ?_⟩
  rw [hget, if_pos (List.mem_range.mpr hrow)]

theorem width_toBits? {before : ParamValue} {rows : Nat} {table : LogicVec}
    (h : before.toBits? rows = some table) : table.width = rows := by
  cases before with
  | int n =>
    obtain rfl := Option.some.inj h
    exact (ofUInt64_spec _ rows).1
  | bits vector =>
    have hchecked : (if vector.width = rows then some vector else none) = some table := h
    split at hchecked
    · next hwidth => exact Option.some.inj hchecked ▸ hwidth
    · cases hchecked
  | text content => cases h

/-- The parameter of a folded table reads as that table. -/
theorem tableParam_spec {before param : ParamValue} {folded : LogicVec}
    (h : tableParam before folded = .ok param) :
    ∃ table, param.toBits? folded.width = some table ∧
      ∀ row, row < folded.width → table.get row = folded.get row := by
  have hvector : ParamValue.toBits? folded.width (.bits folded) = some folded := if_pos rfl
  unfold tableParam at h
  obtain ⟨number, hnumber, h⟩ := except_bind_ok.mp h
  cases before with
  | int n =>
    cases number with
    | some n' =>
      obtain rfl := Except.ok.inj h
      obtain ⟨-, hbits⟩ := toUInt64?_spec hnumber
      obtain ⟨-, hget⟩ := ofUInt64_spec n' folded.width
      refine ⟨ofUInt64 n' folded.width, ?_, fun row hrow => ?_⟩
      · show some (ofUInt64 n'.toInt64.toUInt64 folded.width) = _
        rw [UInt64.toUInt64_toInt64 n']
      · rw [hget row hrow, hbits row hrow]
    | none =>
      obtain rfl := Except.ok.inj h
      exact ⟨folded, hvector, fun _ _ => rfl⟩
  | bits vector =>
    obtain rfl := Except.ok.inj h
    exact ⟨folded, hvector, fun _ _ => rfl⟩
  | text content =>
    obtain rfl := Except.ok.inj h
    exact ⟨folded, hvector, fun _ _ => rfl⟩

/-- Row after row is written, so the table that is folded is built. -/
theorem built_foldTable {table folded : LogicVec} {mask : Nat}
    (h : foldTable table mask value = .ok folded) : folded.Built := by
  have hsets : ∀ (rows : List Nat) (v : LogicVec), v.Built →
      rows.foldlM (fun folded row => do folded.set row (← table.get (forceBit row mask value))) v =
        .ok folded → folded.Built := by
    intro rows
    induction rows with
    | nil =>
      intro v hv hrun
      exact Except.ok.inj hrun ▸ hv
    | cons row rows ih =>
      intro v hv hrun
      rw [List.foldlM_cons] at hrun
      obtain ⟨v', hstep, hrun⟩ := except_bind_ok.mp hrun
      obtain ⟨forced, -, hset⟩ := except_bind_ok.mp hstep
      exact ih v' (hv.set hset) hrun
  exact hsets _ _ (.zeros table.width) h

/-- Folding does not leave the table. -/
theorem exists_foldTable {table : LogicVec} {mask : Nat} (h : table.Stored)
    (hmask : ∀ row, row < table.width → forceBit row mask value < table.width) :
    ∃ folded, foldTable table mask value = .ok folded := by
  have hsets : ∀ (rows : List Nat) (v : LogicVec), v.Stored → v.width = table.width →
      (∀ row ∈ rows, row < table.width) → ∃ folded,
      rows.foldlM (fun folded row => do folded.set row (← table.get (forceBit row mask value))) v =
        .ok folded := by
    intro rows
    induction rows with
    | nil => exact fun v _ _ _ => ⟨v, rfl⟩
    | cons row rows ih =>
      intro v hv hwidth hrows
      obtain ⟨hrow, hrows⟩ := List.forall_mem_cons.mp hrows
      obtain ⟨forced, hforced⟩ := h.exists_get (hmask row hrow)
      have hset : v.set row forced = .ok (v.put row forced) :=
        set_ok.mpr ⟨hwidth ▸ hrow, hv row (hwidth ▸ hrow), rfl⟩
      obtain ⟨folded, hfolded⟩ := ih (v.put row forced) hv.put hwidth hrows
      refine ⟨folded, ?_⟩
      rw [List.foldlM_cons, hforced]
      show (v.set row forced >>= _) = _
      rw [hset]
      exact hfolded
  exact hsets _ _ (stored_zeros _) rfl fun row hrow => List.mem_range.mp hrow

theorem built_tableParam {before param : ParamValue} {folded : LogicVec} (h : folded.Built)
    (hparam : tableParam before folded = .ok param) :
    param.Built := by
  unfold tableParam at hparam
  obtain ⟨number, -, hparam⟩ := except_bind_ok.mp hparam
  split at hparam
  · exact Except.ok.inj hparam ▸ trivial
  · exact Except.ok.inj hparam ▸ h

theorem exists_tableParam {folded : LogicVec} (h : folded.Stored) (before : ParamValue) :
    ∃ param, tableParam before folded = .ok param := by
  obtain ⟨number, hnumber⟩ := h.exists_toUInt64?
  unfold tableParam
  rw [hnumber]
  cases before <;> cases number <;> exact ⟨_, rfl⟩

/-! ## Reading a table -/

/-- The value that the parameters give a row of the truth table. -/
def readTable (shape : LutShape) (params : Table Ident ParamValue) (row : Nat) : Option Logic := do
  let rows ← shape.rows.toOption
  let table ← (← params.find? shape.param).toBits? rows
  (table.get row).toOption

/-- The row that the nets on the inputs of a cell select, if `high` says which nets
are high.  An input on no net counts as low. -/
def selectedRow (high : NetId → Bool) (nl : Netlist) (id : CellId) (shape : LutShape) : Nat :=
  binaryNumber (shape.inputs.map fun port => (nl.netOf id port).any high)

/-- The value of the selected row, for a cell of a truth-table type. -/
def selectedValue (options : NormalizeOptions) (high : NetId → Bool) (nl : Netlist) (id : CellId) :
    Option Logic := do
  let c ← nl.cell? id
  let shape ← options.lutShapes.find? c.cellType
  readTable shape c.params (selectedRow high nl id shape)

theorem bitMask_ok {position mask : Nat} (h : LutShape.bitMask position = .ok mask) :
    mask = 1 <<< position := by
  unfold LutShape.bitMask at h
  split at h
  · exact (Except.ok.inj h).symm
  · cases h

theorem bitMask_of_lt {position : Nat} (h : position < 32) :
    LutShape.bitMask position = .ok (1 <<< position) := if_pos h

theorem rows_ok {shape : LutShape} {rows : Nat} (h : shape.rows = .ok rows) :
    rows = 2 ^ shape.inputs.length := by
  rw [bitMask_ok h, Nat.one_shiftLeft]

theorem selectedRow_lt (high : NetId → Bool) (nl : Netlist) (id : CellId) {shape : LutShape}
    {rows : Nat} (h : shape.rows = .ok rows) : selectedRow high nl id shape < rows := by
  have hlt := binaryNumber_lt (shape.inputs.map fun port => (nl.netOf id port).any high)
  rw [List.length_map] at hlt
  rw [rows_ok h]
  exact hlt

/-- A folded table has at each row what it had at the row with the constant. -/
theorem readTable_fold {shape : LutShape} {params : Table Ident ParamValue}
    {before param : ParamValue} {table folded : LogicVec} {rows row : Nat}
    (hrows : shape.rows = .ok rows) (hbefore : params.find? shape.param = some before)
    (htable : before.toBits? rows = some table)
    (hfolded : foldTable table (1 <<< i) value = .ok folded)
    (hparam : tableParam before folded = .ok param) (hrow : row < rows) :
    readTable shape (params.insert shape.param param) row =
      readTable shape params (forceBit row (1 <<< i) value) := by
  obtain ⟨hwidth, hforced⟩ := foldTable_spec hfolded
  rw [width_toBits? htable] at hwidth hforced
  obtain ⟨table', htable', hget⟩ := tableParam_spec hparam
  rw [hwidth] at htable' hget
  have hinserted : (params.insert shape.param param).find? shape.param = some param := by
    rw [Table.find?_insert]
    simp
  unfold readTable
  rw [hrows, hbefore, hinserted]
  show (param.toBits? rows).bind _ = (before.toBits? rows).bind _
  rw [htable', htable]
  show (table'.get row).toOption = (table.get _).toOption
  rw [hget row hrow, hforced row hrow]

end Normalize
end FpgaPacking
