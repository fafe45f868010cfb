import FpgaPacking.Proofs.Faults.Normalize
import FpgaPacking.Proofs.Netlist.Progress
import FpgaPacking.Proofs.Normalize.Cutting
import FpgaPacking.Proofs.Normalize.ForcedRows

/-!
# Folding all constant inputs of a cell

Whether an input can be folded depends on the cell's table and not on what has
been folded before: a folded table can be read again.  So either the first input
that is to be folded is refused, and nothing has changed, or none is.  What the
cell looks like after some inputs have been folded depends on the set of them
only, so the order in which they are taken does not matter.
-/

namespace FpgaPacking

/-- The cell with a parameter set. -/
def Cell.withParam (key : Ident) (value : ParamValue) (c : Cell) : Cell :=
  { c with params := c.params.insert key value }

theorem Table.insert_insert {κ ν : Type} [Ord κ] [Std.TransOrd κ] [Std.LawfulEqOrd κ] [BEq κ]
    [LawfulBEq κ] (table : Table κ ν) (key : κ) (first second : ν) :
    (table.insert key first).insert key second = table.insert key second := by
  refine ext_find? fun other => ?_
  rw [find?_insert, find?_insert, find?_insert]
  split <;> rfl

namespace Normalize

open Netlist

variable {options : NormalizeOptions} {names : Names} {nl nl' x x' : Netlist} {id : CellId} {c : Cell}
  {shape : LutShape} {inputs inputs' rest : List Ident} {port : Ident} {k : NetId} {v : ConstValue}

/-! ## What is folded -/

/-- The constant that a port is on. -/
def constantAt (nl : Netlist) (id : CellId) (port : Ident) : Option Bool :=
  ((nl.netOf id port).bind nl.constValue).map ConstValue.toBool

/-- The inputs of a cell that are on constant nets and select a bit of the row number. -/
def foldedInputs (options : NormalizeOptions) (nl : Netlist) (c : Cell) : List Ident :=
  (constantInputs nl c).filter fun port =>
    (options.lutShapes.find? c.cellType).any fun shape => port ∈ shape.inputs

/-- For each bit of the row number, the constant of its input if that is among the folded ones. -/
def tiedBits (nl : Netlist) (id : CellId) (shape : LutShape) (folded : List Ident) :
    List (Option Bool) :=
  shape.inputs.map fun port => if port ∈ folded then constantAt nl id port else none

theorem length_tiedBits (nl : Netlist) (id : CellId) (shape : LutShape) (inputs : List Ident) :
    (tiedBits nl id shape inputs).length = shape.inputs.length :=
  List.length_map _

theorem tiedBits_congr (h : ∀ port, port ∈ inputs ↔ port ∈ inputs') :
    tiedBits nl id shape inputs = tiedBits nl id shape inputs' := by
  unfold tiedBits
  simp only [h]

theorem forcedRow_tiedBits_nil {row : Nat} (hrow : row < 2 ^ shape.inputs.length) :
    forcedRow (tiedBits nl id shape []) row = row := by
  refine forcedRow_free (fun bit hbit => ?_) ((length_tiedBits nl id shape []).symm ▸ hrow)
  obtain ⟨port, -, rfl⟩ := List.mem_map.mp hbit
  exact if_neg List.not_mem_nil

theorem forcedRow_tiedBits {position row : Nat} (hnodup : shape.inputs.Nodup)
    (hposition : shape.inputs.idxOf? port = some position) (hport : port ∉ inputs)
    (hk : nl.netOf id port = some k) (hv : nl.constValue k = some v) :
    forcedRow (tiedBits nl id shape inputs) (forceBit row (1 <<< position) v.toBool) =
      forcedRow (tiedBits nl id shape (inputs ++ [port])) row := by
  obtain ⟨hlt, hget, -⟩ := List.idxOf?_eq_some_iff.mp hposition
  have hconstant : constantAt nl id port = some v.toBool := by
    unfold constantAt
    rw [hk, Option.bind_some, hv]
    rfl
  refine forcedRow_forceBit ?_ ?_ fun j hj => ?_
  · rw [tiedBits, List.getElem?_map, List.getElem?_eq_getElem hlt, hget, Option.map_some,
      if_neg hport]
  · rw [tiedBits, List.getElem?_map, List.getElem?_eq_getElem hlt, hget, Option.map_some,
      if_pos (List.mem_append_right _ List.mem_cons_self), hconstant]
  · rw [tiedBits, tiedBits, List.getElem?_map, List.getElem?_map]
    refine Option.map_congr fun other hother => ?_
    obtain ⟨hjlt, hjget⟩ := List.getElem?_eq_some_iff.mp hother
    have hne : other ≠ port := by
      rw [← hjget, ← hget]
      exact fun e => hj (hnodup.getElem_inj_iff.mp e)
    simp [hne]

/-! ## One input -/

/-- The table of the cell can be read. -/
def Readable (c : Cell) (shape : LutShape) : Prop :=
  ∃ before table, c.params.find? shape.param = some before ∧
    before.toBits? (2 ^ shape.inputs.length) = some table

theorem rows_of_few (hfew : shape.inputs.length < 32) :
    shape.rows = .ok (2 ^ shape.inputs.length) := by
  unfold LutShape.rows
  rw [bitMask_of_lt hfew, Nat.one_shiftLeft]

theorem foldInput_eq {position : Nat} {before param : ParamValue} {table folded : LogicVec}
    (hk : x.netOf id port = some k) (hlive : (x.net? k).isSome) (hv : x.constValue k = some v)
    (hc : x.cell? id = some c) (hshape : options.lutShapes.find? c.cellType = some shape)
    (hfew : shape.inputs.length < 32) (hposition : shape.inputs.idxOf? port = some position)
    (hbefore : c.params.find? shape.param = some before)
    (htable : before.toBits? (2 ^ shape.inputs.length) = some table)
    (hfolded : foldTable table (1 <<< position) v.toBool = .ok folded)
    (hparam : tableParam before folded = .ok param) :
    foldInput options id port names x =
      .ok true ((x.mapCell id (Cell.withParam shape.param param)).detach ⟨id, port⟩ k) := by
  obtain ⟨hlt, -, -⟩ := List.idxOf?_eq_some_iff.mp hposition
  have hmask := bitMask_of_lt (Nat.lt_trans hlt hfew)
  have hcell : Edit.cell id names x = .ok c x := Edit.cell_of_some names hc
  have hdisconnect : Edit.disconnect id port names (x.mapCell id (Cell.withParam shape.param param)) =
      .ok (some k) ((x.mapCell id (Cell.withParam shape.param param)).detach ⟨id, port⟩ k) := by
    obtain ⟨p, hp, hpk⟩ := wire_eq_some.mp (show x.wire ⟨id, port⟩ = some k from hk)
    obtain ⟨n, hn⟩ := Option.isSome_iff_exists.mp hlive
    obtain ⟨d, hd, hport⟩ := Option.bind_eq_some_iff.mp hp
    have hcell' : (x.mapCell id (Cell.withParam shape.param param)).cell? id =
        some (d.withParam shape.param param) := by
      rw [cell?_mapCell, if_pos rfl, hd]
      rfl
    unfold Edit.disconnect
    rw [Edit.run_bind_of_ok (Edit.portChecked_of_some names hcell' hport)]
    simp only [hpk]
    have hnet : Edit.netChecked k names (x.mapCell id (Cell.withParam shape.param param)) =
        .ok n _ := Edit.netChecked_of_some names hn
    rw [Edit.run_bind_of_ok hnet]
    rfl
  unfold foldInput
  rw [Edit.run_bind_of_ok (Edit.get_ok.mpr ⟨rfl, rfl⟩)]
  have hconstant : (x.netOf id port).bind x.constValue = some v :=
    Option.bind_eq_some_iff.mpr ⟨k, hk, hv⟩
  simp only [hconstant]
  rw [Edit.run_bind_of_ok hcell]
  simp only [hshape, hposition]
  rw [Edit.run_bind_of_ok (show Edit.resolve shape.param names x = .ok _ x from rfl)]
  simp only [hbefore]
  rw [Edit.run_bind_of_ok (Edit.lookup_ok.mpr ⟨rows_of_few hfew, rfl⟩)]
  simp only [htable]
  rw [Edit.run_bind_of_ok (Edit.lookup_ok.mpr ⟨hmask, rfl⟩),
    Edit.run_bind_of_ok (Edit.lookup_ok.mpr ⟨hfolded, rfl⟩),
    Edit.run_bind_of_ok (Edit.lookup_ok.mpr ⟨hparam, rfl⟩)]
  have hupdate : Edit.updateCell id (Cell.withParam shape.param param) names x =
      .ok () (x.mapCell id (Cell.withParam shape.param param)) := by
    unfold Edit.updateCell
    rw [Edit.run_bind_of_ok hcell]
    rfl
  refine (Edit.run_bind_of_ok hupdate).trans ?_
  rw [Edit.run_bind_of_ok hdisconnect]
  rfl

theorem foldInput_unlisted (names : Names) (hc : x.cell? id = some c)
    (hshape : options.lutShapes.find? c.cellType = some shape) (hport : port ∉ shape.inputs) :
    foldInput options id port names x = .ok false x := by
  unfold foldInput
  rw [Edit.run_bind_of_ok (Edit.get_ok.mpr ⟨rfl, rfl⟩)]
  cases (x.netOf id port).bind x.constValue with
  | none => rfl
  | some v =>
    simp only
    rw [Edit.run_bind_of_ok (Edit.cell_of_some names hc)]
    simp only [hshape, List.idxOf?_eq_none_iff.mpr hport]
    rfl

/-- Without a table that can be read, a constant input that selects a bit of the row number is
refused. -/
theorem foldInput_refused (names : Names) (hc : x.cell? id = some c)
    (hk : x.netOf id port = some k) (hv : x.constValue k = some v)
    (hstuck : ∀ shape, options.lutShapes.find? c.cellType = some shape →
      shape.inputs.length < 32 ∧ port ∈ shape.inputs ∧ ¬Readable c shape) :
    ∃ e, foldInput options id port names x = .error e x := by
  unfold foldInput
  rw [Edit.run_bind_of_ok (Edit.get_ok.mpr ⟨rfl, rfl⟩)]
  have hconstant : (x.netOf id port).bind x.constValue = some v :=
    Option.bind_eq_some_iff.mpr ⟨k, hk, hv⟩
  simp only [hconstant]
  rw [Edit.run_bind_of_ok (Edit.cell_of_some names hc)]
  cases hshape : options.lutShapes.find? c.cellType with
  | none => exact ⟨_, rfl⟩
  | some shape =>
    obtain ⟨hfew, hport, hunreadable⟩ := hstuck shape hshape
    obtain ⟨position, hposition⟩ : ∃ position, shape.inputs.idxOf? port = some position :=
      Option.isSome_iff_exists.mp (List.isSome_idxOf?.mpr hport)
    simp only [hposition]
    rw [Edit.run_bind_of_ok (show Edit.resolve shape.param names x = .ok _ x from rfl)]
    cases hbefore : c.params.find? shape.param with
    | none => exact ⟨_, rfl⟩
    | some before =>
      simp only
      rw [Edit.run_bind_of_ok (Edit.lookup_ok.mpr ⟨rows_of_few hfew, rfl⟩)]
      cases htable : before.toBits? (2 ^ shape.inputs.length) with
      | none => exact ⟨_, rfl⟩
      | some table => exact absurd ⟨before, table, hbefore, htable⟩ hunreadable

/-! ## Several inputs -/

/-- The netlist after the inputs of cell `c` have been folded, in whatever order. -/
inductive AfterFolds (nl : Netlist) (id : CellId) (c : Cell) (shape : LutShape) :
    List Ident → Netlist → Prop where
  | nothing : AfterFolds nl id c shape [] nl
  | table {inputs : List Ident} {before after : ParamValue} {table folded : LogicVec}
    (hinputs : inputs ≠ []) (hbefore : c.params.find? shape.param = some before)
    (htable : before.toBits? (2 ^ shape.inputs.length) = some table)
    (hbuilt : folded.Built) (hwidth : folded.width = 2 ^ shape.inputs.length)
    (hrows : ∀ row, row < 2 ^ shape.inputs.length →
      folded.get row = table.get (forcedRow (tiedBits nl id shape inputs) row))
    (hafter : tableParam before folded = .ok after) :
    AfterFolds nl id c shape inputs
      ((nl.cutInputs id inputs).mapCell id (Cell.withParam shape.param after))

/-- A table whose rows are rows of another. -/
theorem selects_of_rows {table folded : LogicVec}
    (htable : table.width = 2 ^ shape.inputs.length)
    (hwidth : folded.width = 2 ^ shape.inputs.length)
    (hrows : ∀ row, row < 2 ^ shape.inputs.length →
      folded.get row = table.get (forcedRow (tiedBits nl id shape inputs) row)) :
    Selects table folded := by
  refine ⟨hwidth.trans htable.symm, fun row hrow => ⟨_, ?_, hrows row (hwidth ▸ hrow)⟩⟩
  rw [htable, ← length_tiedBits nl id shape inputs]
  exact forcedRow_lt

/-- What the next fold finds: the table as it has been folded so far, and the cell with some inputs
cut off. -/
structure Found (nl : Netlist) (id : CellId) (c : Cell) (shape : LutShape) (inputs : List Ident)
    (before : ParamValue) (table : LogicVec) (x : Netlist) : Prop where
  write : ∀ param, x.mapCell id (Cell.withParam shape.param param) =
    (nl.cutInputs id inputs).mapCell id (Cell.withParam shape.param param)
  net : ∀ k, (x.net? k).isSome = (nl.net? k).isSome
  constValue : ∀ k, x.constValue k = nl.constValue k
  netOf : ∀ port, x.netOf id port = if port ∈ inputs then none else nl.netOf id port
  table : ∃ d now current, x.cell? id = some d ∧ d.cellType = c.cellType ∧
    d.params.find? shape.param = some now ∧ now.Built ∧
    now.toBits? (2 ^ shape.inputs.length) = some current ∧
    (∀ row, row < 2 ^ shape.inputs.length →
      current.get row = table.get (forcedRow (tiedBits nl id shape inputs) row)) ∧
    ∀ folded, Selects table folded → tableParam now folded = tableParam before folded

namespace AfterFolds

theorem found {before : ParamValue} {table : LogicVec} (h : AfterFolds nl id c shape inputs x)
    (hc : nl.cell? id = some c) (hbuilt : before.Built)
    (hbefore : c.params.find? shape.param = some before)
    (htable : before.toBits? (2 ^ shape.inputs.length) = some table) :
    Found nl id c shape inputs before table x := by
  cases h with
  | nothing =>
    exact {
      write := fun param => by rw [cutInputs_nil]
      net := fun k => rfl
      constValue := fun k => rfl
      netOf := fun port => (if_neg List.not_mem_nil).symm
      table := ⟨c, before, table, hc, rfl, hbefore, hbuilt, htable,
        fun row hrow => by rw [forcedRow_tiedBits_nil hrow], fun _ _ => rfl⟩ }
  | @table _ before' after table' folded hinputs hbefore' htable' hfolded hwidth hrows hafter =>
    obtain rfl := Option.some.inj (hbefore.symm.trans hbefore')
    obtain rfl := Option.some.inj (htable.symm.trans htable')
    have hselects := selects_of_rows (width_toBits? htable) hwidth hrows
    have hcut : (nl.cutInputs id inputs).cell? id = some (c.cut inputs) := by
      rw [cell?_cutInputs, if_pos rfl, hc]
      rfl
    refine
      { write := fun param => ?_
        net := fun k => ?_
        constValue := fun k => constValue_cutInputs
        netOf := fun port => ?_
        table := ⟨(c.cut inputs).withParam shape.param after, after, folded, ?_, rfl, ?_,
          built_tableParam hfolded hafter, hwidth ▸ toBits?_tableParam hfolded hafter, hrows,
          fun folded' hfolded' => tableParam_again htable hselects hfolded' hafter⟩ }
    · rw [mapCell_mapCell]
      have htwice : Cell.withParam shape.param param ∘ Cell.withParam shape.param after =
          Cell.withParam shape.param param := by
        funext d
        unfold Cell.withParam
        simp only [Function.comp_apply, Table.insert_insert]
      rw [htwice]
    · show ((nl.cutInputs id inputs).net? k).isSome = _
      rw [net?_cutInputs, Option.isSome_map]
    · rw [← netOf_cutInputs]
      unfold Netlist.netOf
      rw [cell?_mapCell, if_pos rfl, hcut]
      rfl
    · rw [cell?_mapCell, if_pos rfl, hcut]
      rfl
    · show (c.params.insert shape.param after).find? shape.param = _
      rw [Table.find?_insert]
      simp

/-- The set of the folded inputs determines the netlist. -/
theorem unique (h : AfterFolds nl id c shape inputs x) (h' : AfterFolds nl id c shape inputs' x')
    (hsame : ∀ port, port ∈ inputs ↔ port ∈ inputs') : x = x' := by
  have hempty : inputs = [] ↔ inputs' = [] := by
    rw [List.eq_nil_iff_forall_not_mem, List.eq_nil_iff_forall_not_mem]
    exact forall_congr' fun port => not_congr (hsame port)
  cases h with
  | nothing =>
    cases h' with
    | nothing => rfl
    | table hinputs' => exact absurd (hempty.mp rfl) hinputs'
  | @table _ before after table folded hinputs hbefore htable hbuilt hwidth hrows hafter =>
    cases h' with
    | nothing => exact absurd (hempty.mpr rfl) hinputs
    | @table _ before' after' table' folded' _ hbefore' htable' hbuilt' hwidth' hrows' hafter' =>
      obtain rfl := Option.some.inj (hbefore.symm.trans hbefore')
      obtain rfl := Option.some.inj (htable.symm.trans htable')
      have hfolded : folded = folded' := by
        refine hbuilt.packed.ext hbuilt'.packed (hwidth.trans hwidth'.symm) fun row hrow => ?_
        rw [hrows row (hwidth ▸ hrow), hrows' row (hwidth ▸ hrow), tiedBits_congr hsame]
      obtain rfl := hfolded
      obtain rfl := Except.ok.inj (hafter.symm.trans hafter')
      rw [cutInputs_congr hsame]

end AfterFolds

/-- The port is an input on a constant net that selects a bit of the row number. -/
structure Tying (nl : Netlist) (id : CellId) (shape : LutShape) (port : Ident) : Prop where
  listed : port ∈ shape.inputs
  input : nl.dir ⟨id, port⟩ = some .input
  constant : ∃ k v, nl.netOf id port = some k ∧ nl.constValue k = some v

/-- One more input of a table that can be read is folded. -/
theorem AfterFolds.step (h : AfterFolds nl id c shape inputs x) (hw : nl.WellFormed)
    (hbuilt : nl.BuiltValues) (hc : nl.cell? id = some c)
    (hshape : options.lutShapes.find? c.cellType = some shape) (hnodup : shape.inputs.Nodup)
    (hfew : shape.inputs.length < 32) (hreadable : Readable c shape)
    (hport : Tying nl id shape port) (hnew : port ∉ inputs) :
    ∃ x', foldInput options id port names x = .ok true x' ∧
      AfterFolds nl id c shape (inputs ++ [port]) x' := by
  obtain ⟨before, table, hbefore, htable⟩ := hreadable
  obtain ⟨k, v, hk, hv⟩ := hport.constant
  obtain ⟨position, hposition⟩ : ∃ position, shape.inputs.idxOf? port = some position :=
    Option.isSome_iff_exists.mp (List.isSome_idxOf?.mpr hport.listed)
  obtain ⟨hlt, -, -⟩ := List.idxOf?_eq_some_iff.mp hposition
  have hfound := h.found hc ((hbuilt id c hc).1 _ _ hbefore) hbefore htable
  obtain ⟨d, now, current, hd, htype, hnow, hnowBuilt, hcurrent, hrows, hagain⟩ := hfound.table
  obtain ⟨folded, param, hfolded, hparam⟩ :=
    exists_folded v.toBool hnowBuilt (Nat.one_shiftLeft _ ▸ hcurrent) hlt
  obtain ⟨hwidth, hforced⟩ := foldTable_spec hfolded
  rw [width_toBits? hcurrent] at hwidth hforced
  have hkx : x.netOf id port = some k := by rw [hfound.netOf, if_neg hnew, hk]
  have hlive : (x.net? k).isSome := by
    rw [hfound.net]
    exact hw.wired.wire_live ⟨id, port⟩ k hk
  have hvx : x.constValue k = some v := (hfound.constValue k).trans hv
  have hnewRows : ∀ row, row < 2 ^ shape.inputs.length →
      folded.get row = table.get (forcedRow (tiedBits nl id shape (inputs ++ [port])) row) := by
    intro row hrow
    rw [hforced row hrow, hrows _ (forceBit_lt hlt hrow),
      forcedRow_tiedBits hnodup hposition hnew hk hv]
  have hafter : tableParam before folded = .ok param := by
    rw [← hagain folded (selects_of_rows (width_toBits? htable) hwidth hnewRows)]
    exact hparam
  refine ⟨_, foldInput_eq hkx hlive hvx hd (htype ▸ hshape) hfew hposition hnow hcurrent hfolded
    hparam, ?_⟩
  rw [hfound.write, detach_mapCell fun _ => rfl, detach_cutInputs hw hk hport.input]
  exact .table (by simp) hbefore htable (built_foldTable hfolded) hwidth hnewRows hafter

/-! ## All inputs -/

theorem constant_of_mem (hw : nl.WellFormed) (hc : nl.cell? id = some c)
    (hport : port ∈ constantInputs nl c) :
    ∃ k v, nl.netOf id port = some k ∧ nl.constValue k = some v := by
  obtain ⟨p, hp, rfl⟩ := List.mem_map.mp hport
  obtain ⟨hp, hselected⟩ := List.mem_filter.mp hp
  simp only [Bool.and_eq_true, decide_eq_true_eq] at hselected
  obtain ⟨v, hv⟩ := Option.isSome_iff_exists.mp hselected.2
  obtain ⟨k, hk, hv⟩ := Option.bind_eq_some_iff.mp hv
  exact ⟨k, v, (hw.port_of_mem hc hp).1.trans hk, hv⟩

theorem tying_of_mem (hw : nl.WellFormed) (hc : nl.cell? id = some c)
    (hshape : options.lutShapes.find? c.cellType = some shape)
    (hport : port ∈ foldedInputs options nl c) : Tying nl id shape port := by
  obtain ⟨hconstant, hlisted⟩ := List.mem_filter.mp hport
  refine ⟨?_, dir_of_mem_constantInputs hw hc hconstant, constant_of_mem hw hc hconstant⟩
  simpa [hshape] using hlisted

theorem nodup_constantInputs (hw : nl.WellFormed) (hc : nl.cell? id = some c) :
    (constantInputs nl c).Nodup :=
  (hw.port_names id c hc).sublist (List.filter_sublist.map _)

/-- The step of the loop over the constant inputs. -/
def foldNext (options : NormalizeOptions) (id : CellId) (folded : Nat) (port : Ident) : Edit Nat := do
  return folded + (if ← foldInput options id port then 1 else 0)

theorem foldNext_of_ok {m : Nat} {folded : Bool}
    (h : foldInput options id port names x = .ok folded x') :
    foldNext options id m port names x = .ok (m + if folded then 1 else 0) x' := by
  unfold foldNext
  rw [Edit.run_bind_of_ok h]
  rfl

theorem foldNext_of_error {m : Nat} {e : Failure}
    (h : foldInput options id port names x = .error e x') :
    foldNext options id m port names x = .error e x' :=
  Edit.run_bind_of_error h

theorem foldInputs_eq (hc : nl.cell? id = some c) : foldInputs options id names nl =
    (constantInputs nl c).foldlM (foldNext options id) 0 names nl := by
  unfold foldInputs
  rw [Edit.run_bind_of_ok (Edit.cell_of_some names hc),
    Edit.run_bind_of_ok (Edit.get_ok.mpr ⟨rfl, rfl⟩)]
  rfl

/-- A table that can be read is folded at all the inputs. -/
theorem foldInputs_readable (names : Names) (hw : nl.WellFormed) (hbuilt : nl.BuiltValues)
    (hc : nl.cell? id = some c) (hshape : options.lutShapes.find? c.cellType = some shape)
    (hnodup : shape.inputs.Nodup) (hfew : shape.inputs.length < 32) (hreadable : Readable c shape) :
    ∃ nl', foldInputs options id names nl = .ok (foldedInputs options nl c).length nl' ∧
      AfterFolds nl id c shape (foldedInputs options nl c) nl' := by
  have hloop : ∀ (rest done : List Ident) (m : Nat) (x : Netlist),
      (∀ port ∈ rest, port ∈ constantInputs nl c) → rest.Nodup → (∀ port ∈ rest, port ∉ done) →
      AfterFolds nl id c shape done x → ∃ x',
        rest.foldlM (foldNext options id) m names x =
          .ok (m + (rest.filter fun port => port ∈ shape.inputs).length) x' ∧
        AfterFolds nl id c shape (done ++ rest.filter fun port => port ∈ shape.inputs) x' := by
    intro rest
    induction rest with
    | nil => exact fun done m x _ _ _ h => ⟨x, rfl, by simpa using h⟩
    | cons port rest ih =>
      intro done m x hconstant hrestNodup hnew h
      obtain ⟨hport, hconstant⟩ := List.forall_mem_cons.mp hconstant
      obtain ⟨hfirst, hrestNodup⟩ := List.nodup_cons.mp hrestNodup
      obtain ⟨hportNew, hnew⟩ := List.forall_mem_cons.mp hnew
      rw [List.foldlM_cons]
      by_cases hlisted : port ∈ shape.inputs
      · have htying := tying_of_mem hw hc hshape
          (List.mem_filter.mpr ⟨hport, by simpa [hshape] using hlisted⟩)
        obtain ⟨x₁, hfold, h₁⟩ :=
          h.step hw hbuilt hc hshape hnodup hfew hreadable htying hportNew
        have hrest : ∀ other ∈ rest, other ∉ done ++ [port] := by
          intro other ho
          have hne : other ≠ port := fun e => hfirst (e ▸ ho)
          simp [hnew other ho, hne]
        obtain ⟨x', hrun, h'⟩ := ih (done ++ [port]) (m + 1) x₁ hconstant hrestNodup hrest h₁
        refine ⟨x', ?_, ?_⟩
        · rw [Edit.run_bind_of_ok (foldNext_of_ok hfold)]
          refine hrun.trans ?_
          rw [List.filter_cons_of_pos (by simpa using hlisted), List.length_cons]
          congr 1
          omega
        · rw [List.filter_cons_of_pos (by simpa using hlisted)]
          simpa using h'
      · obtain ⟨x', hrun, h'⟩ := ih done m x hconstant hrestNodup hnew h
        refine ⟨x', ?_, ?_⟩
        · obtain ⟨d, hd, htype⟩ : ∃ d, x.cell? id = some d ∧ d.cellType = c.cellType := by
            obtain ⟨before, table, hbefore, htable⟩ := hreadable
            obtain ⟨d, -, -, hd, htype, -⟩ :=
              (h.found hc ((hbuilt id c hc).1 _ _ hbefore) hbefore htable).table
            exact ⟨d, hd, htype⟩
          have hskip := foldInput_unlisted names hd (htype ▸ hshape) hlisted
          rw [Edit.run_bind_of_ok (foldNext_of_ok hskip),
            List.filter_cons_of_neg (by simpa using hlisted)]
          exact hrun
        · rw [List.filter_cons_of_neg (by simpa using hlisted)]
          exact h'
  have hfolded : foldedInputs options nl c =
      (constantInputs nl c).filter fun port => port ∈ shape.inputs := by
    unfold foldedInputs
    rw [hshape]
    rfl
  rw [foldInputs_eq hc, hfolded]
  obtain ⟨nl', hrun, h⟩ := hloop (constantInputs nl c) [] 0 nl (fun _ h => h)
    (nodup_constantInputs hw hc) (fun _ _ => List.not_mem_nil) .nothing
  exact ⟨nl', by simpa using hrun, by simpa using h⟩

/-- Otherwise the first input that is to be folded is refused. -/
theorem foldInputs_unreadable (names : Names) (hw : nl.WellFormed) (hc : nl.cell? id = some c)
    (hfew : options.FewInputs)
    (hunreadable : ∀ shape, options.lutShapes.find? c.cellType = some shape → ¬Readable c shape) :
    (∃ e, foldInputs options id names nl = .error e nl) ∨
      foldedInputs options nl c = [] ∧ foldInputs options id names nl = .ok 0 nl := by
  have hloop : ∀ rest : List Ident, (∀ port ∈ rest, port ∈ constantInputs nl c) →
      (∃ e, rest.foldlM (foldNext options id) 0 names nl = .error e nl) ∨
        (∀ port ∈ rest, port ∉ foldedInputs options nl c) ∧
          rest.foldlM (foldNext options id) 0 names nl = .ok 0 nl := by
    intro rest hconstant
    induction rest with
    | nil => exact .inr ⟨nofun, rfl⟩
    | cons port rest ih =>
      obtain ⟨hport, hconstant⟩ := List.forall_mem_cons.mp hconstant
      rw [List.foldlM_cons]
      by_cases hskip : ∃ shape, options.lutShapes.find? c.cellType = some shape ∧
          port ∉ shape.inputs
      · obtain ⟨shape, hshape, hlisted⟩ := hskip
        rw [Edit.run_bind_of_ok (foldNext_of_ok (foldInput_unlisted names hc hshape hlisted))]
        refine (ih hconstant).imp_right fun ⟨hrest, hrun⟩ =>
          ⟨List.forall_mem_cons.mpr ⟨fun hmem => ?_, hrest⟩, hrun⟩
        exact hlisted (tying_of_mem hw hc hshape hmem).listed
      · obtain ⟨k, v, hk, hv⟩ := constant_of_mem hw hc hport
        obtain ⟨e, hrefused⟩ := foldInput_refused names hc hk hv
          fun shape hshape => ⟨hfew _ _ hshape, Decidable.not_not.mp fun hlisted =>
            hskip ⟨shape, hshape, hlisted⟩, hunreadable shape hshape⟩
        exact .inl ⟨e, Edit.run_bind_of_error (foldNext_of_error hrefused)⟩
  rw [foldInputs_eq hc]
  refine (hloop (constantInputs nl c) fun _ h => h).imp_right fun ⟨hnone, hrun⟩ => ⟨?_, hrun⟩
  exact List.eq_nil_iff_forall_not_mem.mpr fun port hport =>
    hnone port (List.mem_filter.mp hport).1 hport

theorem foldEach (names : Names) (hw : nl.WellFormed) (hbuilt : nl.BuiltValues)
    (hc : nl.cell? id = some c) (hshape : options.lutShapes.find? c.cellType = some shape)
    (hnodup : shape.inputs.Nodup) (hfew : shape.inputs.length < 32) (hreadable : Readable c shape)
    {order done : List Ident} (hdistinct : (done ++ order).Nodup)
    (horder : ∀ port ∈ order, Tying nl id shape port) (h : AfterFolds nl id c shape done x) :
    ∃ x', order.mapM (foldInput options id) names x = .ok (order.map fun _ => true) x' ∧
      AfterFolds nl id c shape (done ++ order) x' := by
  induction order generalizing done x with
  | nil => exact ⟨x, by rw [List.mapM_nil]; rfl, by simpa using h⟩
  | cons port order ih =>
    obtain ⟨hport, horder⟩ := List.forall_mem_cons.mp horder
    have hnew : port ∉ done := fun hmem =>
      (List.disjoint_of_nodup_append hdistinct) hmem List.mem_cons_self
    obtain ⟨x₁, hfold, h₁⟩ := h.step hw hbuilt hc hshape hnodup hfew hreadable hport hnew
    obtain ⟨x', hrun, h'⟩ := ih (by simpa using hdistinct) horder h₁
    refine ⟨x', ?_, by simpa using h'⟩
    rw [List.mapM_cons, Edit.run_bind_of_ok hfold, Edit.run_bind_of_ok hrun]
    rfl

/-! ## The folded table -/

/-- How the table `after` comes from the table `before` of the cell when the inputs are folded. -/
structure TableFolded (nl : Netlist) (id : CellId) (shape : LutShape) (inputs : List Ident)
    (before after : ParamValue) : Prop where
  /-- Each row has what the row with the folded bits forced had, known or not. -/
  rows : ∃ table folded, before.toBits? (2 ^ shape.inputs.length) = some table ∧
    after.toBits? (2 ^ shape.inputs.length) = some folded ∧
    ∀ row, row < 2 ^ shape.inputs.length → ∃ value, folded.get row = .ok value ∧
      table.get (forcedRow (tiedBits nl id shape inputs) row) = .ok value
  /-- The rows do not depend on the folded bits. -/
  independent : ∀ folded, after.toBits? (2 ^ shape.inputs.length) = some folded →
    ∀ row row', row < 2 ^ shape.inputs.length → row' < 2 ^ shape.inputs.length →
      (∀ i port, shape.inputs[i]? = some port → port ∉ inputs → row.testBit i = row'.testBit i) →
        folded.get row = folded.get row'
  int_stays : (∃ n, before = .int n) → 2 ^ shape.inputs.length ≤ 64 → ∃ n, after = .int n
  int_widens : (∃ n, before = .int n) → 64 < 2 ^ shape.inputs.length → ∃ v, after = .bits v
  bits_stays : (∃ v, before = .bits v) → ∃ v, after = .bits v

theorem AfterFolds.tableFolded {before : ParamValue} (h : AfterFolds nl id c shape inputs x)
    (hc : nl.cell? id = some c) (hbuilt : nl.BuiltValues) (hinputs : inputs ≠ [])
    (htying : ∀ port ∈ inputs, Tying nl id shape port)
    (hbefore : c.params.find? shape.param = some before) : ∃ after,
      TableFolded nl id shape inputs before after ∧
        x = (nl.cutInputs id inputs).mapCell id (Cell.withParam shape.param after) := by
  cases h with
  | nothing => exact absurd rfl hinputs
  | @table _ before' after table folded _ hbefore' htable hfolded hwidth hrows hafter =>
    obtain rfl := Option.some.inj (hbefore.symm.trans hbefore')
    have hselects := selects_of_rows (width_toBits? htable) hwidth hrows
    have hread : after.toBits? (2 ^ shape.inputs.length) = some folded :=
      hwidth ▸ toBits?_tableParam hfolded hafter
    obtain ⟨hshort, hwide, hvector⟩ := kind_tableParam htable hselects hafter
    refine ⟨after, ?_, rfl⟩
    refine
      { rows := ⟨table, folded, htable, hread, fun row hrow => ?_⟩
        independent := fun folded' hfolded' row row' hrow hrow' hfree => ?_
        int_stays := hshort
        int_widens := fun hint hrows => ⟨folded, hwide hint hrows⟩
        bits_stays := fun hbits => ⟨folded, hvector hbits⟩ }
    · have hforced : forcedRow (tiedBits nl id shape inputs) row < table.width := by
        rw [width_toBits? htable, ← length_tiedBits nl id shape inputs]
        exact forcedRow_lt
      obtain ⟨value, hvalue⟩ :=
        (((hbuilt id c hc).1 _ _ hbefore).packed_toBits? htable).stored.exists_get hforced
      exact ⟨value, (hrows row hrow).trans hvalue, hvalue⟩
    · obtain rfl := Option.some.inj (hread.symm.trans hfolded')
      rw [hrows row hrow, hrows row' hrow']
      refine congrArg table.get (forcedRow_congr fun i hi => ?_)
      rw [tiedBits, List.getElem?_map] at hi
      obtain ⟨port, hport, hnone⟩ := Option.map_eq_some_iff.mp hi
      refine hfree i port hport fun hmem => ?_
      obtain ⟨k, v, hk, hv⟩ := (htying port hmem).constant
      rw [if_pos hmem, constantAt, hk, Option.bind_some, hv] at hnone
      cases hnone

/-- Folding the constant inputs of a cell is correct, does not depend on the order, and changes
nothing if it fails. -/
theorem foldInputs_correct {config : Config} {names₀ : Names} (hvalid : config.validate = .ok ())
    (hoptions : ((NormalizeOptions.ofConfig config).run names₀).1 = options) (hw : nl.WellFormed)
    (hbuilt : nl.BuiltValues) (hc : nl.cell? id = some c) :
    (∀ n nl', foldInputs options id names nl = .ok n nl' →
      n = (foldedInputs options nl c).length ∧
        (foldedInputs options nl c = [] → nl' = nl) ∧
        (foldedInputs options nl c ≠ [] → ∃ shape before after,
          options.lutShapes.find? c.cellType = some shape ∧
            c.params.find? shape.param = some before ∧
            TableFolded nl id shape (foldedInputs options nl c) before after ∧
            nl' = (nl.cutInputs id (foldedInputs options nl c)).mapCell id
              (Cell.withParam shape.param after)) ∧
        ∀ order : List Ident, order.Perm (foldedInputs options nl c) →
          order.mapM (foldInput options id) names nl = .ok (order.map fun _ => true) nl') ∧
      ∀ e nl', foldInputs options id names nl = .error e nl' → nl' = nl := by
  have hdistinct : options.DistinctInputs := hoptions ▸ distinctInputs_of_validate names₀ hvalid
  have hfew : options.FewInputs := hoptions ▸ fewInputs_of_validate names₀ hvalid
  by_cases hreadable : ∃ shape, options.lutShapes.find? c.cellType = some shape ∧ Readable c shape
  · obtain ⟨shape, hshape, hreadable⟩ := hreadable
    have hnodup := hdistinct _ shape hshape
    have hfewShape := hfew _ shape hshape
    obtain ⟨nl₁, hrun, hfolds⟩ := foldInputs_readable names hw hbuilt hc hshape hnodup
      hfewShape hreadable
    rw [hrun]
    refine ⟨?_, nofun⟩
    rintro n nl' ⟨⟩
    refine ⟨rfl, fun hnone => ?_, fun hsome => ?_, fun order horder => ?_⟩
    · rw [hnone] at hfolds
      exact hfolds.unique .nothing fun _ => Iff.rfl
    · obtain ⟨before, table, hbefore, -⟩ := hreadable
      obtain ⟨after, hfolded, heq⟩ := hfolds.tableFolded hc hbuilt hsome
        (fun _ hport => tying_of_mem hw hc hshape hport) hbefore
      exact ⟨shape, before, after, hshape, hbefore, hfolded, heq⟩
    · have horderNodup : ([] ++ order).Nodup :=
        horder.nodup_iff.mpr ((nodup_constantInputs hw hc).sublist List.filter_sublist)
      obtain ⟨nl₂, hrun₂, hfolds₂⟩ := foldEach names hw hbuilt hc hshape hnodup hfewShape
        hreadable horderNodup (fun _ hport => tying_of_mem hw hc hshape (horder.mem_iff.mp hport))
        .nothing
      rw [hrun₂, hfolds₂.unique hfolds fun _ => horder.mem_iff]
  · have hunreadable : ∀ shape, options.lutShapes.find? c.cellType = some shape →
        ¬Readable c shape := fun shape hshape h => hreadable ⟨shape, hshape, h⟩
    rcases foldInputs_unreadable names hw hc hfew hunreadable with
      ⟨e, hrun⟩ | ⟨hnone, hrun⟩
    · rw [hrun]
      refine ⟨nofun, ?_⟩
      rintro e' nl' ⟨⟩
      rfl
    · rw [hrun, hnone]
      refine ⟨?_, nofun⟩
      rintro n nl' ⟨⟩
      refine ⟨rfl, fun _ => rfl, fun hsome => absurd rfl hsome, fun order horder => ?_⟩
      rw [horder.eq_nil, List.mapM_nil]
      rfl

/-! ## A table with both inputs constant -/

namespace TiedTable

/-- A table whose first input is low and whose second is high. -/
def history : List Operation := [
  .createCell ⟨3⟩ "table", .constantNet .zero, .constantNet .one,
  .addPort ⟨0⟩ ⟨1⟩ .input, .addPort ⟨0⟩ ⟨2⟩ .input, .addPort ⟨0⟩ ⟨6⟩ .output,
  .write ⟨0⟩ fun c => { c with params := c.params.insert ⟨0⟩ (.int 6) },
  .connect ⟨0⟩ ⟨1⟩ ⟨0⟩, .connect ⟨0⟩ ⟨2⟩ ⟨1⟩]

def netlist : Netlist := ((Session.start TiedInput.names).after history).netlist

theorem built_history : ∀ op ∈ history, op.Built := by
  have hwrite : (Operation.write ⟨0⟩ fun c =>
      { c with params := c.params.insert ⟨0⟩ (.int 6) }).Built :=
    fun c hc => ⟨hc.1.insert trivial, hc.2⟩
  rw [history]
  repeat refine List.forall_mem_cons.mpr ⟨by first | exact True.intro | assumption, ?_⟩
  exact nofun

theorem wellFormed_netlist : netlist.WellFormed := wellFormed_of_operations _ _

theorem builtValues_netlist : netlist.BuiltValues := builtValues_of_operations _ built_history

end TiedTable

/-- Both inputs are folded, in either order, and the table is high whatever they are. -/
theorem tiedTable_folds : ∃ c nl', TiedTable.netlist.cell? ⟨0⟩ = some c ∧
    foldInputs TiedInput.settings ⟨0⟩ TiedInput.names TiedTable.netlist = .ok 2 nl' ∧
    (nl'.cell? ⟨0⟩).bind (fun c => c.params.find? ⟨0⟩) = some (.int 15) ∧
    foldedInputs TiedInput.settings TiedTable.netlist c = [⟨1⟩, ⟨2⟩] ∧
    ∀ order : List Ident, order.Perm [⟨1⟩, ⟨2⟩] →
      order.mapM (foldInput TiedInput.settings ⟨0⟩) TiedInput.names TiedTable.netlist =
        .ok (order.map fun _ => true) nl' := by
  have hcell : (TiedTable.netlist.cell? ⟨0⟩).isSome := by decide +kernel
  obtain ⟨c, hc⟩ := Option.isSome_iff_exists.mp hcell
  obtain ⟨nl', hrun⟩ : ∃ nl', foldInputs TiedInput.settings ⟨0⟩ TiedInput.names TiedTable.netlist =
      .ok 2 nl' := exists_ok_of_returned (by decide +kernel)
  have hinputs : (TiedTable.netlist.cell? ⟨0⟩).map
      (foldedInputs TiedInput.settings TiedTable.netlist) = some [⟨1⟩, ⟨2⟩] := by decide +kernel
  rw [hc] at hinputs
  have hfolded : ((finalState (foldInputs TiedInput.settings ⟨0⟩ TiedInput.names
      TiedTable.netlist)).cell? ⟨0⟩).bind (fun c => c.params.find? ⟨0⟩) = some (.int 15) := by
    decide +kernel
  rw [hrun] at hfolded
  obtain ⟨-, -, -, horder⟩ := (foldInputs_correct
    TiedInput.validate_config TiedInput.ofConfig_config TiedTable.wellFormed_netlist
    TiedTable.builtValues_netlist hc).1 2 nl' hrun
  rw [Option.some.inj hinputs] at horder
  exact ⟨c, nl', hc, hrun, hfolded, Option.some.inj hinputs, horder⟩

end Normalize
end FpgaPacking
