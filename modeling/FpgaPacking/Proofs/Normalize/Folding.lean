import FpgaPacking.Proofs.Normalize.Options
import FpgaPacking.Proofs.Normalize.Weight

/-!
# Folding constant inputs

An input on a constant net is cut off, and the table is changed so that the row
selected without the input has the value of the row selected with it.  That needs
the inputs of a table to be distinct: a port that selects two bits of the row
number would be folded into one of them and cut off from both.
-/

namespace FpgaPacking

namespace Normalize

open Netlist

variable {options : NormalizeOptions} {names : Names} {nl nl' : Netlist} {r : PortRef}
  {k : NetId} {v : ConstValue} {id : CellId} {port : Ident}

/-- The row that is selected once an input has been cut off, forced to the value
of the input, is the row that was selected with it. -/
theorem selectedRow_cut {high : NetId → Bool} {shape : LutShape} {position : Nat}
    (hnodup : shape.inputs.Nodup) (hposition : shape.inputs.idxOf? port = some position)
    (hwire : nl'.wire = Function.update nl.wire ⟨id, port⟩ none)
    (hk : nl.wire ⟨id, port⟩ = some k) :
    forceBit (selectedRow high nl' id shape) (1 <<< position) (high k) =
      selectedRow high nl id shape := by
  obtain ⟨hlt, hport, -⟩ := List.idxOf?_eq_some_iff.mp hposition
  refine forceBit_binaryNumber ?_ fun j hj => ?_
  · rw [List.getElem?_map, List.getElem?_eq_getElem hlt, hport]
    show some ((nl.wire ⟨id, port⟩).any high) = _
    rw [hk]
    rfl
  · rw [List.getElem?_map, List.getElem?_map]
    by_cases hlen : j < shape.inputs.length
    · have hne : shape.inputs[j] ≠ port := by
        rw [← hport]
        exact fun e => hj ((hnodup.getElem_inj_iff).mp e)
      rw [List.getElem?_eq_getElem hlen]
      show some ((nl'.wire ⟨id, _⟩).any high) = some ((nl.wire ⟨id, _⟩).any high)
      rw [hwire, Function.update_of_ne fun e => hne (congrArg PortRef.port e)]
    · rw [List.getElem?_eq_none (Nat.not_lt.mp hlen)]
      rfl

/-- The table of cell `c` is replaced by the one that is folded at the input, whose
value is `v`, and then the input is cut off. -/
structure Replacement (options : NormalizeOptions) (names : Names) (id : CellId) (port : Ident)
    (v : ConstValue) (c : Cell) (shape : LutShape) (nl nl' : Netlist) : Prop where
  cell : nl.cell? id = some c
  shape_of : options.lutShapes.find? c.cellType = some shape
  computed : ∃ position rows before param table folded,
    shape.inputs.idxOf? port = some position ∧
    c.params.find? shape.param = some before ∧
    shape.rows = .ok rows ∧
    before.toBits? rows = some table ∧
    foldTable table (1 <<< position) v.toBool = .ok folded ∧
    tableParam before folded = .ok param ∧
    ∃ u nl₁, Edit.updateCell id (fun c => { c with params := c.params.insert shape.param param })
      names nl = .ok u nl₁ ∧ ∃ onNet, Edit.disconnect id port names nl₁ = .ok onNet nl'

theorem Replacement.cuts {c : Cell} {shape : LutShape}
    (h : Replacement options names id port v c shape nl nl') (hw : nl.WellFormed)
    (hnodup : shape.inputs.Nodup) (hd : nl.dir ⟨id, port⟩ = some .input)
    (hk : nl.wire ⟨id, port⟩ = some k) (hv : nl.constValue k = some v) :
    Cuts options [] nl nl' ∧ nl'.queue = nl.queue ∧ nl'.wire ⟨id, port⟩ = none := by
  obtain ⟨position, rows, before, param, table, folded, hposition, hbefore, hrows, htable, hfolded,
    hparam, u, nl₁, hupdate, onNet, hcut⟩ := h.computed
  have hbare : nl.bare id = some c.unwired := bare_of_cell? h.cell
  have hport : port ∈ shape.inputs := by
    rw [← List.isSome_idxOf?, hposition]
    rfl
  obtain ⟨hw₁, hwire₁, htag₁, d, hd', hbare₁⟩ := Edit.updateCell_ok hw hupdate fun _ => rfl
  obtain rfl := Option.some.inj (h.cell.symm.trans hd')
  obtain ⟨hw', hwire', hbare', htag', -⟩ := Edit.disconnect_ok hw₁ hcut
  obtain ⟨hqueue₁, hnext₁⟩ := Edit.updateCell_frame hupdate
  obtain ⟨hqueue', hnext'⟩ := Edit.disconnect_frame hcut
  rw [hwire₁] at hwire'
  have href : Refines options [] nl nl' := by
    refine .of_fold hw hw' hwire' (hbare'.trans hbare₁) (htag'.trans htag₁) (hnext'.trans hnext₁)
      hbare h.shape_of hport hd hk hv ?_ ?_
    · intro name hname
      show (c.params.insert shape.param param).find? name = c.params.find? name
      rw [Table.find?_insert]
      simp [hname]
    · intro high hhigh
      have hrow : selectedRow high nl' id shape < rows := selectedRow_lt high nl' id hrows
      show readTable shape (c.params.insert shape.param param) _ = readTable shape c.params _
      rw [readTable_fold hrows hbefore htable hfolded hparam hrow, ← hhigh,
        selectedRow_cut hnodup hposition hwire' hk]
  refine ⟨.of_disconnect href hwire', hqueue'.trans hqueue₁, ?_⟩
  rw [hwire', Function.update_self]

/-- An input is folded if it is on a constant net and selects a bit of the row
number.  Otherwise nothing happens. -/
theorem foldInput_cases {folded : Bool} (h : foldInput options id port names nl = .ok folded nl') :
    (folded = false ∧ nl' = nl ∧ ∀ k v, nl.wire ⟨id, port⟩ = some k → nl.constValue k = some v →
      ∃ c shape, nl.cell? id = some c ∧ options.lutShapes.find? c.cellType = some shape ∧
        port ∉ shape.inputs) ∨
    (folded = true ∧ ∃ k v c shape, nl.wire ⟨id, port⟩ = some k ∧ nl.constValue k = some v ∧
      Replacement options names id port v c shape nl nl') := by
  unfold foldInput at h
  obtain ⟨_, _, hget, hfold⟩ := Edit.bind_ok.mp h
  obtain ⟨rfl, rfl⟩ := Edit.get_ok.mp hget
  cases hconst : (nl.netOf id port).bind nl.constValue with
  | none =>
    rw [hconst] at hfold
    obtain ⟨rfl, rfl⟩ := Edit.pure_ok.mp hfold
    refine .inl ⟨rfl, rfl, fun k v hk hv => ?_⟩
    have hsome : (nl.netOf id port).bind nl.constValue = some v :=
      Option.bind_eq_some_iff.mpr ⟨k, hk, hv⟩
    rw [hconst] at hsome
    cases hsome
  | some v =>
    rw [hconst] at hfold
    obtain ⟨k, hnet, hv⟩ := Option.bind_eq_some_iff.mp hconst
    obtain ⟨c, nl₁, hcell, hbody⟩ := Edit.bind_ok.mp hfold
    obtain ⟨hc, rfl⟩ := Edit.cell_ok hcell
    cases hshape : options.lutShapes.find? c.cellType with
    | none =>
      rw [hshape] at hbody
      obtain ⟨_, _, -, hthrow⟩ := Edit.bind_ok.mp hbody
      exact absurd (Edit.throw_ok.mp hthrow) nofun
    | some shape =>
      rw [hshape] at hbody
      cases hposition : shape.inputs.idxOf? port with
      | none =>
        simp only [hposition] at hbody
        obtain ⟨rfl, rfl⟩ := Edit.pure_ok.mp hbody
        exact .inl ⟨rfl, rfl, fun _ _ _ _ =>
          ⟨c, shape, hc, hshape, List.idxOf?_eq_none_iff.mp hposition⟩⟩
      | some position =>
        simp only [hposition] at hbody
        obtain ⟨_, nl₂, hresolve, hread⟩ := Edit.bind_ok.mp hbody
        obtain rfl : nl₁ = nl₂ := by
          cases hresolve
          rfl
        cases hbefore : c.params.find? shape.param with
        | none =>
          simp only [hbefore] at hread
          exact absurd (Edit.throw_ok.mp hread) nofun
        | some before =>
          simp only [hbefore] at hread
          obtain ⟨rows, nl₂, hrowsRun, hwrite⟩ := Edit.bind_ok.mp hread
          obtain ⟨hrows, rfl⟩ := Edit.lookup_ok.mp hrowsRun
          cases htable : before.toBits? rows with
          | none =>
            simp only [htable] at hwrite
            exact absurd (Edit.throw_ok.mp hwrite) nofun
          | some table =>
            simp only [htable] at hwrite
            obtain ⟨mask, nl₂, hmaskRun, hwrite₁⟩ := Edit.bind_ok.mp hwrite
            obtain ⟨newTable, nl₃, hfoldRun, hwrite₂⟩ := Edit.bind_ok.mp hwrite₁
            obtain ⟨param, nl₄, hparamRun, hwrite₃⟩ := Edit.bind_ok.mp hwrite₂
            obtain ⟨u, nl₅, hupdate, hwrite₄⟩ := Edit.bind_ok.mp hwrite₃
            obtain ⟨onNet, nl₆, hcut, hend⟩ := Edit.bind_ok.mp hwrite₄
            obtain ⟨hmask, rfl⟩ := Edit.lookup_ok.mp hmaskRun
            obtain ⟨hfolded, rfl⟩ := Edit.lookup_ok.mp hfoldRun
            obtain ⟨hparam, rfl⟩ := Edit.lookup_ok.mp hparamRun
            obtain ⟨rfl, rfl⟩ := Edit.pure_ok.mp hend
            rw [bitMask_ok hmask] at hfolded
            exact .inr ⟨rfl, k, v, c, shape, hnet, hv, hc, hshape, position, rows, before, param,
              table, newTable, hposition, hbefore, hrows, htable, hfolded, hparam, u, nl₅, hupdate,
              onNet, hcut⟩

/-- A folded input is off its net afterwards, and one that is not folded was clear. -/
theorem foldInput_ok {folded : Bool} (hdistinct : options.DistinctInputs) (hw : nl.WellFormed)
    (hd : nl.dir ⟨id, port⟩ = some .input)
    (h : foldInput options id port names nl = .ok folded nl') :
    Cuts options [] nl nl' ∧ nl'.queue = nl.queue ∧ Clear options nl' ⟨id, port⟩ ∧
      Progress (if folded then 1 else 0) nl nl' := by
  rcases foldInput_cases h with ⟨rfl, rfl, hkept⟩ | ⟨rfl, k, v, c, shape, hk, hv, hreplaced⟩
  · refine ⟨.refl hw, rfl, fun k hk hfoldable => ?_, .refl _⟩
    obtain ⟨-, d, shape', hd', hshape', hport⟩ := hfoldable
    cases hv : nl'.constValue k with
    | none => rfl
    | some v =>
      obtain ⟨c, shape, hc, hshape, hnot⟩ := hkept k v hk hv
      obtain rfl := Option.some.inj ((bare_of_cell? hc).symm.trans hd')
      obtain rfl := Option.some.inj (hshape.symm.trans hshape')
      exact absurd hport hnot
  · have hnodup := hdistinct _ shape hreplaced.shape_of
    obtain ⟨hcuts, hqueue, hnone⟩ := hreplaced.cuts hw hnodup hd hk hv
    refine ⟨hcuts, hqueue, fun k' hk' => ?_, ?_⟩
    · rw [hnone] at hk'
      cases hk'
    · have hports : ([(port, k)].map Prod.fst).Nodup := List.nodup_singleton port
      refine .of_cut id hcuts.toRefines hw hports ?_ ?_ nofun
      · intro p hp
        rw [List.mem_singleton.mp hp]
        exact hk
      · intro p hp
        rw [List.mem_singleton.mp hp]
        exact hnone

/-- The constant inputs of a cell are listed in full. -/
theorem clear_of_not_mem_constantInputs {c : Cell} (hc : nl.cell? id = some c)
    (hport : port ∉ constantInputs nl c) : Clear options nl ⟨id, port⟩ := by
  intro k hk hfoldable
  obtain ⟨p, hp, hname, hpk, hdir⟩ := exists_port_of_wire hc hk
  have hd : p.direction = .input := Option.some.inj (hdir.symm.trans hfoldable.1)
  cases hv : nl.constValue k with
  | none => rfl
  | some v =>
    refine absurd (List.mem_map.mpr ⟨p, List.mem_filter.mpr ⟨hp, ?_⟩, hname⟩) hport
    simp [hd, hpk, hv]

theorem dir_of_mem_constantInputs (hw : nl.WellFormed) {c : Cell} (hc : nl.cell? id = some c)
    (hport : port ∈ constantInputs nl c) : nl.dir ⟨id, port⟩ = some .input := by
  obtain ⟨p, hp, rfl⟩ := List.mem_map.mp hport
  obtain ⟨hp, hselected⟩ := List.mem_filter.mp hp
  have hd : p.direction = .input := by
    simp only [Bool.and_eq_true, decide_eq_true_eq] at hselected
    exact hselected.1
  rw [(hw.port_of_mem hc hp).2, hd]

/-- While the constant inputs of a cell are folded: those that are left are inputs,
and the other ports are off the constant nets. -/
structure InputsFolded (options : NormalizeOptions) (nl : Netlist) (id : CellId)
    (rest : List Ident) (folded : Nat) (x : Netlist) : Prop where
  cuts : Cuts options [] nl x
  queue : x.queue = nl.queue
  progress : Progress folded nl x
  inputs : ∀ port ∈ rest, nl.dir ⟨id, port⟩ = some .input
  clear : ∀ port, port ∉ rest → Clear options x ⟨id, port⟩

theorem InputsFolded.step {rest : List Ident} {x x' : Netlist} {count : Nat} {folded : Bool}
    (h : InputsFolded options nl id (port :: rest) count x) (hdistinct : options.DistinctInputs)
    (hw : nl.WellFormed) (hlive : (nl.bare id).isSome)
    (hfold : foldInput options id port names x = .ok folded x') :
    InputsFolded options nl id rest (count + if folded then 1 else 0) x' := by
  have hwx := h.cuts.wellFormed
  have hd : x.dir ⟨id, port⟩ = some .input := by
    rw [h.cuts.dir (h.cuts.live id List.not_mem_nil hlive)]
    exact h.inputs port List.mem_cons_self
  obtain ⟨hstep, hqueue, hclear, hprogress⟩ := foldInput_ok hdistinct hwx hd hfold
  refine ⟨h.cuts.trans hstep hw, hqueue.trans h.queue, h.progress.trans hprogress,
    fun other ho => h.inputs other (List.mem_cons_of_mem _ ho), fun other ho => ?_⟩
  by_cases hother : other = port
  · rw [hother]
    exact hclear
  · exact (h.clear other (by simp [hother, ho])).cuts hstep hwx

/-- No input of the cell is left on a constant net. -/
theorem foldInputs_ok {folded : Nat} (hdistinct : options.DistinctInputs) (hw : nl.WellFormed)
    (h : foldInputs options id names nl = .ok folded nl') :
    Cuts options [] nl nl' ∧ nl'.queue = nl.queue ∧ (∀ port, Clear options nl' ⟨id, port⟩) ∧
      Progress folded nl nl' := by
  unfold foldInputs at h
  obtain ⟨c, nl₁, hcell, hget⟩ := Edit.bind_ok.mp h
  obtain ⟨_, nl₂, hnl, hloop⟩ := Edit.bind_ok.mp hget
  obtain ⟨hc, rfl⟩ := Edit.cell_ok hcell
  obtain ⟨rfl, rfl⟩ := Edit.get_ok.mp hnl
  have hlive : (nl₁.bare id).isSome := by
    rw [bare_isSome, hc]
    rfl
  have hstart : InputsFolded options nl₁ id (constantInputs nl₁ c) 0 nl₁ :=
    ⟨.refl hw, rfl, .refl nl₁, fun _ hport => dir_of_mem_constantInputs hw hc hport,
      fun _ hport => clear_of_not_mem_constantInputs hc hport⟩
  have hend : InputsFolded options nl₁ id [] folded nl' := by
    refine Edit.foldlM_ok (InputsFolded options nl₁ id) ?_ hstart hloop
    intro port rest _ x _ x' hfolded hround
    obtain ⟨_, x₁, hfold, hcount⟩ := Edit.bind_ok.mp hround
    obtain ⟨rfl, rfl⟩ := Edit.pure_ok.mp hcount
    exact hfolded.step hdistinct hw hlive hfold
  exact ⟨hend.cuts, hend.queue, fun port => hend.clear port List.not_mem_nil, hend.progress⟩

theorem foldCell_ok {folded folded' : Nat} (hdistinct : options.DistinctInputs)
    (hw : nl.WellFormed) (h : foldCell options folded id names nl = .ok folded' nl') :
    Cuts options [] nl nl' ∧ nl'.queue = nl.queue ∧
      (nl.isMarked id = false → ∀ port, Clear options nl' ⟨id, port⟩) ∧
      ∃ n, folded' = folded + n ∧ Progress n nl nl' := by
  unfold foldCell at h
  obtain ⟨c, nl₁, hcell, hget⟩ := Edit.bind_ok.mp h
  obtain ⟨_, nl₂, hnl, hchoice⟩ := Edit.bind_ok.mp hget
  obtain ⟨hc, rfl⟩ := Edit.cell_ok hcell
  obtain ⟨rfl, rfl⟩ := Edit.get_ok.mp hnl
  split at hchoice
  · obtain ⟨count, nl₂, hfold, hcount⟩ := Edit.bind_ok.mp hchoice
    obtain ⟨rfl, rfl⟩ := Edit.pure_ok.mp hcount
    obtain ⟨hcuts, hqueue, hclear, hprogress⟩ := foldInputs_ok hdistinct hw hfold
    exact ⟨hcuts, hqueue, fun _ => hclear, count, rfl, hprogress⟩
  · next hskip =>
    obtain ⟨rfl, rfl⟩ := Edit.pure_ok.mp hchoice
    refine ⟨.refl hw, rfl, fun hunmarked port k _ hfoldable => ?_, 0, rfl, .refl _⟩
    obtain ⟨-, d, shape, hd, hshape, -⟩ := hfoldable
    have hbare : nl₁.bare id = some c.unwired := bare_of_cell? hc
    obtain rfl := Option.some.inj (hbare.symm.trans hd)
    refine absurd ?_ hskip
    have hlisted : options.lutShapes.find? c.cellType = some shape := hshape
    simp [Table.contains, hlisted, hunmarked]

theorem counts_foldCell (hdistinct : options.DistinctInputs) : Counts (foldCell options) := by
  intro names folded id nl folded' nl' hw h
  obtain ⟨hcuts, -, -, hprogress⟩ := foldCell_ok hdistinct hw h
  exact ⟨hcuts.wellFormed, hprogress⟩

/-- While cells are folded: those that have been visited and are not to be removed
have no table input on a constant net. -/
structure CellsFolded (options : NormalizeOptions) (nl : Netlist) (rest : List CellId)
    (x : Netlist) : Prop where
  cuts : Cuts options [] nl x
  queue : x.queue = nl.queue
  clear : ∀ r, r.cell ∉ rest → nl.isMarked r.cell = false → Clear options x r

theorem CellsFolded.step {rest : List CellId} {x x' : Netlist} {folded folded' : Nat}
    (h : CellsFolded options nl (id :: rest) x) (hdistinct : options.DistinctInputs)
    (hw : nl.WellFormed) (hfold : foldCell options folded id names x = .ok folded' x') :
    CellsFolded options nl rest x' := by
  have hwx := h.cuts.wellFormed
  obtain ⟨hstep, hqueue, hclear, -⟩ := foldCell_ok hdistinct hwx hfold
  refine ⟨h.cuts.trans hstep hw, hqueue.trans h.queue, fun r hr hunmarked => ?_⟩
  by_cases hid : r.cell = id
  · subst hid
    refine hclear ?_ r.port
    unfold isMarked
    rw [h.queue]
    exact hunmarked
  · exact (h.clear r (by simp [hid, hr]) hunmarked).cuts hstep hwx

/-- After folding, the inputs of truth tables are off the constant nets, but for
cells that are to be removed. -/
theorem foldAll_ok {folded : Nat} (hdistinct : options.DistinctInputs) (hw : nl.WellFormed)
    (h : foldAll options names nl = .ok folded nl') :
    Cuts options [] nl nl' ∧ nl'.queue = nl.queue ∧
      ∀ r, nl.isMarked r.cell = false → Clear options nl' r := by
  unfold foldAll at h
  obtain ⟨_, _, hget, hloop⟩ := Edit.bind_ok.mp h
  obtain ⟨rfl, rfl⟩ := Edit.get_ok.mp hget
  have hstart : CellsFolded options nl nl.cellIds nl := by
    refine ⟨.refl hw, rfl, fun r hr _ k _ hfoldable => ?_⟩
    obtain ⟨-, c, -, hc, -⟩ := hfoldable
    exact absurd (mem_cellIds.mpr (by simp [hc])) hr
  have hend : CellsFolded options nl [] nl' :=
    Edit.foldlM_ok (fun rest _ x => CellsFolded options nl rest x)
      (fun _ _ _ _ _ _ hfolded hfold => hfolded.step hdistinct hw hfold) hstart hloop
  exact ⟨hend.cuts, hend.queue, fun r => hend.clear r List.not_mem_nil⟩

end Normalize
end FpgaPacking
