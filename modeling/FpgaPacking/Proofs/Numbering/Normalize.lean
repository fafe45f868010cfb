import FpgaPacking.Normalize.Run
import FpgaPacking.Proofs.Numbering.Edits

/-!
# Normalization does not depend on numbering

The options of normalization hold identifiers, too.  With options that differ in
numbering only, each phase of a round keeps step on netlists that differ in
numbering only, and so do the rounds.
-/

namespace FpgaPacking

variable {R S : Renaming} {i i' : Ident}

theorem mem_iff_of_forall₂ {l l' : List Ident} (hl : List.Forall₂ R.Holds l l') (hi : R i i') :
    i' ∈ l' ↔ i ∈ l := by
  induction hl with
  | nil => simp
  | cons hj _ ih => rw [List.mem_cons, List.mem_cons, R.eq_iff hi hj, ih]

theorem idxOf?_of_forall₂ {l l' : List Ident} (hl : List.Forall₂ R.Holds l l') (hi : R i i') :
    l'.idxOf? i' = l.idxOf? i := by
  induction hl with
  | nil => rfl
  | @cons j j' l l' hj _ ih =>
    have hbeq : (j' == i') = (j == i) := by
      rw [Bool.eq_iff_iff, beq_iff_eq, beq_iff_eq]
      exact R.eq_iff hj hi
    rw [List.idxOf?_cons, List.idxOf?_cons, hbeq, ih]

/-! ## Options -/

/-- Truth-table shapes that differ in numbering only. -/
structure LutShape.Alike (R : Renaming) (s s' : LutShape) : Prop where
  param : R s.param s'.param
  inputs : List.Forall₂ R.Holds s.inputs s'.inputs

theorem LutShape.Alike.rows {s s' : LutShape} (h : s.Alike R s') : s'.rows = s.rows := by
  unfold LutShape.rows
  rw [h.inputs.length_eq]

theorem LutShape.Alike.mono (hRS : R ≤ S) {s s' : LutShape} (h : s.Alike R s') : s.Alike S s' :=
  ⟨hRS _ _ h.param, h.inputs.imp hRS⟩

/-- Options that differ in numbering only. -/
structure NormalizeOptions.Alike (R : Renaming) (o o' : NormalizeOptions) : Prop where
  lutShapes : o.lutShapes.Alike R (LutShape.Alike R) o'.lutShapes
  keepTypes : List.Forall₂ R.Holds o.keepTypes o'.keepTypes
  gndDriverTypes : List.Forall₂ R.Holds o.gndDriverTypes o'.gndDriverTypes
  vccDriverTypes : List.Forall₂ R.Holds o.vccDriverTypes o'.vccDriverTypes

namespace NormalizeOptions.Alike

variable {o o' : NormalizeOptions}

theorem tieValue (h : o.Alike R o') (hi : R i i') : o'.tieValue i' = o.tieValue i := by
  unfold NormalizeOptions.tieValue
  simp only [mem_iff_of_forall₂ h.gndDriverTypes hi, mem_iff_of_forall₂ h.vccDriverTypes hi]

theorem mono (hRS : R ≤ S) (h : o.Alike R o') : o.Alike S o' where
  lutShapes := h.lutShapes.mono hRS fun _ _ => LutShape.Alike.mono hRS
  keepTypes := h.keepTypes.imp hRS
  gndDriverTypes := h.gndDriverTypes.imp hRS
  vccDriverTypes := h.vccDriverTypes.imp hRS

end NormalizeOptions.Alike

namespace Normalize

variable {o o' : NormalizeOptions} (ho : o.Alike R o')

/-! ## Truth tables -/

/-- The constant inputs come in the same order. -/
theorem alike_constantInputs {nl nl' : Netlist} (hnl : nl.Alike R nl') {c c' : Cell}
    (hc : c.Alike R c') :
    List.Forall₂ R.Holds (constantInputs nl c) (constantInputs nl' c') := by
  have hconst : nl'.constValue = nl.constValue := funext fun k => hnl.constValue k
  have hkept : List.Forall₂ (Port.Alike R)
      (c.ports.filter fun p => p.direction = .input && (p.net.bind nl.constValue).isSome)
      (c'.ports.filter fun p => p.direction = .input && (p.net.bind nl'.constValue).isSome) := by
    refine List.rel_filter ?_ hc.ports
    intro p p' hp
    dsimp only
    rw [hp.direction, hp.net, hconst]
  unfold constantInputs
  rw [List.forall₂_map_left_iff, List.forall₂_map_right_iff]
  exact hkept.imp fun _ _ hp => hp.name

include ho

theorem alike_foldInput (id : CellId) (hi : R i i') :
    Edit.Alike R Eq (foldInput o id i) (foldInput o' id i') := by
  refine Edit.Alike.get.bind fun nl nl' hnl => ?_
  have hconst : nl'.constValue = nl.constValue := funext fun k => hnl.constValue k
  rw [hnl.netOf id hi, hconst]
  cases (nl.netOf id i).bind nl.constValue with
  | none => exact .pure rfl
  | some value =>
    refine (Edit.alike_cell id).bind fun c c' hc => ?_
    match o.lutShapes.find? c.cellType, o'.lutShapes.find? c'.cellType,
      ho.lutShapes.find? hc.cellType with
    | _, _, .none =>
      rw [hc.name]
      exact (Edit.Alike.resolve hc.cellType).bind_same fun _ => .throw _
    | some shape, some shape', .some hshape =>
      dsimp only
      rw [idxOf?_of_forall₂ hshape.inputs hi, hshape.rows]
      cases shape.inputs.idxOf? i with
      | none => exact .pure rfl
      | some position =>
        refine (Edit.Alike.resolve hshape.param).bind_same fun name => ?_
        rw [hc.name]
        match c.params.find? shape.param, c'.params.find? shape'.param,
          hc.params.find? hshape.param with
        | _, _, .none => exact .throw _
        | some before, some _, .some rfl =>
          refine (Edit.Alike.lookup (.same shape.rows)).bind_same fun rows => ?_
          cases before.toBits? rows with
          | none => exact .throw _
          | some table =>
            refine (Edit.Alike.lookup (.same _)).bind_same fun mask => ?_
            refine (Edit.Alike.lookup (.same _)).bind_same fun folded => ?_
            refine (Edit.Alike.lookup (.same _)).bind_same fun param => ?_
            refine (Edit.alike_updateCell id fun c c' hc => ?_).bind_same fun _ => ?_
            · exact { hc with params := hc.params.insert hshape.param rfl }
            · exact (Edit.alike_disconnect id hi).bind_same fun _ => .pure rfl

theorem alike_foldInputs (id : CellId) :
    Edit.Alike R Eq (foldInputs o id) (foldInputs o' id) := by
  refine (Edit.alike_cell id).bind fun c c' hc => Edit.Alike.get.bind fun nl nl' hnl => ?_
  refine .foldlM (alike_constantInputs hnl hc) rfl ?_
  rintro folded _ i i' rfl hi
  exact (alike_foldInput ho id hi).bind_same fun _ => .pure rfl

theorem alike_foldCell (folded : Nat) (id : CellId) :
    Edit.Alike R Eq (foldCell o folded id) (foldCell o' folded id) := by
  refine (Edit.alike_cell id).bind fun c c' hc => Edit.Alike.get.bind fun nl nl' hnl => ?_
  rw [ho.lutShapes.contains hc.cellType, hnl.isMarked]
  split
  · exact (alike_foldInputs ho id).bind_same fun _ => .pure rfl
  · exact .pure rfl

theorem alike_foldAll : Edit.Alike R Eq (foldAll o) (foldAll o') := by
  refine Edit.Alike.get.bind fun nl nl' hnl => ?_
  rw [hnl.cellIds]
  exact .foldlM_same nl.cellIds (alike_foldCell ho) 0

omit ho

/-! ## Tie cells -/

theorem alike_moveSink (k : NetId) {r r' : PortRef} (hr : r.Alike R r') :
    Edit.Alike R Eq (moveSink k r) (moveSink k r') := by
  unfold moveSink
  rw [hr.cell]
  exact (Edit.alike_disconnect _ hr.port).bind_same fun _ => Edit.alike_connect _ hr.port k

theorem alike_mergeOutput (id : CellId) (constant : NetId) {output output' : Ident × NetId}
    (houtput : R output.1 output'.1 ∧ output'.2 = output.2) :
    Edit.Alike R Eq (mergeOutput id constant output) (mergeOutput id constant output') := by
  unfold mergeOutput
  rw [houtput.2]
  refine (Edit.alike_net _).bind fun n n' hn => ?_
  refine (Edit.Alike.forM hn.sinks fun _ _ => alike_moveSink constant).bind_same fun _ => ?_
  refine (Edit.alike_disconnect id houtput.1).bind_same fun _ => ?_
  exact (Edit.alike_removeNet _).bind fun _ _ _ => .pure rfl

include ho

theorem alike_mergeTieCell (merged : Nat) (id : CellId) :
    Edit.Alike R Eq (mergeTieCell o merged id) (mergeTieCell o' merged id) := by
  refine (Edit.alike_cell id).bind fun c c' hc => ?_
  rw [ho.tieValue hc.cellType, ← hc.outputs.length_eq]
  cases o.tieValue c.cellType with
  | none => exact .pure rfl
  | some value =>
    refine (Edit.alike_constantNet value).bind_same fun constant => ?_
    refine (Edit.Alike.forM hc.outputs fun _ _ => alike_mergeOutput id constant).bind_same fun _ => ?_
    exact (Edit.alike_markForRemoval id).bind_same fun _ => .pure rfl

theorem alike_mergeConstantDrivers :
    Edit.Alike R Eq (mergeConstantDrivers o) (mergeConstantDrivers o') := by
  refine Edit.Alike.get.bind fun nl nl' hnl => ?_
  rw [hnl.cellIds]
  exact .foldlM_same nl.cellIds (alike_mergeTieCell ho) 0

omit ho

/-! ## Dead outputs -/

theorem alike_pruneOutput (id : CellId) {output output' : Ident × NetId}
    (houtput : R output.1 output'.1 ∧ output'.2 = output.2) :
    Edit.Alike R Eq (pruneOutput id output) (pruneOutput id output') := by
  unfold pruneOutput
  rw [houtput.2]
  refine (Edit.alike_disconnect id houtput.1).bind_same fun _ => ?_
  refine (Edit.alike_net _).bind fun n n' hn => ?_
  rw [hn.isFloating]
  split
  · exact (Edit.alike_removeNet _).bind fun _ _ _ => .pure rfl
  · exact .pure rfl

include ho

theorem alike_pruneCell (pruned : Nat) (id : CellId) :
    Edit.Alike R Eq (pruneCell o pruned id) (pruneCell o' pruned id) := by
  refine (Edit.alike_cell id).bind fun c c' hc => Edit.Alike.get.bind fun nl nl' hnl => ?_
  simp only [mem_iff_of_forall₂ ho.keepTypes hc.cellType, hnl.isMarked]
  split
  · exact .pure rfl
  · have hdead : Edit.Alike R (List.Forall₂ fun o o' => R o.1 o'.1 ∧ o'.2 = o.2)
        (c.outputs.filterM fun output => return (← Edit.net output.2).sinks.isEmpty)
        (c'.outputs.filterM fun output => return (← Edit.net output.2).sinks.isEmpty) := by
      refine .filterM hc.outputs fun output output' houtput => ?_
      rw [houtput.2]
      exact (Edit.alike_net _).bind fun n n' hn => .pure hn.isEmpty_sinks.symm
    refine hdead.bind fun dead dead' hdead => ?_
    refine (Edit.Alike.forM hdead fun _ _ => alike_pruneOutput id).bind_same fun _ => ?_
    rw [hc.hasOutput, ← hdead.length_eq]
    refine (Edit.alike_cell id).bind fun d d' hd => ?_
    rw [hd.isEmpty_outputs]
    split
    · exact (Edit.alike_markForRemoval id).bind_same fun _ => .pure rfl
    · exact .pure rfl

theorem alike_pruneDeadOutputs :
    Edit.Alike R Eq (pruneDeadOutputs o) (pruneDeadOutputs o') := by
  refine Edit.Alike.get.bind fun nl nl' hnl => ?_
  rw [hnl.cellIds]
  exact .foldlM_same nl.cellIds (alike_pruneCell ho) 0

/-! ## Rounds -/

theorem alike_round : Packing.Alike R Eq (round o) (round o') := by
  have ho' : ∀ S, R ≤ S → o.Alike S o' := fun S hRS => ho.mono hRS
  have hmerge := Packing.Alike.edit fun S hRS => alike_mergeConstantDrivers (ho' S hRS)
  have hfold := Packing.Alike.edit fun S hRS => alike_foldAll (ho' S hRS)
  have hprune := Packing.Alike.edit fun S hRS => alike_pruneDeadOutputs (ho' S hRS)
  have hflush : Packing.Alike R Eq (liftM Edit.flush) (liftM Edit.flush) :=
    .edit fun _ _ => Edit.alike_flush
  have hrest : ∀ mergedNets : Nat, Packing.Alike R Eq
      (do
        let foldedInputs ← liftM (foldAll o)
        let prunedPorts ← liftM (pruneDeadOutputs o)
        let removedCells ← liftM Edit.flush
        return (⟨mergedNets, foldedInputs, prunedPorts, removedCells⟩ : Report))
      (do
        let foldedInputs ← liftM (foldAll o')
        let prunedPorts ← liftM (pruneDeadOutputs o')
        let removedCells ← liftM Edit.flush
        return ⟨mergedNets, foldedInputs, prunedPorts, removedCells⟩) := fun _ =>
    hfold.bind_same fun _ => hprune.bind_same fun _ => hflush.bind_same fun _ => .pure rfl
  refine hmerge.bind_same fun mergedNets => ?_
  dsimp only
  split
  · exact (Packing.Alike.emit _).bind_same fun _ => hrest mergedNets
  · exact hrest mergedNets

theorem alike_rounds (report : Report) (bound : Nat) :
    Packing.Alike R Eq (rounds o report bound) (rounds o' report bound) := by
  induction bound generalizing report with
  | zero => exact .throw _
  | succ bound ih =>
    refine (alike_round ho).bind_same fun r => ?_
    split
    · exact .pure rfl
    · exact ih (report.add r)

omit ho

theorem weight_of_alike {nl nl' : Netlist} (h : nl.Alike R nl') : weight nl' = weight nl := by
  have hports : ∀ ports ports', List.Forall₂ (Port.Alike R) ports ports' →
      (ports'.countP fun p => p.net.isSome) = ports.countP fun p => p.net.isSome := by
    intro ports ports' hports
    induction hports with
    | nil => rfl
    | cons hp _ ih => rw [List.countP_cons, List.countP_cons, ih, hp.net]
  have hentries := h.cells.entries
  unfold weight
  generalize nl.cells.entries = entries, nl'.cells.entries = entries' at hentries ⊢
  -- The fold adds up from any total.
  generalize 0 = total
  induction hentries generalizing total with
  | nil => rfl
  | cons he _ ih =>
    rw [List.foldl_cons, List.foldl_cons, hports _ _ he.2.ports]
    exact ih _

include ho

theorem alike_normalize : Packing.Alike R Eq (normalize o) (normalize o') := by
  refine Packing.Alike.netlist.bind fun nl nl' hnl => ?_
  obtain ⟨S, -, hnl⟩ := hnl
  rw [weight_of_alike hnl]
  refine (alike_rounds ho .none _).bind_same fun report => ?_
  split
  · exact (Packing.Alike.emit _).bind_same fun _ => .pure rfl
  · exact .pure rfl

end Normalize
end FpgaPacking
