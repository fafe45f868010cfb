import FpgaPacking.Proofs.Cluster.Consistent
import FpgaPacking.Proofs.Faults.Runs
import FpgaPacking.Proofs.Netlist.Values
import FpgaPacking.Proofs.Normalize.Fixpoint

/-!
# Normalization without faults

The visits of a pass remove nets and queue cells, but they go through cells and
nets that were listed before.  No visit removes a cell, and a net stays as long as
a port is on it, so what is still listed can be looked up.  A table has a row for
each choice of its inputs, so folding stays within it.  The rounds do not run out
of their bound since each of them lowers the weight.
-/

namespace FpgaPacking
namespace Normalize

open Netlist Edit

variable {options : NormalizeOptions} {names : Names} {nl nl' : Netlist} {s s' : Session}
  {k : NetId} {id : CellId} {output : Ident × NetId}

/-- A pass over all cells does not fault if no visit to a live cell does. -/
theorem faultless_visits {I : Netlist → Prop} {visit : Nat → CellId → Edit Nat}
    (hvisit : ∀ n id nl, I nl → (nl.cell? id).isSome → Faultless (visit n id names) nl)
    (hI : ∀ n id, Keeps I (visit n id))
    (hlive : ∀ other n id, Keeps (fun nl => (nl.cell? other).isSome) (visit n id)) (h : I nl) :
    Faultless ((do (← get).cellIds.foldlM visit 0 : Edit Nat) names) nl := by
  refine faultless_bind_of_ok names (a := nl) rfl ?_
  rw [foldlM_run]
  exact Faultless.foldlM_kept (fun n id nl => hvisit n id nl) (fun n id => hI n id names)
    (fun other n id => hlive other n id names) 0 h fun _ hid => live_of_mem_cellIds hid

/-! ## Tie cells -/

theorem faultless_moveSink (hw : nl.WellFormed) (sink : PortRef) :
    Faultless (moveSink k sink names) nl :=
  faultless_bind names (faultless_disconnect names) fun _ _ hcut =>
    faultless_connect names (keeps_disconnect.of_ok hcut hw)

/-- An output that is on a net still can be merged. -/
theorem faultless_mergeOutput (hw : nl.WellFormed) (hm : nl.wire ⟨id, output.1⟩ = some output.2) :
    Faultless (mergeOutput id k output names) nl := by
  obtain ⟨n, hn⟩ := Option.isSome_iff_exists.mp (hw.wired.wire_live _ _ hm)
  refine faultless_bind_of_ok names (net_of_some names hn) ?_
  refine faultless_bind names ?_ fun _ _ _ => ?_
  · exact faultless_forM names (fun _ nl => nl.WellFormed)
      (fun sink _ _ hw => faultless_moveSink hw sink)
      (fun _ _ _ _ _ hw hmove => (moveSink_ok hw hmove).1) hw
  refine faultless_bind names (faultless_disconnect names) fun _ _ _ => ?_
  exact faultless_bind names (faultless_removeNet names) fun _ _ _ => .pure _ _

theorem faultless_mergeTieCell (merged : Nat) (id : CellId) (hw : nl.WellFormed)
    (hlive : (nl.cell? id).isSome) : Faultless (mergeTieCell options merged id names) nl := by
  obtain ⟨c, hc⟩ := Option.isSome_iff_exists.mp hlive
  refine faultless_bind_of_ok names (cell_of_some names hc) ?_
  cases hv : options.tieValue c.cellType with
  | none => exact .pure _ _
  | some v =>
    refine faultless_bind names ((Fails.modifyGet _).faultless names) fun k nl₁ hconst => ?_
    obtain ⟨hw₁, -, hbare₁, -, -, hk, -⟩ := constantNet_ok hw hconst
    have hc₁ : nl₁.bare id = some c.unwired := (congrFun hbare₁ id).trans (bare_of_cell? hc)
    refine faultless_bind names ?_ fun _ _ _ => ?_
    · refine faultless_forM names (OutputsMerged options nl₁ id) (fun output _ _ h => ?_)
        (fun _ _ _ _ _ h hmerge => h.step hw₁ hk hc₁ hv hmerge) (.of_constantNet hw hc hconst)
      exact faultless_mergeOutput h.refines.wellFormed
        ((h.pending output).mp List.mem_cons_self).1
    · exact faultless_bind names ((Fails.modifyGet _).faultless names) fun _ _ _ => .pure _ _

theorem faultless_mergeConstantDrivers (hw : nl.WellFormed) :
    Faultless (mergeConstantDrivers options names) nl :=
  faultless_visits (fun merged id _ hw => faultless_mergeTieCell merged id hw)
    structural_wellFormed.keeps_mergeTieCell
    (fun other => (Cluster.rewiring_live other).keeps_mergeTieCell) hw

/-! ## Truth tables -/

/-- An input of a table selects one of its rows, and so does any other choice of that input. -/
theorem exists_folded {before : ParamValue} {table : LogicVec} {n position : Nat} (value : Bool)
    (hbefore : before.Built) (htable : before.toBits? (1 <<< n) = some table)
    (hposition : position < n) : ∃ folded param,
      foldTable table (1 <<< position) value = .ok folded ∧ tableParam before folded = .ok param := by
  have hwidth : table.width = 2 ^ n := (width_toBits? htable).trans (Nat.one_shiftLeft n)
  have hrows : ∀ row, row < table.width → forceBit row (1 <<< position) value < table.width := by
    intro row hrow
    rw [hwidth] at hrow ⊢
    exact forceBit_lt hposition hrow
  obtain ⟨folded, hfolded⟩ := exists_foldTable (hbefore.packed_toBits? htable).stored hrows
  obtain ⟨param, hparam⟩ := exists_tableParam (built_foldTable hfolded).stored before
  exact ⟨folded, param, hfolded, hparam⟩

theorem faultless_foldInput (hfew : options.FewInputs) (hbuilt : nl.BuiltValues) (id : CellId)
    (port : Ident) : Faultless (foldInput options id port names) nl := by
  refine faultless_bind_of_ok names (a := nl) rfl ?_
  cases hvalue : (nl.netOf id port).bind nl.constValue with
  | none => exact .pure _ _
  | some v =>
    obtain ⟨k, hk, -⟩ := Option.bind_eq_some_iff.mp hvalue
    obtain ⟨c, hc, -⟩ := Option.bind_eq_some_iff.mp hk
    refine faultless_bind_of_ok names (cell_of_some names hc) ?_
    cases hshape : options.lutShapes.find? c.cellType with
    | none =>
      exact faultless_bind_of_ok names (a := names.resolve c.cellType) rfl
        (.throw (Failure.reported_rejected _) _)
    | some shape =>
      dsimp only
      cases hindex : shape.inputs.idxOf? port with
      | none => exact .pure _ _
      | some position =>
        obtain ⟨hposition, -⟩ := List.idxOf?_eq_some_iff.mp hindex
        have hfit := hfew _ shape hshape
        have hrows : shape.rows = .ok (1 <<< shape.inputs.length) := bitMask_of_lt hfit
        have hmask := bitMask_of_lt (Nat.lt_trans hposition hfit)
        refine faultless_bind_of_ok names (a := names.resolve shape.param) rfl ?_
        cases hbefore : c.params.find? shape.param with
        | none => exact .throw (Failure.reported_rejected _) _
        | some before =>
          refine faultless_bind_of_ok names (lookup_of_ok names hrows) ?_
          cases htable : before.toBits? (1 <<< shape.inputs.length) with
          | none => exact .throw (Failure.reported_rejected _) _
          | some table =>
            obtain ⟨folded, param, hfolded, hparam⟩ := exists_folded v.toBool
              ((hbuilt id c hc).1 _ _ hbefore) htable hposition
            refine faultless_bind_of_ok names (lookup_of_ok names hmask) ?_
            refine faultless_bind_of_ok names (lookup_of_ok names hfolded) ?_
            refine faultless_bind_of_ok names (lookup_of_ok names hparam) ?_
            refine faultless_bind names (faultless_updateCell names ?_) fun _ _ _ => ?_
            · rw [hc]
              rfl
            · exact faultless_bind names (faultless_disconnect names) fun _ _ _ => .pure _ _

theorem faultless_foldInputs (hfew : options.FewInputs) (hbuilt : nl.BuiltValues)
    (hlive : (nl.cell? id).isSome) : Faultless (foldInputs options id names) nl := by
  obtain ⟨c, hc⟩ := Option.isSome_iff_exists.mp hlive
  refine faultless_bind_of_ok names (cell_of_some names hc) ?_
  refine faultless_bind_of_ok names (a := nl) rfl ?_
  refine faultless_foldlM names (fun _ nl => nl.BuiltValues) (fun port _ _ nl hbuilt => ?_)
    (fun port _ folded nl _ nl' hbuilt hrun => ?_) 0 hbuilt
  · exact faultless_bind names (faultless_foldInput hfew hbuilt id port) fun _ _ _ => .pure _ _
  · have hkeeps : Keeps BuiltValues
        (do return folded + (if ← foldInput options id port then 1 else 0) : Edit Nat) :=
      .bind (keeps_builtValues_foldInput options id port) fun _ => .pure _
    exact hkeeps.of_ok hrun hbuilt

theorem faultless_foldCell (hfew : options.FewInputs) (folded : Nat) (id : CellId)
    (hbuilt : nl.BuiltValues) (hlive : (nl.cell? id).isSome) :
    Faultless (foldCell options folded id names) nl := by
  obtain ⟨c, hc⟩ := Option.isSome_iff_exists.mp hlive
  refine faultless_bind_of_ok names (cell_of_some names hc) ?_
  refine faultless_bind_of_ok names (a := nl) rfl ?_
  split
  · exact faultless_bind names (faultless_foldInputs hfew hbuilt hlive) fun _ _ _ => .pure _ _
  · exact .pure _ _

theorem faultless_foldAll (hfew : options.FewInputs) (hbuilt : nl.BuiltValues) :
    Faultless (foldAll options names) nl :=
  faultless_visits (fun folded id _ hbuilt => faultless_foldCell hfew folded id hbuilt)
    (keeps_foldCell (keeps_builtValues_foldInput options))
    (fun other => keeps_foldCell (Cluster.routing_live other).keeps_foldInput) hbuilt

/-! ## Dead outputs -/

/-- The net of an output is still there when the output has been taken off it. -/
theorem faultless_pruneOutput (hw : nl.WellFormed) (hm : nl.wire ⟨id, output.1⟩ = some output.2) :
    Faultless (pruneOutput id output names) nl := by
  refine faultless_bind names (faultless_disconnect names) fun _ nl₁ hcut => ?_
  obtain ⟨-, -, -, htag, -⟩ := disconnect_ok hw hcut
  have hlive : (nl₁.net? output.2).isSome := by
    rw [← tag_isSome, htag]
    exact hw.wired.tag_isSome_of_wire hm
  obtain ⟨n, hn⟩ := Option.isSome_iff_exists.mp hlive
  refine faultless_bind_of_ok names (net_of_some names hn) ?_
  split
  · exact faultless_bind names (faultless_removeNet names) fun _ _ _ => .pure _ _
  · exact .pure _ _

/-- The outputs that are left are on their nets. -/
theorem faultless_pruneOutputs {dead : List (Ident × NetId)} (hw : nl.WellFormed)
    (hnodup : (dead.map (·.1)).Nodup)
    (hon : ∀ output ∈ dead, nl.wire ⟨id, output.1⟩ = some output.2) :
    Faultless ((dead.forM (pruneOutput id) : Edit PUnit) names) nl := by
  refine faultless_forM names
    (fun rest nl => nl.WellFormed ∧ (rest.map (·.1)).Nodup ∧
      ∀ output ∈ rest, nl.wire ⟨id, output.1⟩ = some output.2)
    (fun output _ _ h => faultless_pruneOutput h.1 (h.2.2 output List.mem_cons_self))
    (fun output rest nl _ nl' ⟨hw, hnodup, hon⟩ hprune => ?_) ⟨hw, hnodup, hon⟩
  obtain ⟨hw', hwire⟩ := pruneOutput_wire hw hprune
  obtain ⟨hfresh, hrest⟩ := List.nodup_cons.mp hnodup
  refine ⟨hw', hrest, fun other hother => ?_⟩
  have hne : (⟨id, other.1⟩ : PortRef) ≠ ⟨id, output.1⟩ := by
    intro e
    have hname : other.1 = output.1 := congrArg PortRef.port e
    refine hfresh ?_
    show output.1 ∈ rest.map (·.1)
    rw [← hname]
    exact List.mem_map_of_mem hother
  rw [hwire, Function.update_of_ne hne]
  exact hon other (List.mem_cons_of_mem output hother)

theorem faultless_pruneCell (pruned : Nat) (id : CellId) (hw : nl.WellFormed)
    (hlive : (nl.cell? id).isSome) : Faultless (pruneCell options pruned id names) nl := by
  obtain ⟨c, hc⟩ := Option.isSome_iff_exists.mp hlive
  have hon : ∀ output ∈ c.outputs, nl.wire ⟨id, output.1⟩ = some output.2 :=
    fun output ho => ((mem_outputs hw hc).mp ho).1
  refine faultless_bind_of_ok names (cell_of_some names hc) ?_
  refine faultless_bind_of_ok names (a := nl) rfl ?_
  split
  · exact .pure _ _
  · refine faultless_bind names (faultless_filterM names fun output ho => ?_)
      fun dead nl₁ hfilter => ?_
    · obtain ⟨n, hn⟩ := Option.isSome_iff_exists.mp (hw.wired.wire_live _ _ (hon output ho))
      exact ⟨n.sinks.isEmpty, bind_ok.mpr ⟨n, nl, net_of_some names hn, rfl⟩⟩
    obtain ⟨rfl, rfl, -⟩ := filterM_ok (fun _ _ _ _ hx => (unreadTest_ok hx).1) hfilter
    refine faultless_bind names (faultless_pruneOutputs hw ?_ fun output ho => ?_)
      fun _ nl₂ hprune => ?_
    · exact (nodup_outputs hw hc).sublist (List.filter_sublist.map _)
    · exact hon output (List.mem_of_mem_filter ho)
    have hlive₂ : (nl₂.cell? id).isSome :=
      (Keeps.forM (Cluster.rewiring_live id).keeps_pruneOutput _).of_ok hprune hlive
    obtain ⟨c₂, hc₂⟩ := Option.isSome_iff_exists.mp hlive₂
    refine faultless_bind_of_ok names (cell_of_some names hc₂) ?_
    dsimp only
    split
    · exact faultless_bind names ((Fails.modifyGet _).faultless names) fun _ _ _ => .pure _ _
    · exact .pure _ _

theorem faultless_pruneDeadOutputs (hw : nl.WellFormed) :
    Faultless (pruneDeadOutputs options names) nl :=
  faultless_visits (fun pruned id _ hw => faultless_pruneCell pruned id hw)
    structural_wellFormed.keeps_pruneCell
    (fun other => (Cluster.rewiring_live other).keeps_pruneCell) hw

/-! ## Rounds -/

theorem faultless_round (hfew : options.FewInputs) (hw : s.netlist.WellFormed)
    (hbuilt : s.netlist.BuiltValues) : Faultless (round options) s := by
  have hrest : ∀ merged (s₁ : Session), s₁.netlist.WellFormed → s₁.netlist.BuiltValues →
      Faultless (do
        let foldedInputs ← foldAll options
        let prunedPorts ← pruneDeadOutputs options
        let removedCells ← Edit.flush
        return (⟨merged, foldedInputs, prunedPorts, removedCells⟩ : Report) : Packing Report) s₁ := by
    intro merged s₁ hw₁ hbuilt₁
    refine .bind (Packing.faultless_edit (faultless_foldAll hfew hbuilt₁)) fun folded s₂ hfold => ?_
    have hw₂ : s₂.netlist.WellFormed :=
      (Packing.Keeps.edit (keeps_foldAll structural_wellFormed.keeps_foldInput)).of_ok hfold hw₁
    refine .bind (Packing.faultless_edit (faultless_pruneDeadOutputs hw₂)) fun pruned s₃ _ => ?_
    refine .bind (Packing.faultless_edit ?_) fun removed s₄ _ => .pure _ _
    exact (fails_flush Failure.reported_violation).faultless s₃.names
  refine .bind (Packing.faultless_edit (faultless_mergeConstantDrivers hw)) fun merged s₁ hmerge => ?_
  have hw₁ : s₁.netlist.WellFormed :=
    (Packing.Keeps.edit structural_wellFormed.keeps_mergeConstantDrivers).of_ok hmerge hw
  have hbuilt₁ : s₁.netlist.BuiltValues :=
    (Packing.Keeps.edit rewiring_builtValues.keeps_mergeConstantDrivers).of_ok hmerge hbuilt
  dsimp only
  split
  · exact .bind_of_ok rfl (hrest merged _ hw₁ hbuilt₁)
  · exact hrest merged s₁ hw₁ hbuilt₁

/-- The rounds neither fault nor run out. -/
theorem faultless_rounds (hdistinct : options.DistinctInputs) (hfew : options.FewInputs)
    {bound : Nat} {start : Report} (hw : s.netlist.WellFormed) (hbuilt : s.netlist.BuiltValues)
    (hbound : weight s.netlist < bound) : Faultless (rounds options start bound) s := by
  induction bound generalizing start s with
  | zero => exact absurd hbound (Nat.not_lt_zero _)
  | succ bound ih =>
    refine .bind (faultless_round hfew hw hbuilt) fun r s₁ hround => ?_
    split
    · exact .pure _ _
    · next hchanged =>
      have hnone : r ≠ .none := fun e => hchanged (by rw [e]; rfl)
      have hless := round_decreases hdistinct hw hround hnone
      have hkeeps := elementary_builtValues.keeps_round (keeps_builtValues_foldInput options)
      exact ih (round_weight hdistinct hw hround).1 (hkeeps.of_ok hround hbuilt) (by omega)

theorem faultless_normalize (hdistinct : options.DistinctInputs) (hfew : options.FewInputs)
    (hw : s.netlist.WellFormed) (hbuilt : s.netlist.BuiltValues) :
    Faultless (normalize options) s := by
  refine .bind_of_ok (a := s.netlist) rfl ?_
  refine .bind (faultless_rounds hdistinct hfew hw hbuilt (Nat.lt_succ_self _)) fun report s₁ _ => ?_
  dsimp only
  split
  · exact .bind_of_ok rfl (.pure _ _)
  · exact .pure _ _

end Normalize
end FpgaPacking
