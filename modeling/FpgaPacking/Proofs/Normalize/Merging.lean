import FpgaPacking.Proofs.Normalize.Weight

/-!
# Merging tie cells

The readers of a tie cell's net go to the constant net of the same value, one
after the other.  As long as there are readers the tie cell still drives the net,
so each of them moves from a tied net to a constant net of the same value.  When
none is left the driver goes, and then the net.
-/

namespace FpgaPacking
namespace Normalize

open Netlist

variable {options : NormalizeOptions} {names : Names} {nl nl' : Netlist} {r : PortRef}
  {k m : NetId} {v : ConstValue} {id : CellId} {c : Cell}

theorem moveSink_ok {u : Unit} (hw : nl.WellFormed) (h : moveSink k r names nl = .ok u nl') :
    nl'.WellFormed ∧ nl'.wire = Function.update nl.wire r (some k) ∧ nl'.bare = nl.bare ∧
      nl'.tag = nl.tag ∧ nl'.queue = nl.queue ∧ nl'.nextNet = nl.nextNet := by
  unfold moveSink at h
  obtain ⟨_, nl₁, hout, hin⟩ := Edit.bind_ok.mp h
  obtain ⟨hw₁, hwire₁, hbare₁, htag₁, -⟩ := Edit.disconnect_ok hw hout
  obtain ⟨hqueue₁, hnext₁⟩ := Edit.disconnect_frame hout
  obtain ⟨hw₂, hwire₂, hbare₂, htag₂, -⟩ := Edit.connect_ok hw₁ hin
  obtain ⟨hqueue₂, hnext₂⟩ := Edit.connect_frame hin
  refine ⟨hw₂, ?_, hbare₂.trans hbare₁, htag₂.trans htag₁, hqueue₂.trans hqueue₁,
    hnext₂.trans hnext₁⟩
  rw [hwire₂, hwire₁]
  exact Function.update_idem _ _ _

/-- While sinks are moved to the net `k`: those that are left are still where they were. -/
structure SinksMoved (options : NormalizeOptions) (nl : Netlist) (k : NetId)
    (sinks rest : List PortRef) (x : Netlist) : Prop where
  refines : Refines options [] nl x
  pending : ∀ q ∈ rest, q ∈ sinks
  nodup : rest.Nodup
  wire : ∀ q, x.wire q = if q ∈ sinks ∧ q ∉ rest then some k else nl.wire q
  bare : x.bare = nl.bare
  tag : x.tag = nl.tag
  queue : x.queue = nl.queue

/-- A reader of a net that a tie cell drives goes to the constant net of the same value. -/
theorem SinksMoved.step {sinks rest : List PortRef} {q : PortRef} {x x' : Netlist} {u : Unit}
    (h : SinksMoved options nl k sinks (q :: rest) x) (hw : nl.WellFormed)
    (hk : nl.constValue k = some v) (hr : nl.wire r = some m) (hd : nl.dir r = some .output)
    (hc : nl.bare r.cell = some c) (hv : options.tieValue c.cellType = some v)
    (hsinks : ∀ q ∈ sinks, nl.wire q = some m ∧ nl.dir q ≠ some .output)
    (hmove : moveSink k q names x = .ok u x') : SinksMoved options nl k sinks rest x' := by
  have hwx := h.refines.wellFormed
  obtain ⟨hwx', hwire', hbare', htag', hqueue', hnext'⟩ := moveSink_ok hwx hmove
  obtain ⟨hfresh, hnodup⟩ := List.nodup_cons.mp h.nodup
  have hqs : q ∈ sinks := h.pending q List.mem_cons_self
  obtain ⟨hqm, hqd⟩ := hsinks q hqs
  have hdirs : ∀ p : PortRef, x.dir p = nl.dir p := fun p => dir_congr (congrFun h.bare _)
  have hxq : x.wire q = some m := by
    rw [h.wire, if_neg fun ⟨_, hrest⟩ => hrest List.mem_cons_self]
    exact hqm
  have hxr : x.wire r = some m := by
    rw [h.wire, if_neg fun ⟨hsink, _⟩ => (hsinks r hsink).2 hd]
    exact hr
  have htied : Tied options x m v := by
    refine (tied_iff hwx).mpr (Or.inr ⟨r, c, hxr, ?_, ?_, hv⟩)
    · rw [hdirs]
      exact hd
    · rw [h.bare]
      exact hc
  have hxk : x.constValue k = some v := h.refines.constants k v hk
  have hstep : Refines options [] x x' := by
    refine .of_update hwx hwx' hwire' hbare' htag' hnext' ?_ ?_ ?_
    · intro k' hk'
      obtain rfl := Option.some.inj hk'
      simp [hxk]
    · intro hout
      rw [hdirs] at hout
      exact absurd hout hqd
    · exact fun _ _ => ⟨m, v, k, hxq, htied, rfl, hxk⟩
  refine ⟨h.refines.trans hstep hw, fun p hp => h.pending p (List.mem_cons_of_mem q hp), hnodup,
    fun p => ?_, hbare'.trans h.bare, htag'.trans h.tag, hqueue'.trans h.queue⟩
  rw [hwire']
  by_cases hpq : p = q
  · subst hpq
    rw [Function.update_self, if_pos ⟨hqs, hfresh⟩]
  · rw [Function.update_of_ne hpq, h.wire]
    simp [hpq]

/-- Moving readers of a net that a tie cell drives to the constant net of the same value. -/
theorem moveSinks_ok {sinks : List PortRef} {u : Unit} (hw : nl.WellFormed)
    (hk : nl.constValue k = some v) (hr : nl.wire r = some m) (hd : nl.dir r = some .output)
    (hc : nl.bare r.cell = some c) (hv : options.tieValue c.cellType = some v)
    (hsinks : ∀ q ∈ sinks, nl.wire q = some m ∧ nl.dir q ≠ some .output) (hnodup : sinks.Nodup)
    (h : sinks.forM (moveSink k) names nl = .ok u nl') :
    Refines options [] nl nl' ∧ (∀ q, nl'.wire q = if q ∈ sinks then some k else nl.wire q) ∧
      nl'.bare = nl.bare ∧ nl'.tag = nl.tag ∧ nl'.queue = nl.queue := by
  have hstart : SinksMoved options nl k sinks sinks nl :=
    { refines := .refl hw
      pending := fun _ h => h
      nodup := hnodup
      wire := fun q => by rw [if_neg fun ⟨h, h'⟩ => h' h]
      bare := rfl
      tag := rfl
      queue := rfl }
  have hend : SinksMoved options nl k sinks [] nl' :=
    Edit.forM_ok (SinksMoved options nl k sinks)
      (fun _ _ _ _ _ hmoved hmove => hmoved.step hw hk hr hd hc hv hsinks hmove) hstart h
  refine ⟨hend.refines, fun q => ?_, hend.bare, hend.tag, hend.queue⟩
  rw [hend.wire]
  simp

/-- Merging an output moves no other output. -/
theorem mergeOutput_ok {output : Ident × NetId} {u : Unit} (hw : nl.WellFormed)
    (hk : nl.constValue k = some v) (hm : nl.wire ⟨id, output.1⟩ = some output.2)
    (hd : nl.dir ⟨id, output.1⟩ = some .output) (hc : nl.bare id = some c)
    (hv : options.tieValue c.cellType = some v)
    (h : mergeOutput id k output names nl = .ok u nl') :
    Refines options [] nl nl' ∧ nl'.bare = nl.bare ∧ nl'.queue = nl.queue ∧
      ∀ q, nl.dir q = some .output →
        nl'.wire q = if q = ⟨id, output.1⟩ then none else nl.wire q := by
  obtain ⟨name, m⟩ := output
  unfold mergeOutput at h
  obtain ⟨n, nl₁, hnet, h⟩ := Edit.bind_ok.mp h
  obtain ⟨_, nl₂, hmove, h⟩ := Edit.bind_ok.mp h
  obtain ⟨_, nl₃, hout, h⟩ := Edit.bind_ok.mp h
  obtain ⟨_, nl₄, hremove, h⟩ := Edit.bind_ok.mp h
  obtain ⟨-, rfl⟩ := Edit.pure_ok.mp h
  obtain ⟨hn, rfl⟩ := Edit.net_ok hnet
  have hm₁ : nl₁.wire ⟨id, name⟩ = some m := hm
  have hmconst : nl₁.constValue m = none := constValue_eq_none_of_wire hw hm hd
  have hne : k ≠ m := by
    rintro rfl
    rw [hk] at hmconst
    cases hmconst
  obtain ⟨href₂, hwire₂, hbare₂, htag₂, hqueue₂⟩ := moveSinks_ok hw hk hm hd hc hv
    (fun q hq => (hw.wired.sink_iff m n q hn).mp hq) (hw.sinks_nodup m n hn) hmove
  have hw₂ := href₂.wellFormed
  obtain ⟨hw₃, hwire₃, hbare₃, htag₃, -⟩ := Edit.disconnect_ok hw₂ hout
  obtain ⟨hqueue₃, hnext₃⟩ := Edit.disconnect_frame hout
  obtain ⟨hw₄, hwire₄, hbare₄, hqueue₄, hnext₄, htag₄⟩ := Edit.removeNet_ok hw₃ hremove
  have hdir₂ : ∀ q : PortRef, nl₂.dir q = nl₁.dir q := fun q => dir_congr (congrFun hbare₂ _)
  have hstays : ∀ q : PortRef, nl₁.dir q = some .output → nl₂.wire q = nl₁.wire q := by
    intro q hq
    rw [hwire₂, if_neg fun hsink => ((hw.wired.sink_iff m n q hn).mp hsink).2 hq]
  -- Only the driver is left on the net, so it can be taken off.
  have hlast : ∀ q, nl₂.wire q = some m → nl₂.dir q = some .output := by
    intro q hq
    rw [hwire₂] at hq
    split at hq
    · exact absurd (Option.some.inj hq) hne
    · next hsink =>
      rw [hdir₂]
      by_contra hdq
      exact hsink ((hw.wired.sink_iff m n q hn).mpr ⟨hq, hdq⟩)
  have href₃ : Refines options [] nl₂ nl₃ := by
    refine .of_update hw₂ hw₃ hwire₃ hbare₃ htag₃ hnext₃ nofun ?_ ?_
    · intro _ k' q hr hq
      have hk' : some m = some k' := by rw [← hm₁, ← hstays _ hd]; exact hr
      exact hlast q (hq.trans hk'.symm)
    · intro _ hnot
      rw [hdir₂] at hnot
      exact absurd hd hnot
  have hfree : nl₃.constValue m = none := by
    rw [constValue_eq, htag₃, htag₂, ← constValue_eq]
    exact hmconst
  have href₄ : Refines options [] nl₃ nl₄ := .of_removedNet hw₃ hw₄ hwire₄ hbare₄ hnext₄ htag₄ hfree
  refine ⟨(href₂.trans href₃ hw).trans href₄ hw, hbare₄.trans (hbare₃.trans hbare₂),
    hqueue₄.trans (hqueue₃.trans hqueue₂), fun q hq => ?_⟩
  rw [hwire₄, hwire₃]
  by_cases hqr : q = ⟨id, name⟩
  · rw [if_pos hqr, hqr, Function.update_self]
  · rw [if_neg hqr, Function.update_of_ne hqr]
    exact hstays q hq

/-- While the outputs of a tie cell are merged: those that are left are the ones
that are still connected. -/
structure OutputsMerged (options : NormalizeOptions) (nl : Netlist) (id : CellId)
    (rest : List (Ident × NetId)) (x : Netlist) : Prop where
  refines : Refines options [] nl x
  bare : x.bare = nl.bare
  queue : x.queue = nl.queue
  nodup : (rest.map (·.1)).Nodup
  pending : ∀ output, output ∈ rest ↔
    x.wire ⟨id, output.1⟩ = some output.2 ∧ x.dir ⟨id, output.1⟩ = some .output

theorem OutputsMerged.step {output : Ident × NetId} {rest : List (Ident × NetId)}
    {x x' : Netlist} {u : Unit} (h : OutputsMerged options nl id (output :: rest) x)
    (hw : nl.WellFormed) (hk : nl.constValue k = some v) (hc : nl.bare id = some c)
    (hv : options.tieValue c.cellType = some v)
    (hmerge : mergeOutput id k output names x = .ok u x') :
    OutputsMerged options nl id rest x' := by
  obtain ⟨hfresh, hnodup⟩ := List.nodup_cons.mp h.nodup
  obtain ⟨hm, hd⟩ := (h.pending output).mp List.mem_cons_self
  have hcx : x.bare id = some c := by
    rw [h.bare]
    exact hc
  obtain ⟨hstep, hbare', hqueue', hwire'⟩ :=
    mergeOutput_ok h.refines.wellFormed (h.refines.constants k v hk) hm hd hcx hv hmerge
  have hdirs : ∀ q : PortRef, x'.dir q = x.dir q := fun q => dir_congr (congrFun hbare' _)
  refine ⟨h.refines.trans hstep hw, hbare'.trans h.bare, hqueue'.trans h.queue, hnodup,
    fun other => ⟨fun ho => ?_, fun ⟨hm', hd'⟩ => ?_⟩⟩
  · obtain ⟨ho₁, ho₂⟩ := (h.pending other).mp (List.mem_cons_of_mem _ ho)
    have hne : (⟨id, other.1⟩ : PortRef) ≠ ⟨id, output.1⟩ := by
      intro e
      have hname : other.1 = output.1 := congrArg PortRef.port e
      refine hfresh ?_
      show output.1 ∈ rest.map (·.1)
      rw [← hname]
      exact List.mem_map_of_mem ho
    rw [hdirs, hwire' _ ho₂, if_neg hne]
    exact ⟨ho₁, ho₂⟩
  · rw [hdirs] at hd'
    rw [hwire' _ hd'] at hm'
    split at hm'
    · cases hm'
    · next hne =>
      refine (List.mem_cons.mp ((h.pending other).mpr ⟨hm', hd'⟩)).resolve_left fun e => hne ?_
      rw [e]

/-- Before the first of them, once the constant net is there, the outputs of the cell are left. -/
theorem OutputsMerged.of_constantNet (hw : nl.WellFormed) (hc : nl.cell? id = some c)
    (h : Edit.constantNet v names nl = .ok k nl') : OutputsMerged options nl' id c.outputs nl' := by
  obtain ⟨hw', hwire, hbare, -⟩ := Edit.constantNet_ok hw h
  refine ⟨.refl hw', rfl, rfl, nodup_outputs hw hc, fun output => ?_⟩
  rw [hwire, dir_congr (congrFun hbare id)]
  exact mem_outputs hw hc

/-- Merging all outputs of a tie cell leaves none of them connected. -/
theorem mergeOutputs_ok {outputs : List (Ident × NetId)} {u : Unit} (hw : nl.WellFormed)
    (hk : nl.constValue k = some v) (hc : nl.bare id = some c)
    (hv : options.tieValue c.cellType = some v) (hstart : OutputsMerged options nl id outputs nl)
    (h : outputs.forM (mergeOutput id k) names nl = .ok u nl') :
    Refines options [] nl nl' ∧ nl'.queue = nl.queue ∧ Idle nl' id := by
  have hend : OutputsMerged options nl id [] nl' :=
    Edit.forM_ok (OutputsMerged options nl id)
      (fun _ _ _ _ _ hmerged hmerge => hmerged.step hw hk hc hv hmerge) hstart h
  exact ⟨hend.refines, hend.queue, fun port m hm hd =>
    absurd ((hend.pending (port, m)).mpr ⟨hm, hd⟩) List.not_mem_nil⟩

/-- Creating a constant net where there was none. -/
theorem constantNet_refines (hw : nl.WellFormed)
    (h : Edit.constantNet v names nl = .ok k nl') : Refines options [] nl nl' := by
  obtain ⟨hw', hwire, hbare, -, hgrows, -, rfl | ⟨rfl, htag⟩⟩ := Edit.constantNet_ok hw h
  · exact .refl hw
  · refine .of_same_wires hw hw' hwire hbare hgrows ?_ ?_
    · intro k' v' hv'
      have hne : k' ≠ nl.nextNet := by
        rintro rfl
        rw [constValue_eq, tag_nextNet] at hv'
        cases hv'
      rw [constValue_eq, htag, Function.update_of_ne hne, ← constValue_eq]
      exact hv'
    · intro k' t ht
      by_cases hne : k' = nl.nextNet
      · exact Or.inr (hne ▸ Nat.le_refl _)
      · rw [htag, Function.update_of_ne hne] at ht
        exact Or.inl ht

/-- A tie cell is queued and drives no net afterwards; a cell of another type is left as it is. -/
theorem mergeTieCell_ok {merged merged' : Nat} (hw : nl.WellFormed)
    (h : mergeTieCell options merged id names nl = .ok merged' nl') :
    Phase options nl nl' ∧ (∃ n, merged' = merged + n ∧ Progress n nl nl') ∧
      ∃ c, nl.bare id = some c ∧
        (options.tieValue c.cellType = none ∨ nl'.isMarked id = true ∧ Idle nl' id) := by
  unfold mergeTieCell at h
  obtain ⟨c, nl₁, hcell, hrun⟩ := Edit.bind_ok.mp h
  obtain ⟨hc, rfl⟩ := Edit.cell_ok hcell
  have hbare : nl₁.bare id = some c.unwired := by
    show (nl₁.cell? id).map _ = _
    rw [hc]
    rfl
  cases hv : options.tieValue c.cellType with
  | none =>
    rw [hv] at hrun
    obtain ⟨rfl, rfl⟩ := Edit.pure_ok.mp hrun
    exact ⟨.refl hw, ⟨0, rfl, .refl _⟩, c.unwired, hbare, Or.inl hv⟩
  | some v =>
    rw [hv] at hrun
    obtain ⟨k, nl₂, hconst, hrun⟩ := Edit.bind_ok.mp hrun
    obtain ⟨_, nl₃, houtputs, hrun⟩ := Edit.bind_ok.mp hrun
    obtain ⟨_, nl₄, hmark, hrun⟩ := Edit.bind_ok.mp hrun
    obtain ⟨rfl, rfl⟩ := Edit.pure_ok.mp hrun
    obtain ⟨hw₂, -, hbare₂, hqueue₂, -, hk, -⟩ := Edit.constantNet_ok hw hconst
    obtain ⟨hmerged, hqueue₃, hidle⟩ := mergeOutputs_ok hw₂ hk
      ((congrFun hbare₂ id).trans hbare) hv (.of_constantNet hw hc hconst) houtputs
    have href : Refines options [] nl₁ nl₃ := (constantNet_refines hw hconst).trans hmerged hw
    have hlive : (nl₃.bare id).isSome := href.live id List.not_mem_nil (by simp [hbare])
    obtain ⟨c₃, hc₃⟩ := Option.isSome_iff_exists.mp hlive
    have hremovable : Removable options c₃ := by
      obtain ⟨d, hd, params, rfl, -⟩ := href.cells id c₃ hc₃
      obtain rfl := Option.some.inj (hbare.symm.trans hd)
      exact Or.inl (by simp [Cell.unwired, hv])
    obtain ⟨hphase, hmarked, hwire₄⟩ := Phase.of_mark href.wellFormed hidle hc₃ hremovable hmark
    have hend : Phase options nl₁ nl₄ :=
      (Phase.of_queue href (hqueue₃.trans hqueue₂)).trans hphase hw
    have hprogress : Progress c.outputs.length nl₁ nl₄ := by
      refine .of_cut id hend.toRefines hw (nodup_outputs hw hc) ?_ ?_ fun _ hunmarked => ?_
      · exact fun output ho => ((mem_outputs hw hc).mp ho).1
      · intro output ho
        rw [hwire₄]
        exact hidle.wire_eq_none ((href.dir hlive).trans ((mem_outputs hw hc).mp ho).2)
      · rw [hunmarked] at hmarked
        cases hmarked
    exact ⟨hend, ⟨_, rfl, hprogress⟩, c.unwired, hbare,
      Or.inr ⟨hmarked, hidle.refines hphase.toRefines⟩⟩

theorem counts_mergeTieCell : Counts (mergeTieCell options) := by
  intro names merged id nl merged' nl' hw h
  obtain ⟨hphase, hprogress, -⟩ := mergeTieCell_ok hw h
  exact ⟨hphase.wellFormed, hprogress⟩

/-- While tie cells are merged: those that have been visited drive no net. -/
structure TiesMerged (options : NormalizeOptions) (nl : Netlist) (rest : List CellId)
    (x : Netlist) : Prop where
  phase : Phase options nl x
  untied : ∀ r, r.cell ∉ rest → Untied options x r

theorem TiesMerged.step {rest : List CellId} {x x' : Netlist} {merged merged' : Nat}
    (h : TiesMerged options nl (id :: rest) x) (hw : nl.WellFormed)
    (hmerge : mergeTieCell options merged id names x = .ok merged' x') :
    TiesMerged options nl rest x' := by
  obtain ⟨hstep, -, c, hc, hvisited⟩ := mergeTieCell_ok h.phase.wellFormed hmerge
  refine ⟨h.phase.trans hstep hw, fun r hr => ?_⟩
  by_cases hid : r.cell = id
  · subst hid
    intro k c' hwire hdir hc'
    rcases hvisited with hv | ⟨-, hidle⟩
    · obtain ⟨d, hd, params, rfl, -⟩ := hstep.cells r.cell c' hc'
      obtain rfl := Option.some.inj (hc.symm.trans hd)
      exact hv
    · exact absurd hdir (hidle r.port k hwire)
  · exact (h.untied r (by simp [hid, hr])).refines hstep.toRefines

/-- After merging, no tie cell drives a net. -/
theorem mergeConstantDrivers_ok {merged : Nat} (hw : nl.WellFormed)
    (h : mergeConstantDrivers options names nl = .ok merged nl') :
    Phase options nl nl' ∧ ∀ r, Untied options nl' r := by
  unfold mergeConstantDrivers at h
  obtain ⟨_, _, hget, hrun⟩ := Edit.bind_ok.mp h
  obtain ⟨rfl, rfl⟩ := Edit.get_ok.mp hget
  have hstart : TiesMerged options nl nl.cellIds nl := by
    refine ⟨.refl hw, fun r hr k c _ _ hc => ?_⟩
    exact absurd (mem_cellIds.mpr (by simp [hc])) hr
  have hend : TiesMerged options nl [] nl' :=
    Edit.foldlM_ok (fun rest _ x => TiesMerged options nl rest x)
      (fun _ _ _ _ _ _ hmerged hmerge => hmerged.step hw hmerge) hstart hrun
  exact ⟨hend.phase, fun r => hend.untied r List.not_mem_nil⟩

end Normalize
end FpgaPacking
