import FpgaPacking.Proofs.Normalize.Fixpoint
import Mathlib.Order.FixedPoints
import Mathlib.Order.CompletePartialOrder

/-!
# Normalization removes exactly the dead logic

A cell is dead if its type is not kept, it has outputs, and everything that reads
them is dead, or ties its outputs, or was queued for removal.  The dead cells are
the least set with that property: a cell in a loop of cells that read each other
is not dead.

That nothing else is removed is kept by every step.  As long as no other cell is
queued or removed, a net between two cells that are not doomed keeps its driver
and its reader, so a cell whose outputs have all been cut off had doomed readers
only.  That all of it is removed follows from the fixed point: a dead cell that
has stayed would have an output that is still read, by a cell that has stayed.
-/

namespace FpgaPacking
namespace Normalize

open Netlist

variable {options : NormalizeOptions} {names : Names} {nl nl' x x' : Netlist} {s s' : Session}
  {report : Report} {r q : PortRef} {k : NetId} {id : CellId} {c : Cell}

/-! ## Dead logic -/

/-- The cells of a type that ties its outputs. -/
def tieCells (options : NormalizeOptions) (nl : Netlist) : Set CellId :=
  {id | ∃ c, nl.cell? id = some c ∧ (options.tieValue c.cellType).isSome}

/-- The cells that are queued for removal. -/
def queuedCells (nl : Netlist) : Set CellId := {id | nl.isMarked id = true}

/-- The cells that are not of a kept type and have outputs, whose sinks are all in
the set, of a type that ties its outputs, or queued. -/
def deadStep (options : NormalizeOptions) (nl : Netlist) : Set CellId →o Set CellId where
  toFun X := {id | ∃ c, nl.cell? id = some c ∧ c.cellType ∉ options.keepTypes ∧
    (∃ p ∈ c.ports, p.direction = .output) ∧
    ∀ p ∈ c.ports, p.direction = .output → ∀ k n, p.net = some k → nl.net? k = some n →
      ∀ q ∈ n.sinks, q.cell ∈ tieCells options nl ∪ queuedCells nl ∪ X}
  monotone' := by
    rintro X Y hXY id ⟨c, hc, hkeep, houtput, hsinks⟩
    refine ⟨c, hc, hkeep, houtput, fun p hp hd k n hk hn q hq => ?_⟩
    exact Set.union_subset_union_right _ hXY (hsinks p hp hd k n hk hn q hq)

/-- The least set that is closed under the step. -/
def deadCells (options : NormalizeOptions) (nl : Netlist) : Set CellId := (deadStep options nl).lfp

/-- The live cells of one netlist that are not live in another. -/
def removedCells (nl x : Netlist) : Set CellId :=
  {id | (nl.cell? id).isSome ∧ x.cell? id = none}

/-- The cells that normalization removes. -/
def doomed (options : NormalizeOptions) (nl : Netlist) : Set CellId :=
  tieCells options nl ∪ queuedCells nl ∪ deadCells options nl

theorem doomed_of_tie (hc : nl.bare id = some c) (hv : (options.tieValue c.cellType).isSome) :
    id ∈ doomed options nl := by
  obtain ⟨d, hd, rfl⟩ := Option.map_eq_some_iff.mp hc
  exact Or.inl (Or.inl ⟨d, hd, hv⟩)

/-- A cell is doomed if all readers of its outputs are. -/
theorem doomed_of_readers (hw : nl.WellFormed) (hc : nl.bare id = some c)
    (hkeep : c.cellType ∉ options.keepTypes) (houtput : c.hasOutput = true)
    (hreaders : ∀ port k, nl.wire ⟨id, port⟩ = some k → nl.dir ⟨id, port⟩ = some .output →
      ∀ q, nl.wire q = some k → nl.dir q ≠ some .output → q.cell ∈ doomed options nl) :
    id ∈ doomed options nl := by
  obtain ⟨d, hd, rfl⟩ := Option.map_eq_some_iff.mp hc
  refine Or.inr ?_
  rw [deadCells, ← OrderHom.map_lfp]
  rw [Cell.hasOutput_unwired] at houtput
  obtain ⟨p, hp, hout⟩ := List.any_eq_true.mp houtput
  refine ⟨d, hd, hkeep, ⟨p, hp, of_decide_eq_true hout⟩, fun p hp hout k n hk hn q hq => ?_⟩
  obtain ⟨hwire, hdir⟩ := hw.port_of_mem hd hp
  obtain ⟨hread, hsink⟩ := (hw.wired.sink_iff k n q hn).mp hq
  exact hreaders p.name k (hwire.trans hk) (hdir.trans (congrArg some hout)) q hread hsink

/-! ## What every step keeps -/

/-- In the second netlist only doomed cells are queued or removed, and the nets
between the others are as they were. -/
structure Spares (options : NormalizeOptions) (nl x : Netlist) : Prop where
  wellFormed : x.WellFormed
  cells : ∀ id c', x.bare id = some c' → ∃ c, nl.bare id = some c ∧ SameButTable options c c'
  removed : ∀ id, (nl.bare id).isSome → x.bare id = none → id ∈ doomed options nl
  marked : ∀ id, x.isMarked id = true → id ∈ doomed options nl
  /-- A cell that was queued at first has not been forgotten. -/
  queued : ∀ id, nl.isMarked id = true → x.isMarked id = true ∨ x.bare id = none
  wires : ∀ r k, x.wire r = some k → nl.wire r = some k ∨ (x.constValue k).isSome
  read : ∀ r q k, nl.wire r = some k → nl.dir r = some .output → nl.wire q = some k →
    nl.dir q ≠ some .output → r.cell ∉ doomed options nl → q.cell ∉ doomed options nl →
      x.wire r = some k ∧ x.wire q = some k

namespace Spares

theorem start (hw : nl.WellFormed) : Spares options nl nl where
  wellFormed := hw
  cells _ c hc := ⟨c, hc, .refl c⟩
  removed id hlive hnone := by
    rw [hnone] at hlive
    cases hlive
  marked _ hid := Or.inl (Or.inr hid)
  queued _ hid := Or.inl hid
  wires _ _ hr := Or.inl hr
  read _ _ _ hr _ hq _ _ _ := ⟨hr, hq⟩

theorem dir (h : Spares options nl x) (hr : x.wire r = some k) : x.dir r = nl.dir r := by
  obtain ⟨c', hc'⟩ := Option.isSome_iff_exists.mp (bare_isSome_of_wire hr)
  obtain ⟨c, hc, hsame⟩ := h.cells r.cell c' hc'
  exact hsame.dir hc hc'

/-- A net that is driven by a cell that is not doomed has no fixed value. -/
theorem not_tied (h : Spares options nl x) (hr : x.wire r = some k) (hd : x.dir r = some .output)
    (hspared : r.cell ∉ doomed options nl) (v : ConstValue) : ¬Tied options x k v := by
  intro htied
  have hwx := h.wellFormed
  rcases (tied_iff hwx).mp htied with hv | ⟨p, c', hp, hdp, hc', hv⟩
  · rw [constValue_eq_none_of_wire hwx hr hd] at hv
    cases hv
  · obtain ⟨n, hn⟩ := Option.isSome_iff_exists.mp (hwx.wired.wire_live r k hr)
    have hfirst := (hwx.wired.driver_iff k n r hn).mpr ⟨hr, hd⟩
    have hsecond := (hwx.wired.driver_iff k n p hn).mpr ⟨hp, hdp⟩
    obtain rfl := Option.some.inj (hfirst.symm.trans hsecond)
    obtain ⟨c, hc, params, rfl, -⟩ := h.cells r.cell c' hc'
    refine hspared (doomed_of_tie hc ?_)
    show (options.tieValue c.cellType).isSome
    exact Option.isSome_iff_exists.mpr ⟨v, hv⟩

theorem read_phase (h : Spares options nl x) (hphase : Phase options x x')
    (hr : nl.wire r = some k) (hd : nl.dir r = some .output) (hq : nl.wire q = some k)
    (hdq : nl.dir q ≠ some .output) (hrspared : r.cell ∉ doomed options nl)
    (hqspared : q.cell ∉ doomed options nl) : x'.wire r = some k ∧ x'.wire q = some k := by
  obtain ⟨hrx, hqx⟩ := h.read r q k hr hd hq hdq hrspared hqspared
  have hdx : x.dir r = some .output := (h.dir hrx).trans hd
  have hdqx : x.dir q ≠ some .output := by
    rw [h.dir hqx]
    exact hdq
  have hq' : x'.wire q = some k :=
    hphase.untied q k List.not_mem_nil hdqx hqx (h.not_tied hrx hdx hrspared)
  exact ⟨hphase.drivers q r k hq' (hphase.dir_ne_output hdqx) hrx hdx, hq'⟩

/-- A removable cell whose outputs are unconnected is doomed: each output was read
by doomed cells only, or it would still be connected. -/
theorem doomed_of_idle (h : Spares options nl x) (hw : nl.WellFormed)
    (hphase : Phase options x x') (hidle : Idle x' id) (hc : x.bare id = some c)
    (hremovable : Removable options c) : id ∈ doomed options nl := by
  obtain ⟨c₀, hc₀, params, rfl, -⟩ := h.cells id c hc
  rcases hremovable with htie | ⟨hkeep, houtput⟩
  · exact doomed_of_tie hc₀ htie
  by_contra hspared
  refine hspared (doomed_of_readers hw hc₀ hkeep houtput fun port k hr hd q hq hdq => ?_)
  by_contra hqspared
  obtain ⟨hr', -⟩ := h.read_phase hphase hr hd hq hdq hspared hqspared
  have hrx := (h.read ⟨id, port⟩ q k hr hd hq hdq hspared hqspared).1
  have hdir' : x'.dir ⟨id, port⟩ = some .output :=
    (hphase.dir (bare_isSome_of_wire hr')).trans ((h.dir hrx).trans hd)
  exact hidle port k hr' hdir'

theorem phase (h : Spares options nl x) (hw : nl.WellFormed) (hphase : Phase options x x') :
    Spares options nl x' where
  wellFormed := hphase.wellFormed
  cells id c'' hc'' := by
    obtain ⟨c', hc', hsame'⟩ := hphase.cells id c'' hc''
    obtain ⟨c, hc, hsame⟩ := h.cells id c' hc'
    exact ⟨c, hc, hsame.trans hsame'⟩
  removed id hlive hnone := by
    refine h.removed id hlive ?_
    cases hb : x.bare id with
    | none => rfl
    | some c =>
      have hstays := hphase.live id List.not_mem_nil (by simp [hb])
      rw [hnone] at hstays
      cases hstays
  marked id hid := by
    rcases hphase.fresh id hid with hold | ⟨hidle, c, hc, hremovable⟩
    · exact h.marked id hold
    · exact h.doomed_of_idle hw hphase hidle hc hremovable
  queued id hid := (h.queued id hid).imp (hphase.queued id) hphase.dead
  wires r k hr := by
    rcases hphase.wires r k hr with hrx | hconstant
    · refine (h.wires r k hrx).imp_right fun hconstant => ?_
      obtain ⟨v, hv⟩ := Option.isSome_iff_exists.mp hconstant
      simp [hphase.constants k v hv]
    · exact Or.inr hconstant
  read _ _ _ := h.read_phase hphase

theorem flush (h : Spares options nl x) (hflushed : Flushed x.queue.keys x x') :
    Spares options nl x' where
  wellFormed := hflushed.wellFormed
  cells id c hc := by
    rw [hflushed.bare] at hc
    split at hc
    · cases hc
    · exact h.cells id c hc
  removed id hlive hnone := by
    rw [hflushed.bare] at hnone
    split at hnone
    · next hid => exact h.marked id (mem_queue.mp hid)
    · exact h.removed id hlive hnone
  marked id hid := h.marked id (hflushed.marked id hid)
  queued id hid := by
    refine Or.inr ?_
    rw [hflushed.bare]
    split
    · rfl
    · next hstays =>
      exact (h.queued id hid).resolve_left fun hmarked => hstays (mem_queue.mpr hmarked)
  wires r k hr := by
    refine (h.wires r k (hflushed.wire_of_some hr).2).imp_right fun hconstant => ?_
    obtain ⟨v, hv⟩ := Option.isSome_iff_exists.mp hconstant
    simp [hflushed.constants k v hv]
  read r q k hr hd hq hdq hrspared hqspared := by
    have hstays : ∀ other, other ∉ doomed options nl → other ∉ x.queue.keys :=
      fun other hother hmem => hother (h.marked other (mem_queue.mp hmem))
    obtain ⟨hrx, hqx⟩ := h.read r q k hr hd hq hdq hrspared hqspared
    exact ⟨(hflushed.wire_of_not_mem (hstays _ hrspared)).trans hrx,
      (hflushed.wire_of_not_mem (hstays _ hqspared)).trans hqx⟩

theorem round (hdistinct : options.DistinctInputs) (hw : nl.WellFormed)
    (h : Spares options nl s.netlist) (hround : Normalize.round options s = .ok report s') :
    Spares options nl s'.netlist := by
  obtain ⟨merged, folded, pruned, nl', hpasses, rfl⟩ := round_iff.mp hround
  obtain ⟨hmerge, -, -, hfold, -, -, hprune⟩ := hpasses.phases hdistinct h.wellFormed
  obtain ⟨hflushed, -⟩ := hpasses.flushed hdistinct h.wellFormed
  exact (((h.phase hw hmerge).phase hw hfold).phase hw hprune).flush hflushed

/-! ## What the fixed point adds -/

/-- The type and the outputs of a cell are those that it had at first. -/
theorem cell_of_live (h : Spares options nl x) (hc : nl.cell? id = some c) {c' : Cell}
    (hc' : x.cell? id = some c') : c'.cellType = c.cellType ∧ c'.hasOutput = c.hasOutput := by
  obtain ⟨d, hd, params, hsame, -⟩ := h.cells id c'.unwired (bare_of_cell? hc')
  obtain ⟨c₀, hc₀, rfl⟩ := Option.map_eq_some_iff.mp hd
  obtain rfl := Option.some.inj (hc.symm.trans hc₀)
  have htype : c'.unwired.cellType = c.unwired.cellType := by rw [hsame]
  refine ⟨htype, ?_⟩
  rw [← Cell.hasOutput_unwired, hsame, ← Cell.hasOutput_unwired (c := c)]
  rfl

/-- Where there is nothing left to normalize, a cell that has stayed, has outputs and
is not of a kept type has an output that a cell that has stayed has always read. -/
theorem observed (h : Spares options nl x) (hw : nl.WellFormed)
    (hnormalized : Normalized options x) (hc : nl.cell? id = some c) {c' : Cell}
    (hc' : x.cell? id = some c') (hkeep : c.cellType ∉ options.keepTypes)
    (houtput : ∃ p ∈ c.ports, p.direction = .output) :
    ∃ p ∈ c.ports, p.direction = .output ∧ ∃ k n, p.net = some k ∧ nl.net? k = some n ∧
      ∃ q ∈ n.sinks, (x.bare q.cell).isSome := by
  have hwx := h.wellFormed
  obtain ⟨htype, hsame⟩ := h.cell_of_live hc hc'
  obtain ⟨p, hp, hout⟩ := houtput
  have hany : c'.hasOutput = true := hsame.trans (List.any_eq_true.mpr ⟨p, hp, decide_eq_true hout⟩)
  obtain ⟨p, hp, hout⟩ := List.any_eq_true.mp hany
  obtain ⟨p', hp', hout', hconnected⟩ := hnormalized.observed id c' hc' (htype ▸ hkeep)
    ⟨p, hp, of_decide_eq_true hout⟩
  obtain ⟨k, hk⟩ := Option.isSome_iff_exists.mp hconnected
  obtain ⟨n', hn', hdriver, hread⟩ :=
    hnormalized.read id c' hc' (htype ▸ hkeep) p' hp' hout' k hk
  obtain ⟨q, hq⟩ := List.exists_mem_of_ne_nil _ hread
  obtain ⟨hr, hd⟩ := (hwx.wired.driver_iff k n' _ hn').mp hdriver
  obtain ⟨hqx, hdq⟩ := (hwx.wired.sink_iff k n' q hn').mp hq
  -- The net has a driver, so it is not constant and both ports were on it at first.
  have hfree : x.constValue k = none := constValue_eq_none_of_wire hwx hr hd
  have hback : ∀ r, x.wire r = some k → nl.wire r = some k := fun r hrx =>
    (h.wires r k hrx).resolve_right (by simp [hfree])
  obtain ⟨p₀, hp₀, -, hnet, hdir⟩ := exists_port_of_wire hc (hback _ hr)
  have hout₀ : p₀.direction = .output :=
    Option.some.inj (hdir.symm.trans ((h.dir hr).symm.trans hd))
  obtain ⟨n, hn⟩ := Option.isSome_iff_exists.mp (hw.wired.wire_live _ _ (hback _ hr))
  refine ⟨p₀, hp₀, hout₀, k, n, hnet, hn, q, ?_, bare_isSome_of_wire hqx⟩
  refine (hw.wired.sink_iff k n q hn).mpr ⟨hback q hqx, ?_⟩
  rw [← h.dir hqx]
  exact hdq

theorem tie_removed (h : Spares options nl x) (hnormalized : Normalized options x) :
    tieCells options nl ⊆ removedCells nl x := by
  rintro id ⟨c, hc, hv⟩
  refine ⟨by simp [hc], ?_⟩
  cases hc' : x.cell? id with
  | none => rfl
  | some c' =>
    rw [← (h.cell_of_live hc hc').1, hnormalized.untied id c' hc'] at hv
    cases hv

theorem queued_removed (h : Spares options nl x) (hw : nl.WellFormed)
    (hnormalized : Normalized options x) : queuedCells nl ⊆ removedCells nl x := by
  intro id hid
  refine ⟨hw.queue_live id hid, bare_eq_none.mp ((h.queued id hid).resolve_left ?_)⟩
  rw [hnormalized.unqueued]
  exact Bool.false_ne_true

/-- The removed cells are closed under the step, so all dead cells are among them. -/
theorem dead_removed (h : Spares options nl x) (hw : nl.WellFormed)
    (hnormalized : Normalized options x) : deadCells options nl ⊆ removedCells nl x := by
  refine OrderHom.lfp_le _ ?_
  rintro id ⟨c, hc, hkeep, houtput, hsinks⟩
  refine ⟨by simp [hc], ?_⟩
  cases hc' : x.cell? id with
  | none => rfl
  | some c' =>
    obtain ⟨p, hp, hout, k, n, hk, hn, q, hq, hlive⟩ :=
      h.observed hw hnormalized hc hc' hkeep houtput
    have hgone : q.cell ∈ removedCells nl x := by
      rcases hsinks p hp hout k n hk hn q hq with (hmem | hmem) | hmem
      · exact h.tie_removed hnormalized hmem
      · exact h.queued_removed hw hnormalized hmem
      · exact hmem
    rw [bare_eq_none.mpr hgone.2] at hlive
    cases hlive

end Spares

/-- Normalization removes the tie cells, the cells queued before, and the dead cells,
and no other. -/
theorem normalize_removes_dead_logic {config : Config} (hvalid : config.validate = .ok ())
    (hoptions : ((NormalizeOptions.ofConfig config).run names).1 = options)
    (hw : s.netlist.WellFormed) (h : normalize options s = .ok report s') :
    removedCells s.netlist s'.netlist =
      tieCells options s.netlist ∪ queuedCells s.netlist ∪ deadCells options s.netlist := by
  have hdistinct : options.DistinctInputs := by
    rw [← hoptions]
    exact distinctInputs_of_validate names hvalid
  obtain ⟨t, hrounds, -, hnetlist⟩ := normalize_rounds h
  obtain ⟨u, hu, hlast⟩ := rounds_last (Spares options s.netlist)
    (fun _ _ _ hx hround => hx.round hdistinct hw hround) (.start hw) hrounds
  have hend : Spares options s.netlist s'.netlist := by
    rw [hnetlist]
    exact hu.round hdistinct hw hlast
  obtain ⟨-, hnormalized, -⟩ := normalize_last hdistinct hw h
  refine Set.Subset.antisymm ?_ (Set.union_subset (Set.union_subset ?_ ?_) ?_)
  · rintro id ⟨hlive, hnone⟩
    exact hend.removed id (bare_isSome ▸ hlive) (bare_eq_none.mpr hnone)
  · exact hend.tie_removed hnormalized
  · exact hend.queued_removed hw hnormalized
  · exact hend.dead_removed hw hnormalized

/-! ## A chain and a loop -/

namespace Unobserved

/-- The pad drives the table in cell 1, which drives the one in cell 2; nothing reads
that.  The tables in cells 3 and 4 read each other.  Cell 5 is queued. -/
def session : Session := (Session.start TiedInput.names).after [
  .createCell ⟨4⟩ "pad", .createCell ⟨3⟩ "first", .createCell ⟨3⟩ "second",
  .createCell ⟨3⟩ "left", .createCell ⟨3⟩ "right", .createCell ⟨4⟩ "spare",
  .createNet "a", .createNet "b", .createNet "c", .createNet "d", .createNet "e",
  .addPort ⟨0⟩ ⟨6⟩ .output,
  .addPort ⟨1⟩ ⟨1⟩ .input, .addPort ⟨1⟩ ⟨6⟩ .output,
  .addPort ⟨2⟩ ⟨1⟩ .input, .addPort ⟨2⟩ ⟨6⟩ .output,
  .addPort ⟨3⟩ ⟨1⟩ .input, .addPort ⟨3⟩ ⟨6⟩ .output,
  .addPort ⟨4⟩ ⟨1⟩ .input, .addPort ⟨4⟩ ⟨6⟩ .output,
  .connect ⟨0⟩ ⟨6⟩ ⟨0⟩, .connect ⟨1⟩ ⟨1⟩ ⟨0⟩,
  .connect ⟨1⟩ ⟨6⟩ ⟨1⟩, .connect ⟨2⟩ ⟨1⟩ ⟨1⟩, .connect ⟨2⟩ ⟨6⟩ ⟨2⟩,
  .connect ⟨3⟩ ⟨6⟩ ⟨3⟩, .connect ⟨4⟩ ⟨1⟩ ⟨3⟩,
  .connect ⟨4⟩ ⟨6⟩ ⟨4⟩, .connect ⟨3⟩ ⟨1⟩ ⟨4⟩,
  .markForRemoval ⟨5⟩]

end Unobserved

/-- The second table goes in the first round and the first one in the next. -/
theorem unobserved_removed : ∃ s',
    normalize TiedInput.settings Unobserved.session = .ok ⟨0, 0, 2, 3⟩ s' ∧
      removedCells Unobserved.session.netlist s'.netlist =
        tieCells TiedInput.settings Unobserved.session.netlist ∪
          queuedCells Unobserved.session.netlist ∪
            deadCells TiedInput.settings Unobserved.session.netlist := by
  have hw : Unobserved.session.netlist.WellFormed :=
    Session.wellFormed_after_of_wellFormed Wired.empty.wellFormed _
  obtain ⟨s', h⟩ : ∃ s', normalize TiedInput.settings Unobserved.session = .ok ⟨0, 0, 2, 3⟩ s' :=
    exists_ok_of_returned (by decide +kernel)
  exact ⟨s', h, normalize_removes_dead_logic TiedInput.validate_config TiedInput.ofConfig_config
    hw h⟩

end Normalize
end FpgaPacking
