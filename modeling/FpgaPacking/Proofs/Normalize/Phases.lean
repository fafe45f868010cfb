import FpgaPacking.Proofs.Normalize.Steps

/-!
# What the phases of a round establish

A round merges, folds, prunes and flushes.  Merging leaves no net to a tie cell,
folding leaves no table input on a constant net, and whenever a cell is queued
for removal its outputs are connected to nothing.  Later phases keep what earlier
ones established: outputs never move, and after merging nothing is put on a net
any more.  `Cuts` is `Refines` for steps of that second kind.  `Phase` is `Refines`
for steps up to the flush, with what they do to the queue.
-/

namespace FpgaPacking
namespace Normalize

open Netlist

variable {options : NormalizeOptions} {gone : List CellId} {nl nl' nl'' : Netlist} {r : PortRef}
  {k : NetId} {id : CellId} {c : Cell}

/-! ## Listed outputs -/

theorem mem_outputs (hw : nl.WellFormed) (hc : nl.cell? id = some c) {output : Ident × NetId} :
    output ∈ c.outputs ↔
      nl.wire ⟨id, output.1⟩ = some output.2 ∧ nl.dir ⟨id, output.1⟩ = some .output := by
  obtain ⟨name, k⟩ := output
  unfold Cell.outputs
  rw [List.mem_filterMap]
  constructor
  · rintro ⟨p, hp, hpair⟩
    obtain ⟨hwire, hdir⟩ := hw.port_of_mem hc hp
    split at hpair
    · next hd =>
      obtain ⟨k', hk', hpair⟩ := Option.map_eq_some_iff.mp hpair
      obtain ⟨rfl, rfl⟩ := Prod.mk.inj hpair
      exact ⟨hwire.trans hk', hd ▸ hdir⟩
    · cases hpair
  · rintro ⟨hwire, hdir⟩
    obtain ⟨p, hp, hname, hk, hd⟩ := exists_port_of_wire hc hwire
    refine ⟨p, hp, ?_⟩
    rw [if_pos (Option.some.inj (hd.symm.trans hdir)), hk, hname]
    rfl

/-- The outputs of a cell are distinct ports. -/
theorem nodup_outputs (hw : nl.WellFormed) (hc : nl.cell? id = some c) :
    (c.outputs.map (·.1)).Nodup := by
  have hsub : ∀ ports : List Port, List.Sublist
      ((ports.filterMap fun p =>
        if p.direction = .output then p.net.map fun n => (p.name, n) else none).map (·.1))
      (ports.map (·.name)) := by
    intro ports
    induction ports with
    | nil => exact List.Sublist.refl _
    | cons p ports ih =>
      rw [List.map_cons, List.filterMap_cons]
      split
      · exact ih.cons _
      · next output hout =>
        have hname : output.1 = p.name := by
          split at hout
          · obtain ⟨n, -, rfl⟩ := Option.map_eq_some_iff.mp hout
            rfl
          · cases hout
        rw [List.map_cons, hname]
        exact ih.cons_cons _
  exact (hw.port_names id c hc).sublist (hsub c.ports)

/-! ## Cutting -/

/-- A refinement that puts no port on a net. -/
structure Cuts (options : NormalizeOptions) (gone : List CellId) (nl nl' : Netlist) : Prop
    extends Refines options gone nl nl' where
  fewer : ∀ r k, nl'.wire r = some k → nl.wire r = some k

namespace Cuts

theorem refl (hw : nl.WellFormed) : Cuts options gone nl nl := ⟨.refl hw, fun _ _ h => h⟩

theorem trans (h : Cuts options gone nl nl') (h' : Cuts options gone nl' nl'')
    (hw : nl.WellFormed) : Cuts options gone nl nl'' where
  toRefines := h.toRefines.trans h'.toRefines hw
  fewer r k hr := h.fewer r k (h'.fewer r k hr)

/-- Taking one port off its net cuts. -/
theorem of_disconnect (h : Refines options gone nl nl')
    (hwire : nl'.wire = Function.update nl.wire r none) : Cuts options gone nl nl' where
  toRefines := h
  fewer q k hq := by
    by_cases hqr : q = r
    · rw [hqr, hwire, Function.update_self] at hq
      cases hq
    · rw [hwire, Function.update_of_ne hqr] at hq
      exact hq

/-- No net that a port is on becomes constant. -/
theorem constValue (h : Cuts options gone nl nl') (hw : nl.WellFormed) (hr : nl'.wire r = some k)
    (hk : nl.constValue k = none) : nl'.constValue k = none := by
  cases hv : nl'.constValue k with
  | none => rfl
  | some v =>
    have hback := h.constValue_back (hw.wired.tag_isSome_of_wire (h.fewer r k hr)) hv
    rw [hk] at hback
    cases hback

end Cuts

/-! ## What is established -/

/-- The outputs of cells that are queued for removal are connected to nothing. -/
def Quiet (nl : Netlist) : Prop :=
  ∀ r k, nl.isMarked r.cell = true → nl.wire r = some k → nl.dir r ≠ some .output

/-- The port does not drive a net for a cell that ties its outputs. -/
def Untied (options : NormalizeOptions) (nl : Netlist) (r : PortRef) : Prop :=
  ∀ k c, nl.wire r = some k → nl.dir r = some .output → nl.bare r.cell = some c →
    options.tieValue c.cellType = none

/-- The port is not an input of a truth table on a constant net. -/
def Clear (options : NormalizeOptions) (nl : Netlist) (r : PortRef) : Prop :=
  ∀ k, nl.wire r = some k → Foldable options nl r → nl.constValue k = none

theorem marked_of_queue (h : nl'.queue = nl.queue) (other : CellId)
    (hother : nl'.isMarked other = true) : nl.isMarked other = true := by
  unfold isMarked at hother ⊢
  rw [← h]
  exact hother

theorem Untied.refines (hu : Untied options nl r) (h : Refines options gone nl nl') :
    Untied options nl' r := by
  intro k c' hwire hdir hc'
  obtain ⟨hwire₀, hdir₀⟩ := h.output hwire hdir
  obtain ⟨c, hc, params, rfl, -⟩ := h.cells r.cell c' hc'
  exact hu k c hwire₀ hdir₀ hc

theorem Clear.cuts (hclear : Clear options nl r) (h : Cuts options gone nl nl')
    (hw : nl.WellFormed) : Clear options nl' r := fun k hwire hfold =>
  h.constValue hw hwire (hclear k (h.fewer r k hwire) (h.foldable_back hfold))

/-! ## Queueing -/

/-- No output of the cell is connected. -/
def Idle (nl : Netlist) (id : CellId) : Prop :=
  ∀ port k, nl.wire ⟨id, port⟩ = some k → nl.dir ⟨id, port⟩ ≠ some .output

theorem Idle.refines (hidle : Idle nl id) (h : Refines options gone nl nl') : Idle nl' id := by
  intro port k hwire hdir
  obtain ⟨hwire₀, hdir₀⟩ := h.output hwire hdir
  exact hidle port k hwire₀ hdir₀

theorem Idle.wire_eq_none {port : Ident} (hidle : Idle nl id)
    (hd : nl.dir ⟨id, port⟩ = some .output) : nl.wire ⟨id, port⟩ = none := by
  cases hwire : nl.wire ⟨id, port⟩ with
  | none => rfl
  | some k => exact absurd hd (hidle port k hwire)

/-- Normalization may remove the cell: its type ties its outputs, or it has outputs
and is not of a kept type. -/
def Removable (options : NormalizeOptions) (c : Cell) : Prop :=
  (options.tieValue c.cellType).isSome ∨ c.cellType ∉ options.keepTypes ∧ c.hasOutput

/-- A refinement that takes no cell out of the queue and queues only removable cells
whose outputs are not connected. -/
structure Phase (options : NormalizeOptions) (nl nl' : Netlist) : Prop
    extends Refines options [] nl nl' where
  queued : ∀ id, nl.isMarked id = true → nl'.isMarked id = true
  fresh : ∀ id, nl'.isMarked id = true → nl.isMarked id = true ∨
    Idle nl' id ∧ ∃ c, nl.bare id = some c ∧ Removable options c

namespace Phase

theorem of_queue (h : Refines options [] nl nl') (hqueue : nl'.queue = nl.queue) :
    Phase options nl nl' where
  toRefines := h
  queued := marked_of_queue hqueue.symm
  fresh id hid := Or.inl (marked_of_queue hqueue id hid)

theorem refl (hw : nl.WellFormed) : Phase options nl nl := .of_queue (.refl hw) rfl

theorem trans (h : Phase options nl nl') (h' : Phase options nl' nl'') (hw : nl.WellFormed) :
    Phase options nl nl'' where
  toRefines := h.toRefines.trans h'.toRefines hw
  queued id hid := h'.queued id (h.queued id hid)
  fresh id hid := by
    rcases h'.fresh id hid with hold | ⟨hidle, c', hc', hremovable⟩
    · rcases h.fresh id hold with hold | ⟨hidle, hcell⟩
      · exact Or.inl hold
      · exact Or.inr ⟨hidle.refines h'.toRefines, hcell⟩
    · obtain ⟨c, hc, params, rfl, -⟩ := h.cells id c' hc'
      exact Or.inr ⟨hidle, c, hc, hremovable⟩

/-- Queueing a removable cell whose outputs are not connected. -/
theorem of_mark {names : Names} {u : Unit} (hw : nl.WellFormed) (hidle : Idle nl id)
    (hc : nl.bare id = some c) (hremovable : Removable options c)
    (h : Edit.markForRemoval id names nl = .ok u nl') :
    Phase options nl nl' ∧ nl'.isMarked id = true ∧ nl'.wire = nl.wire := by
  obtain ⟨hw', hwire, hbare, htag, hnext, hmarked, hqueued, hself⟩ := Edit.markForRemoval_ok hw h
  have href : Refines options [] nl nl' := .of_same_tags hw hw' hwire hbare htag hnext
  refine ⟨⟨href, hqueued, fun other hother => ?_⟩, hself (by simp [hc]), hwire⟩
  rcases hmarked other hother with hold | rfl
  · exact Or.inl hold
  · exact Or.inr ⟨hidle.refines href, c, hc, hremovable⟩

end Phase

theorem Quiet.phase (hq : Quiet nl) (h : Phase options nl nl') : Quiet nl' := by
  rintro ⟨id, port⟩ k hr hwire hdir
  rcases h.fresh id hr with hold | ⟨hidle, -⟩
  · obtain ⟨hwire₀, hdir₀⟩ := h.output hwire hdir
    exact hq _ k hold hwire₀ hdir₀
  · exact hidle port k hwire hdir

end Normalize
end FpgaPacking
