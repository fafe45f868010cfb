import FpgaPacking.Proofs.Normalize.Weight

/-!
# Pruning dead outputs

An output whose net has no reader can be disconnected, and a net that nothing is
connected to can be removed.  A cell is queued only when none of its outputs is
connected, so removing it later cuts nothing that is read.
-/

namespace FpgaPacking
namespace Normalize

open Netlist

variable {options : NormalizeOptions} {names : Names} {nl nl' : Netlist} {id : CellId} {c : Cell}

/-- Of the cells that are not to be removed, no table input is on a constant net. -/
def Folded (options : NormalizeOptions) (nl : Netlist) : Prop :=
  ∀ r, nl.isMarked r.cell = false → Clear options nl r

theorem Folded.cuts (hfolded : Folded options nl) {gone : List CellId}
    (h : Cuts options gone nl nl') (hw : nl.WellFormed)
    (hmarked : ∀ id, nl.isMarked id = true → nl'.isMarked id = true) : Folded options nl' := by
  intro r hr
  refine (hfolded r ?_).cuts h hw
  cases hold : nl.isMarked r.cell with
  | false => rfl
  | true =>
    rw [hmarked _ hold] at hr
    cases hr

/-- Pruning an output moves no other port. -/
theorem pruneOutput_wire {output : Ident × NetId} {u : Unit} (hw : nl.WellFormed)
    (h : pruneOutput id output names nl = .ok u nl') :
    nl'.WellFormed ∧ nl'.wire = Function.update nl.wire ⟨id, output.1⟩ none := by
  unfold pruneOutput at h
  obtain ⟨_, nl₁, hcut, hlookup⟩ := Edit.bind_ok.mp h
  obtain ⟨n, nl₂, hnet, hchoice⟩ := Edit.bind_ok.mp hlookup
  obtain ⟨-, rfl⟩ := Edit.net_ok hnet
  obtain ⟨hw₂, hwire₂, -⟩ := Edit.disconnect_ok hw hcut
  split at hchoice
  · obtain ⟨_, nl₃, hremove, hend⟩ := Edit.bind_ok.mp hchoice
    obtain ⟨-, rfl⟩ := Edit.pure_ok.mp hend
    obtain ⟨hw₃, hwire₃, -⟩ := Edit.removeNet_ok hw₂ hremove
    exact ⟨hw₃, hwire₃.trans hwire₂⟩
  · obtain ⟨-, rfl⟩ := Edit.pure_ok.mp hchoice
    exact ⟨hw₂, hwire₂⟩

/-- An output that nothing reads is disconnected, and its net goes if it was the last on it. -/
theorem pruneOutput_ok {output : Ident × NetId} {u : Unit} (hw : nl.WellFormed)
    (hd : nl.dir ⟨id, output.1⟩ = some .output) (hconst : nl.constValue output.2 = none)
    (hunread : ∀ k q, nl.wire ⟨id, output.1⟩ = some k → nl.wire q = some k →
      nl.dir q = some .output)
    (h : pruneOutput id output names nl = .ok u nl') :
    Cuts options [] nl nl' ∧ nl'.queue = nl.queue ∧ nl'.wire ⟨id, output.1⟩ = none := by
  have hoff : nl'.wire ⟨id, output.1⟩ = none := by
    rw [(pruneOutput_wire hw h).2, Function.update_self]
  unfold pruneOutput at h
  obtain ⟨_, nl₁, hcut, hlookup⟩ := Edit.bind_ok.mp h
  obtain ⟨n, nl₂, hnet, hchoice⟩ := Edit.bind_ok.mp hlookup
  obtain ⟨hn, rfl⟩ := Edit.net_ok hnet
  obtain ⟨hw₂, hwire₂, hbare₂, htag₂, -⟩ := Edit.disconnect_ok hw hcut
  obtain ⟨hqueue₂, hnext₂⟩ := Edit.disconnect_frame hcut
  have href : Refines options [] nl nl₂ := by
    refine .of_update hw hw₂ hwire₂ hbare₂ htag₂ hnext₂ nofun (fun _ => hunread) fun _ hnot => ?_
    exact absurd hd hnot
  have hcuts : Cuts options [] nl nl₂ := .of_disconnect href hwire₂
  split at hchoice
  · obtain ⟨_, nl₃, hremove, hend⟩ := Edit.bind_ok.mp hchoice
    obtain ⟨-, rfl⟩ := Edit.pure_ok.mp hend
    obtain ⟨hw₃, hwire₃, hbare₃, hqueue₃, hnext₃, htag₃⟩ := Edit.removeNet_ok hw₂ hremove
    have hfree : nl₂.constValue output.2 = none := by
      rw [constValue_eq, htag₂, ← constValue_eq]
      exact hconst
    have hremoved : Refines options [] nl₂ nl₃ :=
      .of_removedNet hw₂ hw₃ hwire₃ hbare₃ hnext₃ htag₃ hfree
    exact ⟨hcuts.trans ⟨hremoved, fun q k hq => hwire₃ ▸ hq⟩ hw, hqueue₃.trans hqueue₂, hoff⟩
  · obtain ⟨-, rfl⟩ := Edit.pure_ok.mp hchoice
    exact ⟨hcuts, hqueue₂, hoff⟩

/-- The port drives the net and nothing reads it. -/
def Unused (nl : Netlist) (id : CellId) (output : Ident × NetId) : Prop :=
  nl.wire ⟨id, output.1⟩ = some output.2 ∧ nl.dir ⟨id, output.1⟩ = some .output ∧
    ∀ q, nl.wire q = some output.2 → nl.dir q = some .output

/-- An unused output may be pruned after any cuts. -/
theorem Unused.prune {output : Ident × NetId} {x x' : Netlist} {u : Unit}
    (h : Unused nl id output) (hw : nl.WellFormed) (hcuts : Cuts options [] nl x)
    (hprune : pruneOutput id output names x = .ok u x') :
    Cuts options [] x x' ∧ x'.queue = x.queue ∧ x'.wire ⟨id, output.1⟩ = none := by
  obtain ⟨hm, hd, hunread⟩ := h
  have hlive : (x.bare id).isSome := hcuts.live id List.not_mem_nil (bare_isSome_of_wire hm)
  have hdx : x.dir ⟨id, output.1⟩ = some .output := (hcuts.dir hlive).trans hd
  have hconst : x.constValue output.2 = none := by
    cases hv : x.constValue output.2 with
    | none => rfl
    | some v =>
      have hback := hcuts.constValue_back (hw.wired.tag_isSome_of_wire hm) hv
      rw [constValue_eq_none_of_wire hw hm hd] at hback
      cases hback
  have hunread' : ∀ k q, x.wire ⟨id, output.1⟩ = some k → x.wire q = some k →
      x.dir q = some .output := by
    intro k q hk hq
    obtain rfl := Option.some.inj (hm.symm.trans (hcuts.fewer _ k hk))
    rw [hcuts.dir (bare_isSome_of_wire hq)]
    exact hunread q (hcuts.fewer q _ hq)
  exact pruneOutput_ok hcuts.wellFormed hdx hconst hunread' hprune

/-- While unused outputs of a cell are pruned: those that have been visited are off their nets. -/
structure OutputsPruned (options : NormalizeOptions) (nl : Netlist) (id : CellId)
    (dead rest : List (Ident × NetId)) (x : Netlist) : Prop where
  cuts : Cuts options [] nl x
  queue : x.queue = nl.queue
  pending : ∀ output ∈ rest, output ∈ dead
  off : ∀ output ∈ dead, output ∉ rest → x.wire ⟨id, output.1⟩ = none

theorem OutputsPruned.step {output : Ident × NetId} {dead rest : List (Ident × NetId)}
    {x x' : Netlist} {u : Unit} (h : OutputsPruned options nl id dead (output :: rest) x)
    (hw : nl.WellFormed) (hdead : ∀ output ∈ dead, Unused nl id output)
    (hprune : pruneOutput id output names x = .ok u x') :
    OutputsPruned options nl id dead rest x' := by
  have hunused := hdead output (h.pending output List.mem_cons_self)
  obtain ⟨hstep, hqueue, hoff⟩ := hunused.prune hw h.cuts hprune
  refine ⟨h.cuts.trans hstep hw, hqueue.trans h.queue,
    fun other ho => h.pending other (List.mem_cons_of_mem _ ho), fun other ho hrest => ?_⟩
  by_cases he : other = output
  · rw [he]
    exact hoff
  · have hbefore := h.off other ho (by simp [he, hrest])
    cases hwire : x'.wire ⟨id, other.1⟩ with
    | none => rfl
    | some k =>
      rw [hstep.fewer _ k hwire] at hbefore
      cases hbefore

theorem pruneOutputs_ok (options : NormalizeOptions) {dead : List (Ident × NetId)} {u : Unit}
    (hw : nl.WellFormed)
    (hdead : ∀ output ∈ dead, Unused nl id output)
    (h : dead.forM (pruneOutput id) names nl = .ok u nl') :
    Cuts options [] nl nl' ∧ nl'.queue = nl.queue ∧
      ∀ output ∈ dead, nl'.wire ⟨id, output.1⟩ = none := by
  have hend : OutputsPruned options nl id dead [] nl' :=
    Edit.forM_ok (OutputsPruned options nl id dead)
      (fun _ _ _ _ _ hpruned hprune => hpruned.step hw hdead hprune)
      ⟨.refl hw, rfl, fun _ h => h, fun _ h h' => absurd h h'⟩ h
  exact ⟨hend.cuts, hend.queue, fun output ho => hend.off output ho List.not_mem_nil⟩

/-! ## Cells -/

/-- The connected outputs of a cell whose nets have no sink. -/
def deadOutputs (nl : Netlist) (c : Cell) : List (Ident × NetId) :=
  c.outputs.filter fun output => (nl.net? output.2).any fun n => n.sinks.isEmpty

theorem unreadTest_ok {k : NetId} {b : Bool}
    (h : (do return (← Edit.net k).sinks.isEmpty : Edit Bool) names nl = .ok b nl') :
    nl' = nl ∧ ∃ n, nl.net? k = some n ∧ b = n.sinks.isEmpty := by
  obtain ⟨n, nl₁, hnet, hb⟩ := Edit.bind_ok.mp h
  obtain ⟨rfl, rfl⟩ := Edit.pure_ok.mp hb
  obtain ⟨hn, rfl⟩ := Edit.net_ok hnet
  exact ⟨rfl, n, hn, rfl⟩

/-- The course of a visit to a cell. -/
theorem pruneCell_inv {pruned pruned' : Nat}
    (h : pruneCell options pruned id names nl = .ok pruned' nl') :
    ∃ c, nl.cell? id = some c ∧
      ((c.cellType ∈ options.keepTypes ∨ nl.isMarked id = true) ∧ pruned' = pruned ∧ nl' = nl ∨
        (c.cellType ∉ options.keepTypes ∧ nl.isMarked id = false) ∧
          pruned' = pruned + (deadOutputs nl c).length ∧
          (∀ output ∈ c.outputs, ∃ n, nl.net? output.2 = some n) ∧
          ∃ u x c', (deadOutputs nl c).forM (pruneOutput id) names nl = .ok u x ∧
            x.cell? id = some c' ∧
            ((c.hasOutput = true ∧ c'.outputs = []) ∧
                Edit.markForRemoval id names x = .ok () nl' ∨
              ¬(c.hasOutput = true ∧ c'.outputs = []) ∧ nl' = x)) := by
  unfold pruneCell at h
  obtain ⟨c, nl₁, hcell, hget⟩ := Edit.bind_ok.mp h
  obtain ⟨_, nl₂, hnl, hchoice⟩ := Edit.bind_ok.mp hget
  obtain ⟨hc, rfl⟩ := Edit.cell_ok hcell
  obtain ⟨rfl, rfl⟩ := Edit.get_ok.mp hnl
  refine ⟨c, hc, ?_⟩
  split at hchoice
  · next hskip =>
    obtain ⟨rfl, rfl⟩ := Edit.pure_ok.mp hchoice
    rw [Bool.or_eq_true, decide_eq_true_eq] at hskip
    exact Or.inl ⟨hskip, rfl, rfl⟩
  · next hvisit =>
    rw [Bool.or_eq_true, decide_eq_true_eq, not_or, Bool.not_eq_true] at hvisit
    obtain ⟨dead, nl₂, hfilter, hprune⟩ := Edit.bind_ok.mp hchoice
    obtain ⟨_, nl₃, hloop, hmore⟩ := Edit.bind_ok.mp hprune
    obtain ⟨c', nl₄, hcell', hmark⟩ := Edit.bind_ok.mp hmore
    obtain ⟨hc', rfl⟩ := Edit.cell_ok hcell'
    obtain ⟨rfl, hkept, htested⟩ :=
      Edit.filterM_ok (fun _ _ _ _ hx => (unreadTest_ok hx).1) hfilter
    have hdead : dead = deadOutputs nl₂ c := by
      rw [hkept]
      refine List.filter_congr fun output ho => ?_
      obtain ⟨b, hb⟩ := htested output ho
      obtain ⟨-, n, hn, rfl⟩ := unreadTest_ok hb
      rw [hb, hn, returned?, Option.any_some]
      cases n.sinks.isEmpty <;> rfl
    subst hdead
    refine Or.inr ⟨hvisit, ?_⟩
    have hlive : ∀ output ∈ c.outputs, ∃ n, nl₂.net? output.2 = some n := by
      intro output ho
      obtain ⟨b, hb⟩ := htested output ho
      obtain ⟨-, n, hn, -⟩ := unreadTest_ok hb
      exact ⟨n, hn⟩
    split at hmark
    · next hidle =>
      obtain ⟨_, nl₅, hmarking, hend⟩ := Edit.bind_ok.mp hmark
      obtain ⟨rfl, rfl⟩ := Edit.pure_ok.mp hend
      rw [Bool.and_eq_true, List.isEmpty_iff] at hidle
      exact ⟨rfl, hlive, _, nl₄, c', hloop, hc', Or.inl ⟨hidle, hmarking⟩⟩
    · next hbusy =>
      obtain ⟨rfl, rfl⟩ := Edit.pure_ok.mp hmark
      rw [Bool.and_eq_true, List.isEmpty_iff] at hbusy
      exact ⟨rfl, hlive, _, nl₄, c', hloop, hc', Or.inr ⟨hbusy, rfl⟩⟩

theorem unused_of_mem_deadOutputs (hw : nl.WellFormed) (hc : nl.cell? id = some c)
    {output : Ident × NetId} (h : output ∈ deadOutputs nl c) : Unused nl id output := by
  obtain ⟨ho, hempty⟩ := List.mem_filter.mp h
  obtain ⟨hm, hd⟩ := (mem_outputs hw hc).mp ho
  obtain ⟨n, hn⟩ := Option.isSome_iff_exists.mp (hw.wired.wire_live _ _ hm)
  rw [hn] at hempty
  refine ⟨hm, hd, fun q hq => ?_⟩
  by_contra hreader
  have hsink := (hw.wired.sink_iff output.2 n q hn).mpr ⟨hq, hreader⟩
  rw [List.isEmpty_iff.mp hempty] at hsink
  cases hsink

/-- Pruning a cell disconnects only what is not read and queues only cells without
connected outputs. -/
theorem pruneCell_ok {pruned pruned' : Nat} (hw : nl.WellFormed)
    (h : pruneCell options pruned id names nl = .ok pruned' nl') :
    Cuts options [] nl nl' ∧ Phase options nl nl' ∧
      ∃ n, pruned' = pruned + n ∧ Progress n nl nl' := by
  obtain ⟨c, hc, ⟨-, rfl, rfl⟩ | ⟨⟨hkeep, -⟩, rfl, -, u, x, c', hloop, hc', hmark⟩⟩ :=
    pruneCell_inv h
  · exact ⟨.refl hw, .refl hw, 0, rfl, .refl _⟩
  obtain ⟨hcuts, hqueue, hoff⟩ :=
    pruneOutputs_ok options hw (fun _ => unused_of_mem_deadOutputs hw hc) hloop
  have hwx := hcuts.wellFormed
  have hphase : Phase options nl x := .of_queue hcuts.toRefines hqueue
  have hend : Cuts options [] nl nl' ∧ Phase options nl nl' ∧ nl'.wire = x.wire ∧
      ((∀ id, nl'.isMarked id = false) → nl' = x) := by
    rcases hmark with ⟨⟨houtput, hnone⟩, hmarking⟩ | ⟨-, rfl⟩
    · have hbare' : x.bare id = some c'.unwired := bare_of_cell? hc'
      have hidle : Idle x id := by
        intro port k hk hd
        have hout : (port, k) ∈ c'.outputs := (mem_outputs hwx hc').mpr ⟨hk, hd⟩
        rw [hnone] at hout
        cases hout
      have hremovable : Removable options c'.unwired := by
        obtain ⟨d, hd, params, hsame, -⟩ := hcuts.cells id _ hbare'
        obtain ⟨c₀, hc₀, rfl⟩ := Option.map_eq_some_iff.mp hd
        obtain rfl := Option.some.inj (hc.symm.trans hc₀)
        rw [hsame]
        exact Or.inr ⟨hkeep, Cell.hasOutput_unwired.trans houtput⟩
      obtain ⟨hmarks, hmarked, hwire⟩ := Phase.of_mark hwx hidle hbare' hremovable hmarking
      refine ⟨hcuts.trans ⟨hmarks.toRefines, fun q k hq => hwire ▸ hq⟩ hw, hphase.trans hmarks hw,
        hwire, fun hunmarked => ?_⟩
      rw [hunmarked] at hmarked
      cases hmarked
    · exact ⟨hcuts, hphase, rfl, fun _ => rfl⟩
  obtain ⟨hcuts', hphase', hwire, hfixed⟩ := hend
  refine ⟨hcuts', hphase', _, rfl, .of_cut id hphase'.toRefines hw ?_ ?_ ?_ ?_⟩
  · exact (nodup_outputs hw hc).sublist (List.Sublist.map _ List.filter_sublist)
  · exact fun output ho => (unused_of_mem_deadOutputs hw hc ho).1
  · intro output ho
    rw [hwire]
    exact hoff output ho
  · intro hnone hunmarked
    rw [hnone] at hloop
    obtain ⟨-, rfl⟩ := Edit.pure_ok.mp hloop
    exact hfixed hunmarked

theorem counts_pruneCell : Counts (pruneCell options) := by
  intro names pruned id nl pruned' nl' hw h
  obtain ⟨hcuts, -, hprogress⟩ := pruneCell_ok hw h
  exact ⟨hcuts.wellFormed, hprogress⟩

/-- A cell of which a visit changes nothing has its outputs read, if its type is not kept. -/
theorem read_of_pruneCell {pruned : Nat} (hw : nl.WellFormed) (hc : nl.cell? id = some c)
    (hkeep : c.cellType ∉ options.keepTypes) (hunmarked : nl.isMarked id = false)
    (h : pruneCell options pruned id names nl = .ok pruned nl) :
    (∀ output ∈ c.outputs, ∃ n, nl.net? output.2 = some n ∧ n.sinks ≠ []) ∧
      (c.hasOutput = true → c.outputs ≠ []) := by
  obtain ⟨d, hd, hvisit⟩ := pruneCell_inv h
  obtain rfl := Option.some.inj (hc.symm.trans hd)
  rcases hvisit with ⟨hskip, -, -⟩ | ⟨-, hcount, hlive, u, x, c', hloop, hc', hmark⟩
  · rcases hskip with hskip | hskip
    · exact absurd hskip hkeep
    · rw [hunmarked] at hskip
      cases hskip
  have hnone : deadOutputs nl c = [] := List.length_eq_zero_iff.mp (by omega)
  rw [hnone] at hloop
  obtain ⟨-, rfl⟩ := Edit.pure_ok.mp hloop
  obtain rfl := Option.some.inj (hc.symm.trans hc')
  refine ⟨fun output ho => ?_, fun houtput hidle => ?_⟩
  · obtain ⟨n, hn⟩ := hlive output ho
    refine ⟨n, hn, fun hempty => ?_⟩
    have hdead : output ∈ deadOutputs nl c := List.mem_filter.mpr ⟨ho, by simp [hn, hempty]⟩
    rw [hnone] at hdead
    cases hdead
  · rcases hmark with ⟨-, hmarking⟩ | ⟨hbusy, -⟩
    · obtain ⟨-, -, -, -, -, -, -, hmarked⟩ := Edit.markForRemoval_ok hw hmarking
      have hself := hmarked (by simp [bare, hc])
      rw [hunmarked] at hself
      cases hself
    · exact hbusy ⟨houtput, hidle⟩

theorem pruneDeadOutputs_ok {pruned : Nat} (hw : nl.WellFormed)
    (h : pruneDeadOutputs options names nl = .ok pruned nl') :
    Cuts options [] nl nl' ∧ Phase options nl nl' := by
  unfold pruneDeadOutputs at h
  obtain ⟨_, _, hget, hloop⟩ := Edit.bind_ok.mp h
  obtain ⟨rfl, rfl⟩ := Edit.get_ok.mp hget
  refine Edit.foldlM_ok (fun _ _ x => Cuts options [] nl x ∧ Phase options nl x) ?_
    ⟨.refl hw, .refl hw⟩ hloop
  rintro id rest _ x _ x' ⟨hcuts, hphase⟩ hprune
  obtain ⟨hstep, hstep', -⟩ := pruneCell_ok hcuts.wellFormed hprune
  exact ⟨hcuts.trans hstep hw, hphase.trans hstep' hw⟩

end Normalize
end FpgaPacking
