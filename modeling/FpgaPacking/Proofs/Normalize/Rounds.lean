import FpgaPacking.Proofs.Normalize.Flushing
import FpgaPacking.Proofs.Normalize.Folding
import FpgaPacking.Proofs.Normalize.Merging

/-!
# Rounds of normalization

A round merges, folds, prunes and flushes, and what its passes count adds up to
what the weight goes down by.  If nothing was queued before, a round refines the
netlist and leaves no tie cell that drives a net, no table input on a constant net
and no queued cell.  The next round starts from there, so after any number of
rounds the same holds, with the removed cells of all rounds left out of the
comparison.

Rounds follow each other up to one that counts nothing.  That one is always run,
and it starts where the rounds before it have ended.
-/

namespace FpgaPacking
namespace Normalize

open Netlist

variable {options : NormalizeOptions} {gone gone' : List CellId} {names : Names}
  {nl nl' nl'' : Netlist} {s s' : Session} {report : Report}

/-! ## The passes of a round -/

/-- The number of changes that a report counts. -/
def Report.total (r : Report) : Nat :=
  r.mergedNets + r.foldedInputs + r.prunedPorts + r.removedCells

theorem Report.eq_none_of_total (h : report.total = 0) : report = .none := by
  obtain ⟨merged, folded, pruned, removed⟩ := report
  have hsum : merged + folded + pruned + removed = 0 := h
  obtain rfl : merged = 0 := by omega
  obtain rfl : folded = 0 := by omega
  obtain rfl : pruned = 0 := by omega
  obtain rfl : removed = 0 := by omega
  rfl

/-- The passes of a round lead from one netlist to the other, with the netlists in between. -/
structure Passes (options : NormalizeOptions) (names : Names) (report : Report)
    (nl merged folded pruned nl' : Netlist) : Prop where
  merge : mergeConstantDrivers options names nl = .ok report.mergedNets merged
  fold : foldAll options names merged = .ok report.foldedInputs folded
  prune : pruneDeadOutputs options names folded = .ok report.prunedPorts pruned
  flush : Edit.flush names pruned = .ok report.removedCells nl'

/-- The log after a round, which notes how many nets of tie cells have been merged. -/
def noted (report : Report) (log : Log) : Log :=
  if report.mergedNets > 0 then
    log.emit (.note .normalize 2 s!"merged {report.mergedNets} tie-cell net(s) into constant nets")
  else log

theorem round_iff : round options s = .ok report s' ↔
    ∃ merged folded pruned nl', Passes options s.names report s.netlist merged folded pruned nl' ∧
      s' = { s with netlist := nl', log := noted report s.log } := by
  have hrest : ∀ (count : Nat) (t t' : Session),
      (liftM (foldAll options) >>= fun folded => liftM (pruneDeadOutputs options) >>= fun pruned =>
        liftM Edit.flush >>= fun removed => pure ⟨count, folded, pruned, removed⟩ :
          Packing Report) t = .ok report t' ↔
      count = report.mergedNets ∧ ∃ folded pruned nl',
        foldAll options t.names t.netlist = .ok report.foldedInputs folded ∧
        pruneDeadOutputs options t.names folded = .ok report.prunedPorts pruned ∧
        Edit.flush t.names pruned = .ok report.removedCells nl' ∧
          t' = { t with netlist := nl' } := by
    intro count t t'
    simp only [bind_ok, Packing.edit_ok, pure_ok]
    constructor
    · rintro ⟨foldedInputs, _, ⟨folded, hfold, rfl⟩, prunedPorts, _, ⟨pruned, hprune, rfl⟩,
        removedCells, _, ⟨nl', hflush, rfl⟩, rfl, rfl⟩
      exact ⟨rfl, folded, pruned, nl', hfold, hprune, hflush, rfl⟩
    · rintro ⟨rfl, folded, pruned, nl', hfold, hprune, hflush, rfl⟩
      exact ⟨_, _, ⟨folded, hfold, rfl⟩, _, _, ⟨pruned, hprune, rfl⟩, _, _, ⟨nl', hflush, rfl⟩,
        rfl, rfl⟩
  unfold round noted
  rw [bind_ok]
  constructor
  · rintro ⟨count, s₁, hedit, hrun⟩
    obtain ⟨merged, hmerge, rfl⟩ := Packing.edit_ok.mp hedit
    dsimp only at hrun
    split at hrun
    · next hcount =>
      obtain ⟨_, s₂, hemit, hrun⟩ := bind_ok.mp hrun
      obtain rfl := Packing.emit_ok.mp hemit
      obtain ⟨rfl, folded, pruned, nl', hfold, hprune, hflush, rfl⟩ := (hrest _ _ _).mp hrun
      exact ⟨merged, folded, pruned, nl', ⟨hmerge, hfold, hprune, hflush⟩, by rw [if_pos hcount]⟩
    · next hcount =>
      obtain ⟨rfl, folded, pruned, nl', hfold, hprune, hflush, rfl⟩ := (hrest _ _ _).mp hrun
      exact ⟨merged, folded, pruned, nl', ⟨hmerge, hfold, hprune, hflush⟩, by rw [if_neg hcount]⟩
  · rintro ⟨merged, folded, pruned, nl', ⟨hmerge, hfold, hprune, hflush⟩, rfl⟩
    refine ⟨_, _, Packing.edit_ok.mpr ⟨merged, hmerge, rfl⟩, ?_⟩
    by_cases hcount : report.mergedNets > 0
    · simp only [if_pos hcount]
      exact bind_ok.mpr ⟨PUnit.unit, _, Packing.emit_ok.mpr rfl,
        (hrest _ _ _).mpr ⟨rfl, folded, pruned, nl', hfold, hprune, hflush, rfl⟩⟩
    · simp only [if_neg hcount]
      exact (hrest _ _ _).mpr ⟨rfl, folded, pruned, nl', hfold, hprune, hflush, rfl⟩

section Passes

variable {merged folded pruned : Netlist}

/-- Up to the flush, a round is a phase; merging leaves no net to a tie cell and
folding no table input on a constant net. -/
theorem Passes.phases (hdistinct : options.DistinctInputs) (hw : nl.WellFormed)
    (h : Passes options names report nl merged folded pruned nl') :
    Phase options nl merged ∧ (∀ r, Untied options merged r) ∧ Cuts options [] merged folded ∧
      Phase options merged folded ∧ Folded options folded ∧ Cuts options [] folded pruned ∧
      Phase options folded pruned := by
  obtain ⟨hmerged, huntied⟩ := mergeConstantDrivers_ok hw h.merge
  obtain ⟨hfolded, hqueue, hclear⟩ := foldAll_ok hdistinct hmerged.wellFormed h.fold
  obtain ⟨hpruned, hphase⟩ := pruneDeadOutputs_ok hfolded.wellFormed h.prune
  refine ⟨hmerged, huntied, hfolded, .of_queue hfolded.toRefines hqueue, fun r hr => ?_, hpruned,
    hphase⟩
  refine hclear r ?_
  unfold isMarked at hr ⊢
  rw [← hqueue]
  exact hr

/-- A round lowers the weight by the number of its changes. -/
theorem Passes.progress (hdistinct : options.DistinctInputs) (hw : nl.WellFormed)
    (h : Passes options names report nl merged folded pruned nl') :
    Progress report.total nl nl' := by
  obtain ⟨hmerged, -, hfolded, -, -, hpruned, -⟩ := h.phases hdistinct hw
  have hmerge := (counts_mergeTieCell.pass hw h.merge).1
  have hfold := ((counts_foldCell hdistinct).pass hmerged.wellFormed h.fold).1
  have hprune := (counts_pruneCell.pass hfolded.wellFormed h.prune).1
  exact ((hmerge.trans hfold).trans hprune).trans (flush_progress hpruned.wellFormed h.flush)

/-- The round keeps the netlist well-formed and leaves nothing queued. -/
theorem Passes.flushed (hdistinct : options.DistinctInputs) (hw : nl.WellFormed)
    (h : Passes options names report nl merged folded pruned nl') :
    Flushed pruned.queue.keys pruned nl' ∧ ∀ id, nl'.isMarked id = false := by
  obtain ⟨-, -, -, -, -, hpruned, -⟩ := h.phases hdistinct hw
  obtain ⟨hflushed, hunmarked, -⟩ := flush_flushed hpruned.wellFormed h.flush
  exact ⟨hflushed, hunmarked⟩

end Passes

/-! ## Rounds up to a fixed point -/

/-- What rounds keep holds before the last one, which counts nothing. -/
theorem rounds_last (I : Netlist → Prop)
    (hround : ∀ t r t', I t.netlist → round options t = .ok r t' → I t'.netlist)
    {bound : Nat} {start : Report} (hI : I s.netlist)
    (h : rounds options start bound s = .ok report s') :
    ∃ t, I t.netlist ∧ round options t = .ok .none s' := by
  induction bound generalizing start s with
  | zero => cases h
  | succ bound ih =>
    unfold rounds at h
    obtain ⟨r, s₁, hfirst, hmore⟩ := FpgaPacking.bind_ok.mp h
    split at hmore
    · next hempty =>
      obtain ⟨-, rfl⟩ := pure_ok.mp hmore
      have hnone : r = .none := of_decide_eq_true hempty
      exact ⟨s, hI, hnone ▸ hfirst⟩
    · exact ih (hround s r s₁ hI hfirst) hmore

/-- Normalization is its rounds, but for a note in the log. -/
theorem normalize_rounds (h : normalize options s = .ok report s') :
    ∃ t, rounds options .none (weight s.netlist + 1) s = .ok report t ∧ s'.names = t.names ∧
      s'.netlist = t.netlist := by
  unfold normalize at h
  obtain ⟨nl, s₁, hstart, hmore⟩ := FpgaPacking.bind_ok.mp h
  obtain ⟨rfl, rfl⟩ := Packing.netlist_ok.mp hstart
  obtain ⟨result, s₂, hrounds, hnote⟩ := FpgaPacking.bind_ok.mp hmore
  dsimp only at hnote
  split at hnote
  · obtain ⟨_, s₃, hemit, hend⟩ := FpgaPacking.bind_ok.mp hnote
    obtain rfl := Packing.emit_ok.mp hemit
    obtain ⟨rfl, rfl⟩ := pure_ok.mp hend
    exact ⟨s₂, hrounds, rfl, rfl⟩
  · obtain ⟨rfl, rfl⟩ := pure_ok.mp hnote
    exact ⟨s₂, hrounds, rfl, rfl⟩

/-! ## Rounds from an empty queue -/

/-- The second netlist computes what the first does, the cells in `gone` are removed
from it, and nothing is queued. -/
structure Sweeps (options : NormalizeOptions) (gone : List CellId) (nl nl' : Netlist) : Prop
    extends Refines options gone nl nl' where
  dead : ∀ id ∈ gone, nl'.bare id = none
  unmarked : ∀ id, nl'.isMarked id = false

/-- Besides, there is nothing left to merge or to fold. -/
structure Settles (options : NormalizeOptions) (gone : List CellId) (nl nl' : Netlist) : Prop
    extends Sweeps options gone nl nl' where
  merged : ∀ r, Untied options nl' r
  folded : ∀ r, Clear options nl' r

theorem Sweeps.trans (h : Sweeps options gone nl nl') (h' : Sweeps options gone' nl' nl'')
    (hw : nl.WellFormed) : Sweeps options (gone ++ gone') nl nl'' where
  toRefines := by
    refine Refines.trans (h.toRefines.mono fun id hid => ?_) (h'.toRefines.mono fun id hid => ?_) hw
    · exact List.mem_append_left gone' hid
    · exact List.mem_append_right gone hid
  dead id hid := by
    rcases List.mem_append.mp hid with hid | hid
    · exact h'.toRefines.dead (h.dead id hid)
    · exact h'.dead id hid
  unmarked := h'.unmarked

theorem round_ok (hdistinct : options.DistinctInputs) (hw : s.netlist.WellFormed)
    (hunmarked : ∀ id, s.netlist.isMarked id = false) (h : round options s = .ok report s') :
    ∃ gone, Settles options gone s.netlist s'.netlist := by
  obtain ⟨merged, folded, pruned, nl', hpasses, rfl⟩ := round_iff.mp h
  obtain ⟨hmerge, huntied, hfold, hfold', hclear, hprune, hprune'⟩ := hpasses.phases hdistinct hw
  have hquiet : Quiet s.netlist := fun r k hr => absurd hr (by simp [hunmarked])
  have hquiet' : Quiet pruned := ((hquiet.phase hmerge).phase hfold').phase hprune'
  have hclear' : Folded options pruned := hclear.cuts hprune hfold.wellFormed hprune'.queued
  obtain ⟨gone, hflush, hdead, hempty, hclear''⟩ :=
    flush_ok hprune.wellFormed hquiet' hclear' hpasses.flush
  have hlater : Refines options gone merged nl' :=
    ((hfold.trans hprune hmerge.wellFormed).toRefines.mono nofun).trans hflush hmerge.wellFormed
  exact ⟨gone, ⟨(hmerge.toRefines.mono nofun).trans hlater hw, hdead, hempty⟩,
    fun r => (huntied r).refines hlater, hclear''⟩

theorem rounds_ok (hdistinct : options.DistinctInputs) {bound : Nat} {start : Report}
    (hw : s.netlist.WellFormed) (hunmarked : ∀ id, s.netlist.isMarked id = false)
    (h : rounds options start bound s = .ok report s') :
    ∃ gone, Settles options gone s.netlist s'.netlist := by
  obtain ⟨t, ⟨gone, hswept⟩, hlast⟩ :=
    rounds_last (fun nl => ∃ gone, Sweeps options gone s.netlist nl) (fun t r t' ht hround => by
      obtain ⟨gone, hswept⟩ := ht
      obtain ⟨gone', hsettled⟩ := round_ok hdistinct hswept.wellFormed hswept.unmarked hround
      exact ⟨gone ++ gone', hswept.trans hsettled.toSweeps hw⟩) ⟨[], .refl hw, nofun, hunmarked⟩ h
  obtain ⟨gone', hsettled⟩ := round_ok hdistinct hswept.wellFormed hswept.unmarked hlast
  exact ⟨gone ++ gone', hswept.trans hsettled.toSweeps hw, hsettled.merged, hsettled.folded⟩

theorem normalize_ok (hdistinct : options.DistinctInputs) (hw : s.netlist.WellFormed)
    (hunmarked : ∀ id, s.netlist.isMarked id = false) (h : normalize options s = .ok report s') :
    ∃ gone, Settles options gone s.netlist s'.netlist := by
  obtain ⟨t, hrounds, -, hnetlist⟩ := normalize_rounds h
  rw [hnetlist]
  exact rounds_ok hdistinct hw hunmarked hrounds

end Normalize
end FpgaPacking
