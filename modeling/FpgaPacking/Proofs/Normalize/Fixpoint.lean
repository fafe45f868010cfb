import FpgaPacking.Proofs.Failures
import FpgaPacking.Proofs.Normalize.Logic

/-!
# Normalization reaches a fixed point

A round that counts a change lowers the weight, so the rounds stop before the
bound is used up.  The last round counts nothing and leaves nothing queued.  Then
none of its passes has changed anything, nor has any step of a pass: the netlist
passes all the tests by which normalization finds something to do, and
normalizing it again changes nothing.
-/

namespace FpgaPacking
namespace Normalize

open Netlist

variable {options : NormalizeOptions} {names : Names} {nl nl' : Netlist} {s s' : Session}
  {report : Report}

/-! ## Termination -/

/-- A round lowers the weight by the number of its changes. -/
theorem round_weight (hdistinct : options.DistinctInputs) (hw : s.netlist.WellFormed)
    (h : round options s = .ok report s') :
    s'.netlist.WellFormed ∧ weight s'.netlist + report.total ≤ weight s.netlist := by
  obtain ⟨merged, folded, pruned, nl', hpasses, rfl⟩ := round_iff.mp h
  exact ⟨(hpasses.flushed hdistinct hw).1.wellFormed, (hpasses.progress hdistinct hw).weight⟩

theorem round_decreases (hdistinct : options.DistinctInputs) (hw : s.netlist.WellFormed)
    (h : round options s = .ok report s') (hchanged : report ≠ .none) :
    weight s'.netlist < weight s.netlist := by
  have hweight := (round_weight hdistinct hw h).2
  have htotal : report.total ≠ 0 := fun hzero => hchanged (Report.eq_none_of_total hzero)
  omega

/-- The rounds do not run out if the weight is below the bound. -/
theorem rounds_not_exhausted (hdistinct : options.DistinctInputs) {bound : Nat} {start : Report}
    (hw : s.netlist.WellFormed) (hbound : weight s.netlist < bound) :
    rounds options start bound s ≠ .error (.fault .roundsExhausted) s' := by
  induction bound generalizing start s with
  | zero => exact absurd hbound (Nat.not_lt_zero _)
  | succ bound ih =>
    intro h
    unfold rounds at h
    rcases bind_error.mp h with hround | ⟨r, s₁, hround, hmore⟩
    · exact (fails_round s _ s' hround).2 rfl
    · split at hmore
      · cases hmore
      · next hchanged =>
        have hnone : r ≠ .none := fun e => hchanged (by rw [e]; rfl)
        have hless := round_decreases hdistinct hw hround hnone
        exact ih (round_weight hdistinct hw hround).1 (by omega) hmore

theorem normalize_not_exhausted (hdistinct : options.DistinctInputs) (hw : s.netlist.WellFormed) :
    normalize options s ≠ .error (.fault .roundsExhausted) s' := by
  intro h
  unfold normalize at h
  rcases bind_error.mp h with hstart | ⟨nl, s₁, hstart, hmore⟩
  · cases hstart
  obtain ⟨rfl, rfl⟩ := Packing.netlist_ok.mp hstart
  rcases bind_error.mp hmore with hrounds | ⟨r, s₂, -, hnote⟩
  · exact rounds_not_exhausted hdistinct hw (Nat.lt_succ_self _) hrounds
  · dsimp only at hnote
    split at hnote
    · rcases bind_error.mp hnote with hemit | ⟨_, _, -, hend⟩
      · cases hemit
      · cases hend
    · cases hnote

/-! ## The last round -/

/-- There is nothing to normalize. -/
structure Normalized (options : NormalizeOptions) (nl : Netlist) : Prop where
  /-- No cell is of a type that ties its outputs. -/
  untied : ∀ id c, nl.cell? id = some c → options.tieValue c.cellType = none
  /-- No input of a truth table is on a constant net. -/
  folded : ∀ id c, nl.cell? id = some c → ∀ p ∈ c.ports, TableInput options c p →
    ∀ k, p.net = some k → nl.constValue k = none
  /-- The outputs of cells that are not of a kept type drive nets that are read. -/
  read : ∀ id c, nl.cell? id = some c → c.cellType ∉ options.keepTypes →
    ∀ p ∈ c.ports, p.direction = .output → ∀ k, p.net = some k →
      ∃ n, nl.net? k = some n ∧ n.driver = some ⟨id, p.name⟩ ∧ n.sinks ≠ []
  /-- Such a cell has a connected output if it has any. -/
  observed : ∀ id c, nl.cell? id = some c → c.cellType ∉ options.keepTypes →
    (∃ p ∈ c.ports, p.direction = .output) →
      ∃ p ∈ c.ports, p.direction = .output ∧ p.net.isSome
  unqueued : ∀ id, nl.isMarked id = false

/-- A round that counts nothing changes nothing, and neither does any pass of it. -/
theorem Passes.idle (hdistinct : options.DistinctInputs) (hw : nl.WellFormed)
    {merged folded pruned : Netlist}
    (h : Passes options names .none nl merged folded pruned nl') :
    Passes options names .none nl nl nl nl nl ∧ nl' = nl ∧ ∀ id, nl.isMarked id = false := by
  obtain ⟨hmerged, -, hfolded, -, -, hpruned, -⟩ := h.phases hdistinct hw
  obtain ⟨-, hunmarked, -, hflush⟩ := flush_flushed hpruned.wellFormed h.flush
  obtain rfl := hflush rfl
  obtain rfl := (counts_pruneCell.pass hfolded.wellFormed h.prune).1.fixed rfl hunmarked
  obtain rfl := ((counts_foldCell hdistinct).pass hmerged.wellFormed h.fold).1.fixed rfl hunmarked
  obtain rfl := (counts_mergeTieCell.pass hw h.merge).1.fixed rfl hunmarked
  exact ⟨h, rfl, hunmarked⟩

theorem Passes.normalized (hdistinct : options.DistinctInputs) (hw : nl.WellFormed)
    (h : Passes options names .none nl nl nl nl nl) (hunmarked : ∀ id, nl.isMarked id = false) :
    Normalized options nl := by
  have hmerge := (counts_mergeTieCell.pass hw h.merge).2 rfl hunmarked
  have hfold := ((counts_foldCell hdistinct).pass hw h.fold).2 rfl hunmarked
  have hprune := (counts_pruneCell.pass hw h.prune).2 rfl hunmarked
  constructor
  case untied =>
    intro id c hc
    obtain ⟨-, -, d, hd, hvisited⟩ := mergeTieCell_ok hw (hmerge id c hc)
    have hbare : nl.bare id = some c.unwired := bare_of_cell? hc
    obtain rfl := Option.some.inj (hbare.symm.trans hd)
    rcases hvisited with hnone | ⟨hmarked, -⟩
    · exact hnone
    · rw [hunmarked] at hmarked
      cases hmarked
  case folded =>
    intro id c hc p hp hinput k hk
    obtain ⟨-, -, hclear, -⟩ := foldCell_ok hdistinct hw (hfold id c hc)
    refine hclear (hunmarked id) p.name k ?_ ((foldable_iff hw hc hp).mpr hinput)
    rw [(hw.port_of_mem hc hp).1, hk]
  case read =>
    intro id c hc hkeep p hp hout k hk
    obtain ⟨hwire, hdir⟩ := hw.port_of_mem hc hp
    rw [hk] at hwire
    rw [hout] at hdir
    obtain ⟨hread, -⟩ := read_of_pruneCell hw hc hkeep (hunmarked id) (hprune id c hc)
    obtain ⟨n, hn, hsinks⟩ := hread (p.name, k) ((mem_outputs hw hc).mpr ⟨hwire, hdir⟩)
    exact ⟨n, hn, (hw.wired.driver_iff k n _ hn).mpr ⟨hwire, hdir⟩, hsinks⟩
  case observed =>
    rintro id c hc hkeep ⟨p, hp, hout⟩
    have houtput : c.hasOutput = true := List.any_eq_true.mpr ⟨p, hp, decide_eq_true hout⟩
    obtain ⟨-, hconnected⟩ := read_of_pruneCell hw hc hkeep (hunmarked id) (hprune id c hc)
    obtain ⟨⟨name, k⟩, ho⟩ := List.exists_mem_of_ne_nil _ (hconnected houtput)
    obtain ⟨hwire, hdir⟩ := (mem_outputs hw hc).mp ho
    obtain ⟨q, hq, -, hnet, hd⟩ := exists_port_of_wire hc hwire
    exact ⟨q, hq, Option.some.inj (hd.symm.trans hdir), by simp [hnet]⟩
  case unqueued => exact hunmarked

/-- Where a round changes nothing, normalization does not either. -/
theorem normalize_of_round (h : round options s = .ok .none s) :
    normalize options s = .ok .none s := by
  have hrounds : rounds options .none (weight s.netlist + 1) s = .ok .none s := by
    unfold rounds
    exact bind_ok.mpr ⟨.none, s, h, rfl⟩
  unfold normalize
  exact bind_ok.mpr ⟨s.netlist, s, rfl, bind_ok.mpr ⟨.none, s, hrounds, rfl⟩⟩

theorem normalize_last (hdistinct : options.DistinctInputs) (hw : s.netlist.WellFormed)
    (h : normalize options s = .ok report s') :
    s'.netlist.WellFormed ∧ Normalized options s'.netlist ∧ round options s' = .ok .none s' := by
  obtain ⟨t, hrounds, hnames, hnetlist⟩ := normalize_rounds h
  obtain ⟨u, hu, hlast⟩ := rounds_last WellFormed
    (fun _ _ _ hx hround => (round_weight hdistinct hx hround).1) hw hrounds
  obtain ⟨merged, folded, pruned, nl', hpasses, rfl⟩ := round_iff.mp hlast
  obtain ⟨hidle, rfl, hunmarked⟩ := hpasses.idle hdistinct hu
  rw [hnetlist]
  refine ⟨hu, hidle.normalized hdistinct hu hunmarked, round_iff.mpr ?_⟩
  rw [hnames, hnetlist]
  refine ⟨u.netlist, u.netlist, u.netlist, u.netlist, hidle, ?_⟩
  obtain ⟨names', netlist', log'⟩ := s'
  obtain rfl : netlist' = u.netlist := hnetlist
  obtain rfl : names' = u.names := hnames
  rfl

/-- Normalization stops with a netlist in which there is nothing left to normalize,
and normalizing that one changes nothing. -/
theorem normalize_reaches_fixpoint {config : Config} (hvalid : config.validate = .ok ())
    (hoptions : ((NormalizeOptions.ofConfig config).run names).1 = options)
    (hw : s.netlist.WellFormed) :
    (∀ s', normalize options s ≠ .error (.fault .roundsExhausted) s') ∧
      (∀ t r t', t.netlist.WellFormed → round options t = .ok r t' → r ≠ .none →
        weight t'.netlist < weight t.netlist) ∧
      ∀ report s', normalize options s = .ok report s' →
        Normalized options s'.netlist ∧ normalize options s' = .ok .none s' := by
  have hdistinct : options.DistinctInputs := by
    rw [← hoptions]
    exact distinctInputs_of_validate names hvalid
  refine ⟨fun s' => normalize_not_exhausted hdistinct hw,
    fun t r t' ht hround => round_decreases hdistinct ht hround, fun report s' h => ?_⟩
  obtain ⟨-, hnormalized, hround⟩ := normalize_last hdistinct hw h
  exact ⟨hnormalized, normalize_of_round hround⟩

theorem tiedInput_reaches_fixpoint : ∃ s',
    normalize TiedInput.settings TiedInput.session = .ok ⟨1, 1, 0, 1⟩ s' ∧
      Normalized TiedInput.settings s'.netlist ∧
        normalize TiedInput.settings s' = .ok .none s' := by
  obtain ⟨s', h⟩ := TiedInput.normalize_session
  obtain ⟨-, -, hfixed⟩ := normalize_reaches_fixpoint TiedInput.validate_config
    TiedInput.ofConfig_config TiedInput.wellFormed_session
  exact ⟨s', h, hfixed _ s' h⟩

end Normalize
end FpgaPacking
