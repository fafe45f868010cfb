import FpgaPacking.Pass
import FpgaPacking.Proofs.Chain.Greedy
import FpgaPacking.Proofs.Normalize.Fixpoint
import FpgaPacking.Proofs.Retarget.Summary

/-!
# The verdicts of passes

A pass says whether it has changed anything, and it says so from what it has
counted: the changes of the rounds, the retargeted cells, the segments.  Nothing
is edited that is not counted.  A round that counts nothing has changed nothing,
a cell that is not counted is not retargeted, and a chain that is found has a
cell, so it has a segment as well.
-/

namespace FpgaPacking

variable {s s' : Session}

/-! ## Normalization -/

namespace Normalize

variable {options : NormalizeOptions} {report : Report}

theorem Report.total_add (a b : Report) : (a.add b).total = a.total + b.total := by
  simp only [total, add]
  omega

/-- The rounds report at least what has been counted before, and more if the first
of them counts anything. -/
theorem idle_of_rounds (hdistinct : options.DistinctInputs) {bound : Nat} {start : Report}
    (hw : s.netlist.WellFormed) (h : rounds options start bound s = .ok report s') :
    start.total ≤ report.total ∧
      (report.total = start.total → s'.netlist = s.netlist) := by
  induction bound generalizing start s with
  | zero => cases h
  | succ bound ih =>
    unfold rounds at h
    obtain ⟨r, s₁, hround, hmore⟩ := bind_ok.mp h
    split at hmore
    · next hempty =>
      obtain ⟨rfl, rfl⟩ := pure_ok.mp hmore
      obtain rfl : r = .none := of_decide_eq_true hempty
      obtain ⟨merged, folded, pruned, nl', hpasses, rfl⟩ := round_iff.mp hround
      exact ⟨le_refl _, fun _ => (hpasses.idle hdistinct hw).2.1⟩
    · next hchanged =>
      have hcounted : r.total ≠ 0 := fun hzero =>
        hchanged (decide_eq_true (Report.eq_none_of_total hzero))
      obtain ⟨hle, -⟩ := ih (round_weight hdistinct hw hround).1 hmore
      rw [Report.total_add] at hle
      exact ⟨by omega, fun htotal => by omega⟩

theorem netlist_of_normalize (hdistinct : options.DistinctInputs) (hw : s.netlist.WellFormed)
    (h : normalize options s = .ok .none s') : s'.netlist = s.netlist := by
  obtain ⟨t, hrounds, -, hnetlist⟩ := normalize_rounds h
  rw [hnetlist]
  exact (idle_of_rounds hdistinct hw hrounds).2 rfl

end Normalize

/-! ## Chain packing -/

namespace Chain

variable {f : Fabric} {segments : List Segment} {chain : List CellId}

theorem ne_nil_of_mem_chainsThrough {nav : Navigation} {minLength : Nat}
    {available ids : List CellId} (h : chain ∈ chainsThrough nav minLength available ids) :
    chain ≠ [] := by
  induction ids generalizing available with
  | nil => cases h
  | cons id ids ih =>
    unfold chainsThrough at h
    dsimp only at h
    split at h
    · split at h
      · exact ih h
      · next hkept =>
        rcases List.mem_cons.mp h with rfl | h
        · intro hempty
          rw [hempty] at hkept
          exact hkept rfl
        · exact ih h
    · exact ih h

/-- A chain with a cell is cut into at least one segment. -/
theorem ne_nil_of_legalize (hw : s.netlist.WellFormed)
    (hlive : ∀ id ∈ chain, (s.netlist.cell? id).isSome) (hne : chain ≠ [])
    (h : legalize f chain s = .ok segments s') : segments ≠ [] := by
  rintro rfl
  obtain ⟨steps, houtcome, hlength⟩ := length_of_legalize h
  have hoptimal : Optimal f s.netlist chain (plan s.netlist f chain).outcome :=
    optimal_scan hw hlive (OpenSegment.measured_none f s.netlist) nofun
  obtain ⟨⟨blocks, hcut, hblocks⟩, -⟩ := hoptimal.least steps houtcome
  rw [← hlength, List.length_nil, List.length_eq_zero_iff] at hblocks
  rw [hblocks] at hcut
  exact hne hcut.joined.symm

theorem netlist_of_packChains (hw : s.netlist.WellFormed) (h : packChains f s = .ok [] s') :
    s'.netlist = s.netlist := by
  unfold packChains at h
  obtain ⟨chains, s₁, hdiscover, h⟩ := bind_ok.mp h
  obtain ⟨made, s₂, hpack, h⟩ := bind_ok.mp h
  obtain ⟨hnone, rfl⟩ := pure_ok.mp h
  obtain ⟨hsame, hfound⟩ := discover_ok hdiscover
  obtain rfl : chains = foundChains f s.netlist := hfound
  cases hchains : foundChains f s.netlist with
  | nil =>
    rw [hchains] at hpack
    obtain ⟨-, rfl⟩ := pure_ok.mp hpack
    exact hsame
  | cons chain rest =>
    have hchain : chain ∈ foundChains f s.netlist := hchains ▸ List.mem_cons_self
    rw [hchains, List.mapM_cons] at hpack
    obtain ⟨segments, s₃, hfirst, hpack⟩ := bind_ok.mp hpack
    obtain ⟨others, s₄, -, hpack⟩ := bind_ok.mp hpack
    obtain ⟨rfl, -⟩ := pure_ok.mp hpack
    obtain ⟨segments', s₅, hlegalize, hfirst⟩ := bind_ok.mp hfirst
    obtain ⟨_, s₆, -, hfirst⟩ := bind_ok.mp hfirst
    obtain ⟨rfl, -⟩ := pure_ok.mp hfirst
    have hlive : ∀ id ∈ chain, (s₁.netlist.cell? id).isSome := by
      intro id hid
      obtain ⟨c, hc, -⟩ := (foundChains_spec.1 chain hchain).2 id hid
      rw [hsame, hc]
      rfl
    have hsegments := ne_nil_of_legalize (hsame ▸ hw) hlive (ne_nil_of_mem_chainsThrough hchain)
      hlegalize
    exact absurd (List.append_eq_nil_iff.mp hnone).1 hsegments

end Chain

/-! ## Passes -/

namespace Pass

/-- The passes that validated configurations give. -/
inductive Configured : Pass → Prop
  | normalize {config : Config} (hvalid : config.validate = .ok ()) (names : Names) :
      Configured (.normalize ((NormalizeOptions.ofConfig config).run names).1)
  | retarget {config : Config} (hvalid : config.validate = .ok ()) (names : Names) :
      Configured (.retarget ((RuleSet.ofConfig config).run names).1)
  | chain {config : Config} (hvalid : config.validate = .ok ()) {names names' : Names} {f : Fabric}
      (hf : Fabric.ofConfig config names = (.ok f, names')) : Configured (.chain f)

variable {pass : Pass}

theorem Configured.unchanged (hpass : pass.Configured) (hw : s.netlist.WellFormed)
    (h : pass.run s = .ok false s') : s'.netlist = s.netlist := by
  cases hpass with
  | normalize hvalid names =>
    obtain ⟨report, s₁, hrun, h⟩ := bind_ok.mp h
    obtain ⟨hverdict, rfl⟩ := pure_ok.mp h
    obtain rfl : report = .none := of_decide_eq_true (Bool.not_eq_eq_eq_not.mp hverdict)
    exact Normalize.netlist_of_normalize (distinctInputs_of_validate names hvalid) hw hrun
  | retarget hvalid names =>
    obtain ⟨summary, s₁, hrun, h⟩ := bind_ok.mp h
    obtain ⟨hverdict, rfl⟩ := pure_ok.mp h
    obtain ⟨t, hcells, -, hnetlist⟩ := retarget_ok hrun
    have hzero : summary.total = 0 := Nat.eq_zero_of_not_pos (of_decide_eq_false hverdict)
    obtain rfl := (Retarget.idle_of_total hcells).2 hzero
    exact hnetlist
  | chain hvalid hf =>
    obtain ⟨segments, s₁, hrun, h⟩ := bind_ok.mp h
    obtain ⟨hverdict, rfl⟩ := pure_ok.mp h
    obtain rfl : segments = [] := List.isEmpty_iff.mp (Bool.not_eq_eq_eq_not.mp hverdict)
    exact Chain.netlist_of_packChains hw hrun

/-- Counting errors around a pass changes nothing. -/
theorem runChecked_ok {changed : Bool} (h : pass.runChecked s = .ok changed s') :
    pass.run s = .ok changed s' := by
  unfold runChecked at h
  obtain ⟨before, s₁, hbefore, h⟩ := bind_ok.mp h
  obtain ⟨-, rfl⟩ := pure_ok.mp hbefore
  obtain ⟨verdict, s₂, hrun, h⟩ := bind_ok.mp h
  obtain ⟨later, s₃, hlater, h⟩ := bind_ok.mp h
  obtain ⟨-, rfl⟩ := pure_ok.mp hlater
  split at h
  · cases h
  · obtain ⟨rfl, rfl⟩ := pure_ok.mp h
    exact hrun

end Pass

/-- A run of passes that reports no change has left the netlist as it was. -/
theorem netlist_of_runPasses {passes : List Pass} (hpasses : ∀ pass ∈ passes, pass.Configured)
    (hw : s.netlist.WellFormed) (h : runPasses passes s = .ok false s') :
    s'.netlist = s.netlist := by
  induction passes generalizing s with
  | nil =>
    obtain ⟨-, rfl⟩ := pure_ok.mp h
    rfl
  | cons pass rest ih =>
    obtain ⟨hpass, hrest⟩ := List.forall_mem_cons.mp hpasses
    obtain ⟨changed, s₁, hfirst, h⟩ := bind_ok.mp h
    obtain ⟨later, s₂, hmore, h⟩ := bind_ok.mp h
    obtain ⟨hverdict, rfl⟩ := pure_ok.mp h
    obtain ⟨rfl, rfl⟩ := Bool.or_eq_false_iff.mp hverdict
    have hsame := hpass.unchanged hw (Pass.runChecked_ok hfirst)
    rw [← hsame]
    exact ih hrest (hsame ▸ hw) hmore

/-- Neither a pass nor a sequence of passes reports that nothing has changed unless
the netlist is the same in everything. -/
theorem unchanged_verdict_truthful (hw : s.netlist.WellFormed) :
    (∀ pass : Pass, pass.Configured → ∀ s', pass.run s = .ok false s' → s'.netlist = s.netlist) ∧
      ∀ passes : List Pass, (∀ pass ∈ passes, pass.Configured) →
        ∀ s', runPasses passes s = .ok false s' → s'.netlist = s.netlist :=
  ⟨fun _ hpass _ h => hpass.unchanged hw h, fun _ hpasses _ h => netlist_of_runPasses hpasses hw h⟩

/-! ## A packed chain -/

namespace Chain.Adder

/-- The passes of the configuration. -/
def passes : List Pass :=
  [.normalize ((NormalizeOptions.ofConfig config).run names).1,
    .retarget ((RuleSet.ofConfig config).run names).1, .chain fabric]

theorem configured_passes : ∀ pass ∈ passes, pass.Configured := by
  have hvalid : config.validate = .ok () := eq_ok_of_toOption (by decide +kernel)
  rintro pass (_ | ⟨_, _ | ⟨_, _ | ⟨_, ⟨⟩⟩⟩⟩)
  · exact .normalize hvalid names
  · exact .retarget hvalid names
  · exact .chain hvalid ofConfig_config

/-- The two carry cells and their boundary cells. -/
def packed : Session := session.after [.packChains fabric]

/-- Once the carry cells are packed, no pass finds anything to do. -/
theorem packed_unchanged : ∃ s', runPasses passes packed = .ok false s' ∧
    s'.netlist = packed.netlist := by
  have hw : packed.netlist.WellFormed :=
    Session.wellFormed_after_of_wellFormed packable.wellFormed _
  obtain ⟨s', h⟩ : ∃ s', runPasses passes packed = .ok false s' :=
    exists_ok_of_returned (by decide +kernel)
  exact ⟨s', h, (unchanged_verdict_truthful hw).2 passes configured_passes s' h⟩

end Chain.Adder
end FpgaPacking
