import FpgaPacking.Proofs.Chain.Cuts
import FpgaPacking.Proofs.Chain.Packed
import FpgaPacking.Proofs.Failures

/-!
# Splitting a chain is complete and optimal

Planning ends a segment only when the next cell does not fit.  Whether a block of
cells fits is a question about the block alone, `FitsTile`, and shorter blocks fit
more easily: without its last cell a block saves that cell, which makes up for a
pass-out it may need instead, and without its first cell it saves that cell,
which makes up for a feed-in.  So planning finds a way to cut the chain if there
is one, and none has fewer segments.
-/

namespace FpgaPacking
namespace Chain

variable {f : Fabric} {nl : Netlist} {id p c : CellId} {block : List CellId}

/-! ## Blocks -/

/-- Whether the cell's chain input is on a driven net that is not constant. -/
def fed (f : Fabric) (nl : Netlist) (id : CellId) : Bool :=
  (nl.netOf id f.chainIn).any fun k =>
    (nl.net? k).any fun n => n.driver.isSome && n.constant.isNone

/-- Whether the net on `p`'s chain output has a sink besides the chain input of `c`. -/
def forks (f : Fabric) (nl : Netlist) (p c : CellId) : Bool :=
  (nl.netOf p f.chainOut).any fun k =>
    (nl.net? k).any fun n => n.sinks.any fun s => s ≠ ⟨c, f.chainIn⟩

/-- Whether the net on the cell's chain output has a sink. -/
def used (f : Fabric) (nl : Netlist) (id : CellId) : Bool :=
  (nl.netOf id f.chainOut).any fun k => (nl.net? k).any fun n => !n.sinks.isEmpty

/-- How many neighbours in the block have other readers on their link. -/
def forkCount (f : Fabric) (nl : Netlist) (block : List CellId) : Nat :=
  (block.zip block.tail).countP fun link => forks f nl link.1 link.2

/-- The length of the block with its feed-in and its pass-throughs. -/
def openLength (f : Fabric) (nl : Netlist) (block : List CellId) : Nat :=
  (block.head?.any (fed f nl)).toNat + block.length + forkCount f nl block

/-- The block can be a segment of its own. -/
structure FitsTile (f : Fabric) (nl : Netlist) (block : List CellId) : Prop where
  capacity : block.length ≤ f.tileCapacity
  compatible : ∀ port ∈ f.compatPorts, ∀ a ∈ block, ∀ b ∈ block, nl.netOf a port = nl.netOf b port
  /-- The length with all boundary cells is within the limit. -/
  length : openLength f nl block + (block.getLast?.any (used f nl)).toNat ≤ f.maxChainLength

theorem forkCount_cons_cons {a b : CellId} :
    forkCount f nl (a :: b :: block) = (forks f nl a b).toNat + forkCount f nl (b :: block) := by
  unfold forkCount
  rw [List.tail_cons, List.zip_cons_cons, List.countP_cons, Nat.add_comm]
  cases forks f nl a b <;> rfl

theorem forkCount_concat (h : block.getLast? = some p) :
    forkCount f nl (block ++ [c]) = forkCount f nl block + (forks f nl p c).toNat := by
  induction block with
  | nil => cases h
  | cons a block ih =>
    cases block with
    | nil =>
      obtain rfl : a = p := Option.some.inj h
      exact forkCount_cons_cons.trans (Nat.add_comm _ _)
    | cons b block =>
      rw [List.getLast?_cons_cons] at h
      have hrest := ih h
      rw [List.cons_append] at hrest ⊢
      rw [List.cons_append, forkCount_cons_cons, forkCount_cons_cons, hrest]
      omega

theorem openLength_singleton : openLength f nl [c] = (fed f nl c).toNat + 1 := rfl

theorem openLength_concat (h : block.getLast? = some p) :
    openLength f nl (block ++ [c]) = openLength f nl block + (forks f nl p c).toNat + 1 := by
  have hne : block ≠ [] := by
    rintro rfl
    cases h
  unfold openLength
  rw [forkCount_concat h, List.head?_append_of_ne_nil _ hne, List.length_append]
  simp only [List.length_singleton]
  omega

theorem shortenable_fitsTile : Shortenable (FitsTile f nl) where
  dropLast block c hne h := by
    obtain ⟨hcapacity, hcompatible, hlength⟩ := h
    have hp := List.getLast?_eq_some_getLast hne
    rw [List.length_append, List.length_singleton] at hcapacity
    refine ⟨by omega, fun port hport a ha b hb => ?_, ?_⟩
    · exact hcompatible port hport a (List.mem_append_left _ ha) b (List.mem_append_left _ hb)
    · rw [openLength_concat hp] at hlength
      have hreserve := Bool.toNat_le (block.getLast?.any (used f nl))
      omega
  tail a block hne h := by
    obtain ⟨b, block, rfl⟩ := List.exists_cons_of_ne_nil hne
    obtain ⟨hcapacity, hcompatible, hlength⟩ := h
    rw [List.length_cons] at hcapacity
    refine ⟨by omega, fun port hport x hx y hy => ?_, ?_⟩
    · exact hcompatible port hport x (List.mem_cons_of_mem _ hx) y (List.mem_cons_of_mem _ hy)
    · unfold openLength at hlength ⊢
      rw [forkCount_cons_cons, List.length_cons (a := a), List.getLast?_cons_cons] at hlength
      have hfeed := Bool.toNat_le ((b :: block).head?.any (fed f nl))
      omega

theorem compatible_iff (hne : block ≠ []) : f.compatible nl block = true ↔
    ∀ port ∈ f.compatPorts, ∀ a ∈ block, ∀ b ∈ block, nl.netOf a port = nl.netOf b port := by
  obtain ⟨first, rest, rfl⟩ := List.exists_cons_of_ne_nil hne
  simp only [Fabric.compatible, List.all_eq_true, decide_eq_true_eq]
  constructor
  · intro h port hport
    have hfirst : ∀ a ∈ first :: rest, nl.netOf a port = nl.netOf first port :=
      List.forall_mem_cons.mpr ⟨rfl, h port hport⟩
    exact fun a ha b hb => (hfirst a ha).trans (hfirst b hb).symm
  · intro h port hport a ha
    exact h port hport a (List.mem_cons_of_mem _ ha) first List.mem_cons_self

/-! ## Extending a segment -/

theorem outputUsed_eq (hw : nl.WellFormed) : outputUsed nl f id = .ok (used f nl id) := by
  unfold outputUsed used
  cases hk : nl.netOf id f.chainOut with
  | none => rfl
  | some k =>
    obtain ⟨n, hn⟩ := Option.isSome_iff_exists.mp (hw.wired.wire_live ⟨id, f.chainOut⟩ k hk)
    simp only [net_eq_ok.mpr hn, Option.any_some, hn]
    rfl

theorem fansOut_eq (hw : nl.WellFormed) : fansOut nl f p c = .ok (forks f nl p c) := by
  unfold fansOut forks
  cases hk : nl.netOf p f.chainOut with
  | none => rfl
  | some k =>
    obtain ⟨n, hn⟩ := Option.isSome_iff_exists.mp (hw.wired.wire_live ⟨p, f.chainOut⟩ k hk)
    simp only [net_eq_ok.mpr hn, Option.any_some, hn]
    rfl

theorem needsFeedIn_eq (hw : nl.WellFormed) (f : Fabric) (id : CellId) :
    ∃ warnings, needsFeedIn nl f id = .ok (fed f nl id, warnings) := by
  unfold needsFeedIn fed
  cases hk : nl.netOf id f.chainIn with
  | none => exact ⟨[], rfl⟩
  | some k =>
    obtain ⟨n, hn⟩ := Option.isSome_iff_exists.mp (hw.wired.wire_live ⟨id, f.chainIn⟩ k hk)
    obtain ⟨c, hc, -⟩ := Option.bind_eq_some_iff.mp hk
    have hcell : nl.cell id = .ok c := cell_eq_ok.mpr hc
    have hrun : ∃ warnings, (if n.constant.isSome then .ok (false, [])
        else if n.driver.isSome then .ok (true, []) else .ok (false, [undrivenWarning c n]) :
          Except Fault (Bool × List Diagnostic)) =
        .ok (n.driver.isSome && n.constant.isNone, warnings) := by
      cases n.constant with
      | some v => exact ⟨[], by simp⟩
      | none =>
        cases n.driver with
        | some r => exact ⟨[], rfl⟩
        | none => exact ⟨_, rfl⟩
    simp only [net_eq_ok.mpr hn, Option.any_some, hn, hcell]
    exact hrun

/-- The step before a cell that joins a segment, by the last cell of the segment. -/
def stepsBefore (f : Fabric) (nl : Netlist) : Option CellId → CellId → List Step
  | none, c => if fed f nl c then [.feedIn c] else []
  | some p, c => if forks f nl p c then [.passThrough p c] else []

/-- The steps after the last cell of a segment. -/
def stepsAfter (f : Fabric) (nl : Netlist) (last : CellId) : List Step :=
  (if used f nl last then [.passOut last] else []) ++ [.close]

theorem count_stepsBefore {last : Option CellId} :
    (stepsBefore f nl last c).count .close = 0 := by
  cases last with
  | none =>
    simp only [stepsBefore]
    split <;> rfl
  | some p =>
    simp only [stepsBefore]
    split <;> rfl

theorem count_stepsAfter : (stepsAfter f nl p).count .close = 1 := by
  unfold stepsAfter
  cases used f nl p <;> rfl

theorem openLength_stepsBefore :
    openLength f nl block + (stepsBefore f nl block.getLast? c).length + 1 =
      openLength f nl (block ++ [c]) := by
  cases hlast : block.getLast? with
  | none =>
    rw [List.getLast?_eq_none_iff.mp hlast, List.nil_append, openLength_singleton]
    simp only [stepsBefore]
    cases fed f nl c <;> rfl
  | some p =>
    rw [openLength_concat hlast]
    simp only [stepsBefore]
    cases forks f nl p c <;> rfl

theorem boundaryBefore_eq (hw : nl.WellFormed) (f : Fabric) (segment : OpenSegment) (id : CellId) :
    ∃ warnings, boundaryBefore nl f segment id =
      .ok (stepsBefore f nl segment.cells.getLast? id, warnings) := by
  unfold boundaryBefore
  cases hlast : segment.cells.getLast? with
  | none =>
    obtain ⟨warnings, hfeed⟩ := needsFeedIn_eq hw f id
    simp only [hfeed]
    exact ⟨warnings, rfl⟩
  | some p =>
    simp only [fansOut_eq hw]
    exact ⟨[], rfl⟩

/-- The segment's length is that of its cells. -/
def OpenSegment.Measured (f : Fabric) (nl : Netlist) (segment : OpenSegment) : Prop :=
  segment.length = openLength f nl segment.cells

theorem OpenSegment.measured_none (f : Fabric) (nl : Netlist) :
    OpenSegment.none.Measured f nl := rfl

theorem extend_eq (hw : nl.WellFormed) {segment : OpenSegment} (h : segment.Measured f nl)
    (id : CellId) :
    ∃ joined, extend nl f segment id = .ok joined ∧ joined.segment.Measured f nl ∧
      joined.segment.cells = segment.cells ++ [id] ∧
      joined.steps = stepsBefore f nl segment.cells.getLast? id ++ [.member id] ∧
      (joined.fits = true ↔ FitsTile f nl (segment.cells ++ [id])) := by
  obtain ⟨warnings, hbefore⟩ := boundaryBefore_eq hw f segment id
  unfold extend
  simp only [hbefore, outputUsed_eq hw]
  refine ⟨_, rfl, ?_, rfl, rfl, ?_⟩
  · show segment.length + _ + 1 = openLength f nl (segment.cells ++ [id])
    rw [← openLength_stepsBefore, h]
  · have hreserve : (if used f nl id = true then 1 else 0) =
        ((segment.cells ++ [id]).getLast?.any (used f nl)).toNat := by
      rw [List.getLast?_concat, Option.any_some]
      cases used f nl id <;> rfl
    rw [h, openLength_stepsBefore, hreserve, Bool.and_eq_true_iff, Bool.and_eq_true_iff,
      compatible_iff (by simp), decide_eq_true_iff, decide_eq_true_iff]
    exact ⟨fun ⟨⟨h₁, h₂⟩, h₃⟩ => ⟨h₁, h₂, h₃⟩, fun ⟨h₁, h₂, h₃⟩ => ⟨⟨h₁, h₂⟩, h₃⟩⟩

theorem count_joined {joined : Extension} {last : Option CellId}
    (h : joined.steps = stepsBefore f nl last id ++ [.member id]) :
    joined.steps.count .close = 0 := by
  rw [h, List.count_append, count_stepsBefore]
  rfl

/-! ## Scanning -/

/-- What planning finds out about the cells from the open segment on. -/
structure Optimal (f : Fabric) (nl : Netlist) (cells : List CellId)
    (outcome : Except Failure (List Step)) : Prop where
  /-- The steps end the least number of segments. -/
  least : ∀ steps, outcome = .ok steps →
    IsLeast (cutSizes (FitsTile f nl) cells) (steps.count .close)
  /-- Planning fails because the cells cannot be cut. -/
  uncuttable : ∀ e, outcome = .error e →
    cutSizes (FitsTile f nl) cells = ∅ ∧
      ∃ name, e = .rejected (.chainTooLong name f.tileCapacity f.maxChainLength)

theorem finish_eq (hw : nl.WellFormed) (f : Fabric) (segment : OpenSegment) :
    finish nl f segment = .ok (segment.cells.getLast?.elim [] (stepsAfter f nl)) := by
  unfold finish
  cases hlast : segment.cells.getLast? with
  | none => rfl
  | some p =>
    simp only [outputUsed_eq hw]
    rfl

theorem tooLong_eq {c : Cell} (hc : nl.cell? id = some c) :
    tooLong nl f id = .rejected (.chainTooLong c.name f.tileCapacity f.maxChainLength) := by
  unfold tooLong Netlist.cell
  rw [hc]

theorem Optimal.fail {warnings : List Diagnostic} {cells : List CellId}
    (hlive : (nl.cell? id).isSome) (h : cutSizes (FitsTile f nl) cells = ∅) :
    Optimal f nl cells (Plan.fail warnings (tooLong nl f id)).outcome := by
  obtain ⟨c, hc⟩ := Option.isSome_iff_exists.mp hlive
  rw [tooLong_eq hc]
  refine ⟨nofun, ?_⟩
  rintro _ ⟨⟩
  exact ⟨h, c.name, rfl⟩

/-- What steps before a plan do to the least number of segments and to whether
the cells can be cut. -/
theorem Optimal.after {steps : List Step} {warnings : List Diagnostic} {plan : Plan}
    {cells cells' : List CellId}
    (hleast : ∀ n, IsLeast (cutSizes (FitsTile f nl) cells') n →
      IsLeast (cutSizes (FitsTile f nl) cells) (steps.count .close + n))
    (hempty : cutSizes (FitsTile f nl) cells' = ∅ → cutSizes (FitsTile f nl) cells = ∅)
    (h : Optimal f nl cells' plan.outcome) :
    Optimal f nl cells (plan.after steps warnings).outcome := by
  constructor
  · intro all hall
    obtain ⟨rest, hrest, rfl⟩ := Plan.outcome_after hall
    rw [List.count_append]
    exact hleast _ (h.least rest hrest)
  · intro e he
    cases hplan : plan.outcome with
    | ok rest =>
      rw [Plan.after, hplan] at he
      cases he
    | error e' =>
      rw [Plan.after, hplan] at he
      obtain rfl : e' = e := Except.error.inj he
      obtain ⟨hcells', hname⟩ := h.uncuttable e' hplan
      exact ⟨hempty hcells', hname⟩

/-- The segments of a plan are as few as possible, and planning fails only where
the cells cannot be cut. -/
theorem optimal_scan (hw : nl.WellFormed) {rest : List CellId} {segment : OpenSegment}
    (hlive : ∀ id ∈ rest, (nl.cell? id).isSome) (hlength : segment.Measured f nl)
    (hfits : segment.cells ≠ [] → FitsTile f nl segment.cells) :
    Optimal f nl (segment.cells ++ rest) (scan nl f segment rest).outcome := by
  induction rest generalizing segment with
  | nil =>
    unfold scan
    rw [finish_eq hw]
    constructor
    · rintro _ ⟨⟩
      rw [List.append_nil]
      cases hlast : segment.cells.getLast? with
      | none =>
        rw [List.getLast?_eq_none_iff.mp hlast]
        exact isLeast_cutSizes_nil
      | some p =>
        have hne : segment.cells ≠ [] := List.ne_nil_of_mem (List.mem_of_getLast? hlast)
        rw [Option.elim_some, count_stepsAfter]
        exact isLeast_cutSizes_block hne (hfits hne)
    · rintro _ ⟨⟩
  | cons id rest ih =>
    have hid := hlive id List.mem_cons_self
    have hrest : ∀ c ∈ rest, (nl.cell? c).isSome := fun c hc => hlive c (List.mem_cons_of_mem id hc)
    obtain ⟨joined, hextend, hjoined, hcells, hsteps, hiff⟩ := extend_eq hw hlength id
    unfold scan
    rw [hextend]
    dsimp only
    by_cases hjoins : joined.fits
    · rw [if_pos hjoins]
      have hlater := ih hrest hjoined fun _ => hcells ▸ hiff.mp hjoins
      rw [hcells, List.append_assoc, List.singleton_append] at hlater
      exact hlater.after (fun n hn => by rwa [count_joined hsteps, Nat.zero_add]) fun h => h
    rw [if_neg hjoins]
    have hfull : ¬FitsTile f nl (segment.cells ++ [id]) := fun h => hjoins (hiff.mpr h)
    cases hlast : segment.cells.getLast? with
    | none =>
      have hnil := List.getLast?_eq_none_iff.mp hlast
      rw [hnil, List.nil_append] at hfull ⊢
      exact .fail hid (cutSizes_cons_eq_empty shortenable_fitsTile hfull)
    | some p =>
      have hne : segment.cells ≠ [] := List.ne_nil_of_mem (List.mem_of_getLast? hlast)
      obtain ⟨alone, hstart, halone, hcells', hsteps', hiff'⟩ :=
        extend_eq hw (OpenSegment.measured_none f nl) id
      dsimp only
      rw [hstart]
      dsimp only
      by_cases hstarts : alone.fits
      · -- The open segment is full and ends; the cell starts the next one.
        rw [if_pos hstarts]
        have hlater := ih hrest halone fun _ => hcells' ▸ hiff'.mp hstarts
        rw [hcells'] at hlater
        have hcloses : (.passOut p :: .close :: alone.steps).count Step.close = 1 := by
          rw [List.count_cons_of_ne (by rintro ⟨⟩), List.count_cons_self,
            count_joined hsteps']
        refine hlater.after (fun n hn => ?_) ?_
        · rw [hcloses, Nat.add_comm]
          exact isLeast_cutSizes_full shortenable_fitsTile hne (hfits hne) hfull hn
        · exact cutSizes_full_eq_empty shortenable_fitsTile hne hfull
      · rw [if_neg hstarts]
        refine .fail hid (cutSizes_full_eq_empty shortenable_fitsTile hne hfull ?_)
        exact cutSizes_cons_eq_empty shortenable_fitsTile fun h => hstarts (hiff'.mpr h)

/-! ## Legalization -/

variable {s s' : Session} {chain : List CellId} {segments : List Segment}

theorem checkLinks_of_isChain (h : chain.IsChain (Together f nl)) :
    checkLinks nl f chain = .ok () := by
  induction chain with
  | nil => rfl
  | cons a rest ih =>
    cases rest with
    | nil => rfl
    | cons b rest =>
      obtain ⟨⟨k, ha, hb⟩, hrest⟩ := List.isChain_cons_cons.mp h
      have hlink : checkLink nl f a b = .ok () := by
        have hna : nl.netOf a f.chainOut = some k := ha
        have hnb : nl.netOf b f.chainIn = some k := hb
        unfold checkLink
        rw [hna, hnb]
        exact if_pos ⟨rfl, rfl⟩
      unfold checkLinks
      rw [hlink]
      exact ih hrest

/-- Every end of a segment in a plan makes one segment. -/
theorem length_of_carryOut {steps : List Step} {segment : Segment} {segments : List Segment}
    (h : carryOut f segment steps s = .ok segments s') : segments.length = steps.count .close := by
  induction steps generalizing segment segments s s' with
  | nil =>
    obtain ⟨rfl, -⟩ := pure_ok.mp h
    rfl
  | cons step rest ih =>
    cases step with
    | feedIn head =>
      obtain ⟨id, s₁, -, h⟩ := bind_ok.mp h
      rw [List.count_cons_of_ne (by nofun)]
      exact ih h
    | passThrough prev next =>
      obtain ⟨id, s₁, -, h⟩ := bind_ok.mp h
      rw [List.count_cons_of_ne (by nofun)]
      exact ih h
    | member id =>
      rw [List.count_cons_of_ne (by nofun)]
      exact ih h
    | passOut tail =>
      obtain ⟨id, s₁, -, h⟩ := bind_ok.mp h
      rw [List.count_cons_of_ne (by nofun)]
      exact ih h
    | close =>
      obtain ⟨later, s₁, hlater, h⟩ := bind_ok.mp h
      obtain ⟨rfl, -⟩ := pure_ok.mp h
      rw [List.count_cons_self, List.length_cons, ih hlater]

theorem length_of_legalize (h : legalize f chain s = .ok segments s') :
    ∃ steps, (plan s.netlist f chain).outcome = .ok steps ∧
      segments.length = steps.count .close := by
  obtain ⟨steps, s₁, s₂, hprepare, hcarry, -⟩ := carryOut_of_legalize h
  exact ⟨steps, (plan_of_prepare hprepare).2.1, length_of_carryOut hcarry⟩

/-- Planning is the only part of legalization that finds a chain too long. -/
theorem outcome_of_legalize_error {e : Failure} (he : ¬e.OfEdit)
    (h : legalize f chain s = .error e s') : (plan s.netlist f chain).outcome = .error e := by
  unfold legalize at h
  rcases bind_error.mp h with h | ⟨steps, s₁, -, h⟩
  · unfold prepare at h
    rcases bind_error.mp h with h | ⟨nl, s₂, hnl, h⟩
    · cases h
    obtain ⟨rfl, -⟩ := Packing.netlist_ok.mp hnl
    rcases bind_error.mp h with h | ⟨u, s₃, -, h⟩
    · have hlinks : Refuses Failure.OfEdit (checkLinks s.netlist f chain) :=
        refuses_checkLinks Failure.ofEdit_violation f fun id _ => refuses_cell _ id
      exact absurd (Packing.fails_check hlinks _ _ _ h) he
    rcases bind_error.mp h with h | ⟨u', s₄, -, h⟩
    · exact absurd (FailsOnly.forM Packing.fails_emit _ _ _ _ h) he
    rcases bind_error.mp h with h | ⟨steps, s₅, -, h⟩
    · cases houtcome : (plan s.netlist f chain).outcome with
      | ok steps =>
        rw [houtcome] at h
        cases h
      | error e' =>
        rw [houtcome] at h
        cases h
        rfl
    rcases bind_error.mp h with h | ⟨u'', s₆, -, h⟩
    · exact absurd (FailsOnly.forM
        (fun step => Packing.fails_check
          (refuses_checkTemplate Failure.ofEdit_violation f step)) _ _ _ _ h) he
    · cases h
  · rcases bind_error.mp h with h | ⟨made, s₂, -, h⟩
    · exact absurd (fails_carryOut f steps .empty _ _ _ h) he
    cases hhead : chain.head? with
    | none =>
      rw [hhead] at h
      cases h
    | some head =>
      rw [hhead] at h
      rcases bind_error.mp h with h | ⟨c, s₃, -, h⟩
      · exact absurd (Packing.fails_edit Edit.fails_cell _ _ _ h) he
      · cases h

theorem legalize_error_of_outcome {e : Failure}
    (hchain : chain.IsChain (Together f s.netlist))
    (h : (plan s.netlist f chain).outcome = .error e) :
    ∃ s', legalize f chain s = .error e s' := by
  obtain ⟨s₁, hwarnings⟩ := exists_forM_ok (l := (plan s.netlist f chain).warnings)
    (fun d _ t => ⟨_, Packing.emit_ok.mpr rfl⟩) s
  have houtcome : (liftM (plan s.netlist f chain).outcome : Packing (List Step)) s₁ =
      .error e s₁ := by
    rw [h]
    rfl
  have hlinks : (liftM (checkLinks s.netlist f chain) : Packing Unit) s = .ok () s :=
    Packing.check_ok.mpr ⟨checkLinks_of_isChain hchain, rfl⟩
  have hprepare : prepare f chain s = .error e s₁ := by
    unfold prepare
    refine bind_error.mpr (Or.inr ⟨_, s, Packing.netlist_ok.mpr ⟨rfl, rfl⟩, ?_⟩)
    refine bind_error.mpr (Or.inr ⟨_, s, hlinks, ?_⟩)
    refine bind_error.mpr (Or.inr ⟨_, s₁, hwarnings, ?_⟩)
    exact bind_error.mpr (Or.inl houtcome)
  exact ⟨s₁, bind_error.mpr (Or.inl hprepare)⟩

/-- Legalization fails for the length of a chain exactly if the chain cannot be cut
into blocks that fit, and it makes no more segments than any such cut. -/
theorem legalize_complete_and_optimal (hw : s.netlist.WellFormed)
    (hlive : ∀ id ∈ chain, (s.netlist.cell? id).isSome)
    (hchain : chain.IsChain (Together f s.netlist)) :
    ((∃ name capacity limit s', legalize f chain s =
        .error (.rejected (.chainTooLong name capacity limit)) s') ↔
      ¬∃ blocks, IsCut (FitsTile f s.netlist) chain blocks) ∧
    ∀ segments s', legalize f chain s = .ok segments s' →
      IsLeast {n | ∃ blocks, IsCut (FitsTile f s.netlist) chain blocks ∧ blocks.length = n}
        segments.length := by
  have hplan : Optimal f s.netlist chain (plan s.netlist f chain).outcome :=
    optimal_scan hw hlive (OpenSegment.measured_none f s.netlist) nofun
  refine ⟨⟨?_, fun hnone => ?_⟩, fun segments s' h => ?_⟩
  · rintro ⟨name, capacity, limit, s', h⟩ ⟨blocks, hcut⟩
    have houtcome := outcome_of_legalize_error (fun he => he.1 _ _ _ rfl) h
    have hempty := (hplan.uncuttable _ houtcome).1
    exact Set.eq_empty_iff_forall_notMem.mp hempty _ ⟨blocks, hcut, rfl⟩
  · cases houtcome : (plan s.netlist f chain).outcome with
    | ok steps =>
      obtain ⟨⟨blocks, hcut, -⟩, -⟩ := hplan.least steps houtcome
      exact absurd ⟨blocks, hcut⟩ hnone
    | error e =>
      obtain ⟨-, name, rfl⟩ := hplan.uncuttable e houtcome
      obtain ⟨s', h⟩ := legalize_error_of_outcome hchain houtcome
      exact ⟨name, _, _, s', h⟩
  · obtain ⟨steps, houtcome, hlength⟩ := length_of_legalize h
    rw [hlength]
    exact hplan.least steps houtcome

/-- With their three boundary cells the two carry cells are too long for a limit of
four, so they get a segment each. -/
theorem adder_cut : ∃ segments s',
    legalize { Adder.fabric with maxChainLength := 4 } [⟨1⟩, ⟨2⟩] Adder.session =
      .ok segments s' ∧ segments.length = 2 ∧
    IsLeast {n | ∃ blocks, IsCut (FitsTile { Adder.fabric with maxChainLength := 4 }
      Adder.session.netlist) [⟨1⟩, ⟨2⟩] blocks ∧ blocks.length = n} segments.length := by
  have hlive : ∀ id ∈ [⟨1⟩, ⟨2⟩], (Adder.session.netlist.cell? id).isSome := by decide +kernel
  have hchain : [⟨1⟩, ⟨2⟩].IsChain
      (Together { Adder.fabric with maxChainLength := 4 } Adder.session.netlist) :=
    .cons_cons ⟨⟨1⟩, by decide +kernel, by decide +kernel⟩ (.singleton _)
  obtain ⟨s', h⟩ : ∃ s', legalize { Adder.fabric with maxChainLength := 4 } [⟨1⟩, ⟨2⟩]
      Adder.session = .ok [⟨[⟨4⟩, ⟨1⟩, ⟨5⟩], 1⟩, ⟨[⟨6⟩, ⟨2⟩, ⟨7⟩], 1⟩] s' :=
    exists_ok_of_returned (by decide +kernel)
  exact ⟨_, s', h, rfl,
    (legalize_complete_and_optimal Adder.packable.wellFormed hlive hchain).2 _ s' h⟩

end Chain
end FpgaPacking
