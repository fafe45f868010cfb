import FpgaPacking.Proofs.Chain.Greedy
import FpgaPacking.Proofs.Chain.Shapes

/-!
# The blocks of a plan

The steps of a plan are those of one block of cells after the other.  Each block
begins with a feed-in if its first cell is fed, has a pass-through at each link
with other readers, and ends with a pass-out if its last cell is used.  Planning
ends a block before the end of the chain with a pass-out without a look at the
net, which is right because the next cell of the chain is a reader of it.
-/

namespace FpgaPacking
namespace Chain

variable {f : Fabric} {nl : Netlist} {p c : CellId} {block rest chain : List CellId}
  {steps : List Step}

/-! ## Places of a block -/

/-- What stands before a cell in a segment, by the cell of the chain before it in the segment. -/
def placesBefore (f : Fabric) (nl : Netlist) : Option CellId → CellId → List Place
  | none, c => if fed f nl c then [.boundary .feedIn] else []
  | some p, c => if forks f nl p c then [.boundary .passThrough] else []

/-- What stands in a segment after the cell `p` when the given cells come after it. -/
def placesAfter (f : Fabric) (nl : Netlist) : CellId → List CellId → List Place
  | last, [] => if used f nl last then [.boundary .passOut] else []
  | p, c :: rest => placesBefore f nl (some p) c ++ .cell c :: placesAfter f nl c rest

/-- What stands in a segment that consists of the given cells and their boundary cells. -/
def places (f : Fabric) (nl : Netlist) : List CellId → List Place
  | [] => []
  | head :: rest => placesBefore f nl none head ++ .cell head :: placesAfter f nl head rest

/-- The cell of the chain that stands at a place. -/
def Place.cell? : Place → Option CellId
  | .cell id => some id
  | .boundary _ => none

theorem cells_placesBefore {last : Option CellId} :
    (placesBefore f nl last c).filterMap Place.cell? = [] := by
  cases last with
  | none =>
    simp only [placesBefore]
    split <;> rfl
  | some p =>
    simp only [placesBefore]
    split <;> rfl

theorem cells_placesAfter : (placesAfter f nl p rest).filterMap Place.cell? = rest := by
  induction rest generalizing p with
  | nil =>
    unfold placesAfter
    split <;> rfl
  | cons c rest ih =>
    have hcell : (Place.cell c).cell? = some c := rfl
    rw [placesAfter, List.filterMap_append, cells_placesBefore, List.nil_append,
      List.filterMap_cons_some hcell, ih]

theorem cells_places : (places f nl block).filterMap Place.cell? = block := by
  cases block with
  | nil => rfl
  | cons head rest =>
    have hcell : (Place.cell head).cell? = some head := rfl
    rw [places, List.filterMap_append, cells_placesBefore, List.nil_append,
      List.filterMap_cons_some hcell, cells_placesAfter]

theorem length_placesAfter : (placesAfter f nl p rest).length =
    forkCount f nl (p :: rest) + rest.length + ((p :: rest).getLast?.any (used f nl)).toNat := by
  induction rest generalizing p with
  | nil =>
    unfold placesAfter
    rw [List.getLast?_singleton, Option.any_some]
    cases used f nl p <;> rfl
  | cons c rest ih =>
    have hforks : (placesBefore f nl (some p) c).length = (forks f nl p c).toNat := by
      simp only [placesBefore]
      cases forks f nl p c <;> rfl
    rw [placesAfter, List.length_append, hforks, List.length_cons, ih, forkCount_cons_cons,
      List.getLast?_cons_cons, List.length_cons]
    omega

/-- The places are those that the limit on the length is about. -/
theorem length_places (hne : block ≠ []) : (places f nl block).length =
    openLength f nl block + (block.getLast?.any (used f nl)).toNat := by
  obtain ⟨head, rest, rfl⟩ := List.exists_cons_of_ne_nil hne
  have hfed : (placesBefore f nl none head).length = (fed f nl head).toNat := by
    simp only [placesBefore]
    cases fed f nl head <;> rfl
  unfold openLength
  rw [places, List.length_append, hfed, List.length_cons, length_placesAfter, List.head?_cons,
    Option.any_some, List.length_cons]
  omega

/-! ## Steps of a block -/

/-- The steps from the cell `p` of a segment on, when the given cells come after it. -/
def restSteps (f : Fabric) (nl : Netlist) : CellId → List CellId → List Step
  | last, [] => stepsAfter f nl last
  | p, c :: rest => stepsBefore f nl (some p) c ++ .member c :: restSteps f nl c rest

/-- The steps that make a segment of the given cells. -/
def blockSteps (f : Fabric) (nl : Netlist) : List CellId → List Step
  | [] => []
  | head :: rest => stepsBefore f nl none head ++ .member head :: restSteps f nl head rest

/-- A cell of a chain is used if another one comes after it. -/
theorem used_of_together (hw : nl.WellFormed) (h : Together f nl p c)
    (hreads : nl.dir ⟨c, f.chainIn⟩ ≠ some .output) : used f nl p = true := by
  obtain ⟨k, hp, hc⟩ := h
  obtain ⟨n, hn⟩ := Option.isSome_iff_exists.mp (hw.wired.wire_live _ k hp)
  have hsink : ⟨c, f.chainIn⟩ ∈ n.sinks := (hw.wired.sink_iff k n _ hn).mpr ⟨hc, hreads⟩
  have hwire : nl.netOf p f.chainOut = some k := hp
  unfold used
  rw [hwire, Option.any_some, hn, Option.any_some, List.isEmpty_eq_false_iff.mpr
    (List.ne_nil_of_mem hsink), Bool.not_false]

/-- The plan for the rest of a chain goes on with the open segment for some cells
and cuts those after them into blocks. -/
theorem blocks_of_scan (hw : nl.WellFormed) {segment : OpenSegment}
    (hlast : segment.cells.getLast? = some p) (hmeasured : segment.Measured f nl)
    (hfits : FitsTile f nl segment.cells) (hchain : (p :: rest).IsChain (Together f nl))
    (hreads : ∀ id ∈ rest, nl.dir ⟨id, f.chainIn⟩ ≠ some .output)
    (h : (scan nl f segment rest).outcome = .ok steps) :
    ∃ more later blocks, rest = more ++ later ∧ FitsTile f nl (segment.cells ++ more) ∧
      IsCut (FitsTile f nl) later blocks ∧
      steps = restSteps f nl p more ++ blocks.flatMap (blockSteps f nl) := by
  induction rest generalizing segment p steps with
  | nil =>
    unfold scan at h
    rw [finish_eq hw, hlast] at h
    obtain rfl := Except.ok.inj h
    exact ⟨[], [], [], rfl, by rwa [List.append_nil], .nil, (List.append_nil _).symm⟩
  | cons id rest ih =>
    obtain ⟨htogether, hrest⟩ := List.isChain_cons_cons.mp hchain
    obtain ⟨hid, hlater⟩ := List.forall_mem_cons.mp hreads
    obtain ⟨joined, hextend, hjoined, hcells, hsteps, hiff⟩ := extend_eq hw hmeasured id
    unfold scan at h
    rw [hextend] at h
    dsimp only at h
    by_cases hjoins : joined.fits
    · rw [if_pos hjoins] at h
      obtain ⟨next, hscan, rfl⟩ := Plan.outcome_after h
      obtain ⟨more, later, blocks, rfl, hmore, hcut, rfl⟩ := ih
        (by rw [hcells, List.getLast?_concat]) hjoined (hcells ▸ hiff.mp hjoins) hrest hlater hscan
      refine ⟨id :: more, later, blocks, rfl, ?_, hcut, ?_⟩
      · rwa [hcells, List.append_assoc] at hmore
      · rw [hsteps, hlast, restSteps]
        simp
    rw [if_neg hjoins, hlast] at h
    dsimp only at h
    obtain ⟨alone, hstart, halone, hcells', hsteps', hiff'⟩ :=
      extend_eq hw (OpenSegment.measured_none f nl) id
    rw [hstart] at h
    dsimp only at h
    by_cases hstarts : alone.fits
    · -- The open segment ends here, with a pass-out because the next cell reads the link.
      rw [if_pos hstarts] at h
      obtain ⟨next, hscan, rfl⟩ := Plan.outcome_after h
      obtain ⟨more, later, blocks, rfl, hmore, hcut, rfl⟩ := ih
        (by rw [hcells', List.getLast?_concat]) halone (hcells' ▸ hiff'.mp hstarts) hrest hlater hscan
      rw [hcells'] at hmore
      refine ⟨[], id :: (more ++ later), (id :: more) :: blocks, rfl, by rwa [List.append_nil],
        hcut.cons (List.cons_ne_nil id more) hmore, ?_⟩
      rw [hsteps', List.flatMap_cons, blockSteps, restSteps, stepsAfter,
        if_pos (used_of_together hw htogether hid)]
      simp [OpenSegment.none]
    · rw [if_neg hstarts] at h
      cases h

/-- A plan cuts the chain into blocks that fit and makes a segment of each. -/
theorem blocks_of_plan (hw : nl.WellFormed) (hchain : chain.IsChain (Together f nl))
    (hreads : ∀ id ∈ chain, nl.dir ⟨id, f.chainIn⟩ ≠ some .output)
    (h : (plan nl f chain).outcome = .ok steps) :
    ∃ blocks, IsCut (FitsTile f nl) chain blocks ∧ steps = blocks.flatMap (blockSteps f nl) := by
  unfold plan at h
  cases chain with
  | nil =>
    obtain rfl := Except.ok.inj h
    exact ⟨[], .nil, rfl⟩
  | cons head rest =>
    obtain ⟨joined, hextend, hjoined, hcells, hsteps, hiff⟩ :=
      extend_eq hw (OpenSegment.measured_none f nl) head
    unfold scan at h
    rw [hextend] at h
    dsimp only at h
    by_cases hjoins : joined.fits
    · rw [if_pos hjoins] at h
      obtain ⟨next, hscan, rfl⟩ := Plan.outcome_after h
      obtain ⟨more, later, blocks, rfl, hmore, hcut, rfl⟩ := blocks_of_scan hw
        (by rw [hcells, List.getLast?_concat]) hjoined (hcells ▸ hiff.mp hjoins) hchain
        (fun id hid => hreads id (List.mem_cons_of_mem head hid)) hscan
      rw [hcells] at hmore
      refine ⟨(head :: more) :: blocks, hcut.cons (List.cons_ne_nil head more) hmore, ?_⟩
      rw [hsteps, List.flatMap_cons, blockSteps]
      simp [OpenSegment.none]
    · rw [if_neg hjoins] at h
      cases h

end Chain
end FpgaPacking
