import FpgaPacking.Proofs.Chain.Answers
import FpgaPacking.Proofs.Chain.Progress

/-!
# The shape of segments

The shape of a segment says what stands at each of its places: a certain cell of
the chain, or some boundary cell of a certain role.  The steps of a plan determine
the shapes of all segments, since the cells that a run inserts get the roles that
the steps ask for and keep them.
-/

namespace FpgaPacking
namespace Chain

variable {f : Fabric} {nl nl' : Netlist} {moved : List PortRef} {chain : List CellId}
  {segment : Segment} {segments : List Segment} {steps : List Step} {s s' : Session} {id : CellId}

/-- What stands at a place of a segment. -/
inductive Place where
  | cell (id : CellId)
  | boundary (role : Role)
deriving DecidableEq, Repr

/-- What a cell of a netlist is as a member of a segment. -/
def placeOf (nl : Netlist) (id : CellId) : Place :=
  match ((nl.cell? id).map (·.role)).getD .normal with
  | .normal => .cell id
  | role => .boundary role

/-- The places of a segment, and how many of them are counted as cells of the chain. -/
structure Shape where
  places : List Place
  chainCells : Nat
deriving DecidableEq, Repr

namespace Shape

def empty : Shape := ⟨[], 0⟩

def addBoundary (s : Shape) (role : Role) : Shape := { s with places := s.places ++ [.boundary role] }

def addCell (s : Shape) (id : CellId) : Shape := ⟨s.places ++ [.cell id], s.chainCells + 1⟩

end Shape

/-- The shape of a segment of a netlist. -/
def Segment.shape (nl : Netlist) (t : Segment) : Shape := ⟨t.members.map (placeOf nl), t.chainCells⟩

/-- The shapes of the segment that is open, completed, and of those after it, by the steps. -/
def shapes (before : Shape) : List Step → List Shape
  | [] => []
  | .feedIn _ :: rest => shapes (before.addBoundary .feedIn) rest
  | .passThrough _ _ :: rest => shapes (before.addBoundary .passThrough) rest
  | .member id :: rest => shapes (before.addCell id) rest
  | .passOut _ :: rest => shapes (before.addBoundary .passOut) rest
  | .close :: rest => before :: shapes .empty rest

/-! ## Places stay -/

theorem role_of_bare {c : Cell} (hc : nl.bare id = some c) :
    (nl.cell? id).map (·.role) = some c.role := by
  obtain ⟨d, hd, rfl⟩ := Option.map_eq_some_iff.mp hc
  rw [hd]
  rfl

theorem Edited.placeOf_eq (he : Edited moved nl nl') (hlive : (nl.bare id).isSome) :
    placeOf nl' id = placeOf nl id := by
  obtain ⟨c, hc⟩ := Option.isSome_iff_exists.mp hlive
  obtain ⟨m, hm⟩ := he.cells id c hc
  unfold placeOf
  rw [role_of_bare hc, role_of_bare hm]

theorem Edited.shape_eq (he : Edited moved nl nl')
    (hlive : ∀ id ∈ segment.members, (nl.bare id).isSome) :
    segment.shape nl' = segment.shape nl := by
  have hplaces : segment.members.map (placeOf nl') = segment.members.map (placeOf nl) :=
    List.map_congr_left fun id hid => he.placeOf_eq (hlive id hid)
  unfold Segment.shape
  rw [hplaces]

theorem placeOf_normal (hid : ChainCell f nl id) : placeOf nl id = .cell id := by
  obtain ⟨c, hc, hrole⟩ := hid.normal
  unfold placeOf
  rw [role_of_bare hc, hrole]
  rfl

theorem placeOf_boundary {role : Role} {c : Cell} (hc : nl.bare id = some c) (hrole : c.role = role)
    (hboundary : role ≠ .normal) : placeOf nl id = .boundary role := by
  unfold placeOf
  rw [role_of_bare hc, hrole]
  cases role with
  | normal => exact absurd rfl hboundary
  | feedIn => rfl
  | passThrough => rfl
  | passOut => rfl

theorem Segment.shape_addChainCell (hid : ChainCell f nl id) :
    (segment.addChainCell id).shape nl = (segment.shape nl).addCell id := by
  simp [Segment.shape, Segment.addChainCell, Shape.addCell, placeOf_normal hid]

/-- The shape of a segment to which an insertion adds a boundary cell. -/
theorem Inserted.shape_addBoundary {role : Role} {prev next : Option CellId}
    (hi : Inserted f role moved prev next nl nl' id)
    (hlive : ∀ i ∈ segment.members, (nl.bare i).isSome) :
    (segment.addBoundary id).shape nl' = (segment.shape nl).addBoundary role := by
  obtain ⟨c, hc, hrole⟩ := hi.has_role
  obtain ⟨-, d, hd, hboundary⟩ := hi.new
  obtain rfl := Option.some.inj (hc.symm.trans hd)
  have hkept := hi.edited.shape_eq hlive
  have hplaces := congrArg Shape.places hkept
  simp only [Segment.shape] at hplaces
  simp [Segment.shape, Segment.addBoundary, Shape.addBoundary, hplaces,
    placeOf_boundary hc hrole (hrole ▸ hboundary)]

/-- All members of a segment are there after one more has been put into it. -/
theorem Inserted.live_addBoundary {role : Role} {prev next : Option CellId}
    (hi : Inserted f role moved prev next nl nl' id)
    (hlive : ∀ i ∈ segment.members, (nl.bare i).isSome) :
    ∀ i ∈ (segment.addBoundary id).members, (nl'.bare i).isSome := by
  intro i hmem
  rcases List.mem_append.mp hmem with hmem | hmem
  · exact hi.edited.bare_isSome (hlive i hmem)
  · obtain ⟨c, hc, -⟩ := hi.has_role
    simp [List.mem_singleton.mp hmem, hc]

theorem live_addChainCell (hid : ChainCell f nl id)
    (hlive : ∀ i ∈ segment.members, (nl.bare i).isSome) :
    ∀ i ∈ (segment.addChainCell id).members, (nl.bare i).isSome := by
  intro i hmem
  rcases List.mem_append.mp hmem with hmem | hmem
  · exact hlive i hmem
  · exact List.mem_singleton.mp hmem ▸ hid.live

/-! ## Steps determine shapes -/

/-- An execution gives the segments the shapes that its steps say. -/
theorem Execution.shapes_eq {last : Option CellId} {rest : List CellId}
    (h : Execution f chain s last rest segment steps segments s')
    (hlive : ∀ i ∈ segment.members, (s.netlist.bare i).isSome) :
    segments.map (Segment.shape s'.netlist) = shapes (segment.shape s.netlist) steps := by
  induction h with
  | done => rfl
  | finish => rfl
  | finishOut _ hi =>
    rw [List.map_singleton, hi.shape_addBoundary hlive]
    rfl
  | split _ hi h ih =>
    obtain ⟨moved, ids, hcarried⟩ := h.carriedOut
    have hclosed := hcarried.edited.shape_eq (hi.live_addBoundary hlive)
    rw [List.map_cons, ih nofun, hclosed, hi.shape_addBoundary hlive]
    rfl
  | start _ hpending _ _ ih =>
    obtain ⟨hc, -⟩ := hpending.next.of_last _ rfl
    rw [ih (live_addChainCell hc hlive), Segment.shape_addChainCell hc]
    rfl
  | startFed hpending hi _ ih =>
    obtain ⟨hc, -⟩ := hpending.next.of_last _ rfl
    have hc₁ := hc.edited hi.edited
    rw [ih (live_addChainCell hc₁ (hi.live_addBoundary hlive)), Segment.shape_addChainCell hc₁,
      hi.shape_addBoundary hlive]
    rfl
  | join _ hpending _ _ ih =>
    obtain ⟨hc, -⟩ := hpending.next.of_last _ rfl
    rw [ih (live_addChainCell hc hlive), Segment.shape_addChainCell hc]
    rfl
  | joinThrough hpending hi _ ih =>
    obtain ⟨hc, -⟩ := hpending.next.of_last _ rfl
    have hc₁ := hc.edited hi.edited
    rw [ih (live_addChainCell hc₁ (hi.live_addBoundary hlive)), Segment.shape_addChainCell hc₁,
      hi.shape_addBoundary hlive]
    rfl

/-- The shapes of the segments that legalization makes are those of the plan. -/
theorem shapes_of_legalize (hf : f.Declared) (hw : s.netlist.WellFormed)
    (hchain : Intact f s.netlist chain) (h : legalize f chain s = .ok segments s') :
    ∃ steps, (plan s.netlist f chain).outcome = .ok steps ∧
      segments.map (Segment.shape s'.netlist) = shapes .empty steps := by
  obtain ⟨steps, s₁, s₂, houtcome, -, hexecution, hnoted⟩ :=
    execution_of_legalize hf hw hchain.cells hchain.nodup h
  rw [hnoted]
  exact ⟨steps, houtcome, hexecution.shapes_eq nofun⟩

end Chain
end FpgaPacking
