import FpgaPacking.Chain.Trace
import FpgaPacking.Proofs.Chain.Interleaving
import FpgaPacking.Proofs.Chain.RoundTrip
import FpgaPacking.Proofs.Chain.Totality
import FpgaPacking.Proofs.Faults.Clusters

/-!
# Chains without faults

A plan names cells of the chain only.  The insertions that carry it out remove no
cell, and each looks up cells of the chain and the boundary cell it has made.  So
nothing is missing while a chain is legalized, whatever the ports of its cells and
the templates of the fabric are like, and all members of its segments are live when
clusters are built of them.
-/

namespace FpgaPacking
namespace Chain

open Netlist Edit

variable {f : Fabric} {names : Names} {nl : Netlist} {s s' : Session} {l chain : List CellId}
  {id head prev next tail : CellId} {port : Ident} {k : NetId}

/-! ## Tracing -/

/-- The trace of a live cell's signal goes through live cells. -/
theorem exists_traceFrom (hw : nl.WellFormed) (f : Fabric) (hlive : (nl.cell? id).isSome)
    (unvisited : List CellId) : ∃ chain, traceFrom nl f unvisited id = .ok chain := by
  induction hn : unvisited.length generalizing unvisited id with
  | zero =>
    obtain ⟨c, hc⟩ := Option.isSome_iff_exists.mp hlive
    obtain rfl := List.length_eq_zero_iff.mp hn
    exact ⟨[], traceFrom_of_visited hc List.not_mem_nil⟩
  | succ n ih =>
    obtain ⟨c, hc⟩ := Option.isSome_iff_exists.mp hlive
    by_cases hid : id ∈ unvisited
    · rw [traceFrom, cell_eq_ok.mpr hc]
      simp only [bind, Except.bind, if_pos hid]
      cases hk : signalOut f c with
      | none => exact ⟨_, rfl⟩
      | some k =>
        have hsignal : signal f nl id = some k := by
          unfold signal
          rw [hc]
          exact hk
        obtain ⟨port, hwire⟩ := wire_of_signal hsignal
        rcases follower_cases (f := f) hw (hw.wired.wire_live _ k hwire) with
          ⟨r, hread, -, -, hfollower⟩ | ⟨-, hfollower⟩
        · have hnext : (nl.cell? r.cell).isSome := by
            rw [← bare_isSome]
            exact bare_isSome_of_wire hread
          obtain ⟨rest, hrest⟩ := ih hnext (unvisited.erase id) (by
            rw [List.length_erase_of_mem hid, hn]
            rfl)
          rw [Option.mapM_some, hfollower]
          simp only [Functor.map, Except.map, hrest]
          exact ⟨_, rfl⟩
        · rw [Option.mapM_some, hfollower]
          exact ⟨_, rfl⟩
    · exact ⟨[], traceFrom_of_visited hc hid⟩

theorem exists_trace (hw : nl.WellFormed) (f : Fabric) (hlive : (nl.cell? id).isSome) :
    ∃ chain, trace nl f id = .ok chain :=
  exists_traceFrom hw f hlive nl.cellIds

/-! ## Planning -/

/-- The cells that a step names. -/
def Step.cells : Step → List CellId
  | .feedIn id | .member id | .passOut id => [id]
  | .passThrough prev next => [prev, next]
  | .close => []

theorem cells_of_joining {segment : OpenSegment} {joined : Extension}
    (h : extend nl f segment id = .ok joined) :
    ∀ step ∈ joined.steps, step.cells ⊆ segment.cells ++ [id] := by
  rcases steps_of_extend h with hsteps | ⟨-, hsteps⟩ | ⟨p, hp, hsteps⟩
  · simp [hsteps, Step.cells]
  · simp [hsteps, Step.cells]
  · simp [hsteps, Step.cells, List.mem_of_getLast? hp]

theorem cells_of_finish {segment : OpenSegment} {steps : List Step}
    (h : finish nl f segment = .ok steps) : ∀ step ∈ steps, step.cells ⊆ segment.cells := by
  unfold finish at h
  cases hlast : segment.cells.getLast? with
  | none =>
    rw [hlast] at h
    obtain rfl := Except.ok.inj h
    exact nofun
  | some p =>
    rw [hlast] at h
    obtain ⟨used, -, h⟩ := except_bind_ok.mp h
    obtain rfl := Except.ok.inj h
    have hp := List.mem_of_getLast? hlast
    cases used <;> simp [Step.cells, hp]

/-- What planning decides on names cells of the chain only. -/
theorem cells_of_decided {rest : List CellId} {segment : OpenSegment} :
    ∀ step ∈ decided nl f segment rest, step.cells ⊆ segment.cells ++ rest := by
  induction rest generalizing segment with
  | nil =>
    unfold decided
    rw [List.append_nil]
    split
    · next hfinish => exact cells_of_finish hfinish
    · exact nofun
  | cons id rest ih =>
    unfold decided
    have hjoins : segment.cells ++ [id] ⊆ segment.cells ++ id :: rest := by simp
    have hstarts : id :: rest ⊆ segment.cells ++ id :: rest := List.subset_append_right _ _
    cases hextend : extend nl f segment id with
    | error e => exact nofun
    | ok joined =>
      dsimp only
      by_cases hfits : joined.fits
      · rw [if_pos hfits]
        refine List.forall_mem_append.mpr ⟨fun step hstep => ?_, ?_⟩
        · exact List.Subset.trans (cells_of_joining hextend step hstep) hjoins
        · simpa [cells_of_extend hextend] using @ih joined.segment
      rw [if_neg hfits]
      cases hlast : segment.cells.getLast? with
      | none => exact nofun
      | some p =>
        have hends : ∀ step ∈ [Step.passOut p, .close], step.cells ⊆ segment.cells ++ id :: rest := by
          simp [Step.cells, List.mem_of_getLast? hlast]
        dsimp only
        cases halone : extend nl f .none id with
        | error e => exact hends
        | ok alone =>
          dsimp only
          by_cases hfits' : alone.fits
          · rw [if_pos hfits']
            have hcells : alone.segment.cells = [id] := cells_of_extend halone
            have hhead : ∀ step ∈ alone.steps, step.cells ⊆ segment.cells ++ id :: rest := by
              intro step hstep
              exact List.Subset.trans (cells_of_joining halone step hstep)
                (List.Subset.trans (by simp [OpenSegment.none]) hstarts)
            have hlater : ∀ step ∈ decided nl f alone.segment rest,
                step.cells ⊆ segment.cells ++ id :: rest := by
              intro step hstep
              have hstep := ih step hstep
              rw [hcells] at hstep
              exact List.Subset.trans hstep hstarts
            exact List.forall_mem_append.mpr ⟨List.forall_mem_append.mpr ⟨hends, hhead⟩, hlater⟩
          · rw [if_neg hfits']
            exact hends

/-! ## Insertions -/

/-- The netlist is well-formed and has the given cells. -/
structure HasCells (l : List CellId) (nl : Netlist) : Prop where
  wellFormed : nl.WellFormed
  live : ∀ id ∈ l, (nl.cell? id).isSome

theorem HasCells.subset {l' : List CellId} (h : HasCells l nl) (hsub : l' ⊆ l) : HasCells l' nl :=
  ⟨h.wellFormed, fun id hid => h.live id (hsub hid)⟩

theorem keeps_hasCells {α : Type} {x : Packing α} (hw : Packing.Keeps WellFormed x)
    (hlive : ∀ id, Packing.Keeps (fun nl => (nl.cell? id).isSome) x) (l : List CellId) :
    Packing.Keeps (HasCells l) x :=
  fun s h => ⟨hw s h.wellFormed, fun id hid => hlive id s (h.live id hid)⟩

theorem faultless_instantiate (t : CellTemplate) (name : String) :
    Faultless (t.instantiate name names) nl := by
  refine faultless_bind names ((Fails.modifyGet _).faultless names) fun id nl₁ hcreate => ?_
  obtain ⟨hid, hnl⟩ := createCell_ok hcreate
  have hlive : (nl₁.cell? id).isSome := by
    rw [hid, hnl, cell?_addCell, if_pos rfl]
    rfl
  refine faultless_bind names (Fails.faultless names ?_) fun _ nl₂ hadd => ?_
  · exact .forM (fun p => fails_addPort Failure.reported_violation p.2) t.ports
  have hlive₂ : (nl₂.cell? id).isSome := by
    refine (Keeps.forM (I := fun nl => (nl.cell? id).isSome) (fun p => ?_) t.ports).of_ok hadd hlive
    exact (Cluster.rewiring_live id).keeps_addPort p.2
  exact faultless_bind names (faultless_updateCell names hlive₂) fun _ _ _ => .pure _ _

section Steps

variable (h : HasCells l s.netlist)
include h

theorem endsIn_edit {α : Type} {x : Edit α} (hx : Faultless (x s.names) s.netlist)
    (hw : Keeps WellFormed x) (hlive : ∀ id, Keeps (fun nl => (nl.cell? id).isSome) x) :
    EndsIn (fun _ s' => HasCells l s'.netlist) (liftM x : Packing α) s :=
  .of_invariant (Packing.faultless_edit hx)
    (keeps_hasCells (.edit hw) (fun id => .edit (hlive id)) l) h

theorem endsIn_check {α : Type} {x : Except Failure α} (hx : Refuses Failure.Reported x) :
    EndsIn (fun _ s' => HasCells l s'.netlist) (liftM x : Packing α) s :=
  .of_invariant (Packing.faultless_check hx) (Packing.Keeps.check x) h

theorem endsIn_cell (hid : id ∈ l) :
    EndsIn (fun _ s' => HasCells l s'.netlist) (liftM (cell id) : Packing Cell) s := by
  obtain ⟨c, hc⟩ := Option.isSome_iff_exists.mp (h.live id hid)
  exact endsIn_edit h (.of_ok (cell_of_some s.names hc)) (Keeps.cell id) fun _ => Keeps.cell id

theorem endsIn_updateCell {g : Cell → Cell} (hg : ∀ c, (g c).ports = c.ports) (hid : id ∈ l) :
    EndsIn (fun _ s' => HasCells l s'.netlist) (liftM (updateCell id g) : Packing Unit) s :=
  endsIn_edit h (faultless_updateCell s.names (h.live id hid)) (keeps_updateCell hg)
    fun other => Cluster.keeps_live_updateCell other id g

theorem endsIn_connect :
    EndsIn (fun _ s' => HasCells l s'.netlist) (liftM (connect id port k) : Packing Unit) s :=
  endsIn_edit h (faultless_connect s.names h.wellFormed) structural_wellFormed.keeps_connect
    fun other => (Cluster.rewiring_live other).keeps_connect

theorem endsIn_disconnect :
    EndsIn (fun _ s' => HasCells l s'.netlist)
      (liftM (disconnect id port) : Packing (Option NetId)) s :=
  endsIn_edit h (faultless_disconnect s.names) structural_wellFormed.keeps_disconnect
    fun other => (Cluster.rewiring_live other).keeps_disconnect

theorem endsIn_detach (hid : id ∈ l) :
    EndsIn (fun _ s' => HasCells l s'.netlist) (liftM (detach id port) : Packing NetId) s := by
  refine endsIn_edit h ?_ (keeps_detach_of structural_wellFormed.keeps_disconnect)
    fun other => keeps_detach_of (Cluster.rewiring_live other).keeps_disconnect
  refine faultless_bind s.names (faultless_disconnect s.names) fun onNet nl hcut => ?_
  cases onNet with
  | some k => exact .pure k nl
  | none =>
    have hlive : (nl.cell? id).isSome :=
      (Cluster.rewiring_live id).keeps_disconnect.of_ok hcut (h.live id hid)
    obtain ⟨c, hc⟩ := Option.isSome_iff_exists.mp hlive
    refine faultless_bind_of_ok s.names (cell_of_some s.names hc) ?_
    exact faultless_bind_of_ok s.names (a := s.names.resolve port) rfl (faultless_violate s.names _)

theorem endsIn_linkNet (hid : id ∈ l) :
    EndsIn (fun _ s' => HasCells l s'.netlist) (liftM (linkNet id) : Packing NetId) s := by
  refine endsIn_edit h ?_ (structural_wellFormed.keeps_linkNet id)
    fun other => (Cluster.routing_live other).keeps_linkNet id
  obtain ⟨c, hc⟩ := Option.isSome_iff_exists.mp (h.live id hid)
  refine faultless_bind_of_ok s.names (cell_of_some s.names hc) ?_
  refine faultless_bind s.names ((Fails.modifyGet _).faultless s.names) fun name nl _ => ?_
  exact (Fails.modifyGet _).faultless s.names

theorem endsIn_uniqueName (base : String) :
    EndsIn (fun _ s' => HasCells l s'.netlist) (liftM (uniqueName base) : Packing String) s :=
  endsIn_edit h ((Fails.modifyGet _).faultless s.names) (keeps_uniqueName base)
    fun other => (Cluster.routing_live other).keeps_uniqueName base

/-- The new cell is there with the others. -/
theorem endsIn_instantiate (t : CellTemplate) (name : String) :
    EndsIn (fun id s' => HasCells (id :: l) s'.netlist)
      (liftM (t.instantiate name) : Packing CellId) s := by
  obtain ⟨hfaultless, hends⟩ := endsIn_edit h (faultless_instantiate t name)
    (structural_wellFormed.keeps_instantiate t name)
    fun other => (Cluster.routing_live other).keeps_instantiate t name
  refine ⟨hfaultless, fun id s' hrun => ?_⟩
  have hkept := hends id s' hrun
  refine ⟨hkept.wellFormed, List.forall_mem_cons.mpr ⟨?_, hkept.live⟩⟩
  obtain ⟨nl', hmade, rfl⟩ := Packing.edit_ok.mp hrun
  obtain ⟨-, -, -, rfl, d, hbare, -⟩ := instantiate_ok h.wellFormed hmade
  rw [← bare_isSome, hbare, Function.update_self]
  rfl

theorem endsIn_boundaryCell {role : Role} (hid : id ∈ l) :
    EndsIn (fun made s' => HasCells (made.1 :: l) s'.netlist) (boundaryCell f role id) s := by
  refine .bind (endsIn_check h (refuses_boundaryTemplate Failure.reported_violation f role))
    fun t s₁ h₁ => ?_
  refine .bind (endsIn_cell h₁ hid) fun c s₂ h₂ => ?_
  refine .bind (endsIn_uniqueName h₂ _) fun name s₃ h₃ => ?_
  refine .bind (endsIn_instantiate h₃ t.cell name) fun new s₄ h₄ => ?_
  refine .bind (.of_invariant (.of_ok rfl) (Packing.Keeps.name _) h₄) fun key s₅ h₅ => ?_
  exact .bind (endsIn_updateCell h₅ (fun _ => rfl) List.mem_cons_self) fun _ s₆ h₆ => .pure h₆

theorem endsIn_insertFeedIn (hhead : head ∈ l) :
    EndsIn (fun id s' => HasCells (id :: l) s'.netlist) (insertFeedIn f head) s := by
  refine .bind (endsIn_boundaryCell h hhead) fun made s₁ h₁ => ?_
  have hnew : made.1 ∈ made.1 :: l := List.mem_cons_self
  refine .bind (endsIn_check h₁ (refuses_requiredPort Failure.reported_violation f _ _ _))
    fun output s₂ h₂ => ?_
  refine .bind (endsIn_detach h₂ (List.mem_cons_of_mem _ hhead)) fun external s₃ h₃ => ?_
  refine .bind (endsIn_connect h₃) fun _ s₄ h₄ => ?_
  refine .bind (endsIn_linkNet h₄ hnew) fun link s₅ h₅ => ?_
  refine .bind (endsIn_connect h₅) fun _ s₆ h₆ => ?_
  exact .bind (endsIn_connect h₆) fun _ s₇ h₇ => .pure h₇

theorem endsIn_insertPassThrough (hprev : prev ∈ l) :
    EndsIn (fun id s' => HasCells (id :: l) s'.netlist) (insertPassThrough f prev next) s := by
  refine .bind (endsIn_boundaryCell h hprev) fun made s₁ h₁ => ?_
  have hnew : made.1 ∈ made.1 :: l := List.mem_cons_self
  have hold : prev ∈ made.1 :: l := List.mem_cons_of_mem _ hprev
  refine .bind (endsIn_check h₁ (refuses_requiredPort Failure.reported_violation f _ _ _))
    fun output s₂ h₂ => ?_
  refine .bind (endsIn_check h₂ (refuses_requiredPort Failure.reported_violation f _ _ _))
    fun routed s₃ h₃ => ?_
  refine .bind (endsIn_detach h₃ hold) fun signal s₄ h₄ => ?_
  refine .bind (endsIn_linkNet h₄ hold) fun before s₅ h₅ => ?_
  refine .bind (endsIn_connect h₅) fun _ s₆ h₆ => ?_
  refine .bind (endsIn_connect h₆) fun _ s₇ h₇ => ?_
  refine .bind (endsIn_connect h₇) fun _ s₈ h₈ => ?_
  refine .bind (endsIn_disconnect h₈) fun _ s₉ h₉ => ?_
  refine .bind (endsIn_linkNet h₉ hnew) fun after s₁₀ h₁₀ => ?_
  refine .bind (endsIn_connect h₁₀) fun _ s₁₁ h₁₁ => ?_
  exact .bind (endsIn_connect h₁₁) fun _ s₁₂ h₁₂ => .pure h₁₂

theorem endsIn_insertPassOut (htail : tail ∈ l) :
    EndsIn (fun id s' => HasCells (id :: l) s'.netlist) (insertPassOut f tail) s := by
  refine .bind (endsIn_boundaryCell h htail) fun made s₁ h₁ => ?_
  have hold : tail ∈ made.1 :: l := List.mem_cons_of_mem _ htail
  refine .bind (endsIn_check h₁ (refuses_requiredPort Failure.reported_violation f _ _ _))
    fun routed s₂ h₂ => ?_
  refine .bind (endsIn_detach h₂ hold) fun signal s₃ h₃ => ?_
  refine .bind (endsIn_linkNet h₃ hold) fun link s₄ h₄ => ?_
  refine .bind (endsIn_connect h₄) fun _ s₅ h₅ => ?_
  refine .bind (endsIn_connect h₅) fun _ s₆ h₆ => ?_
  exact .bind (endsIn_connect h₆) fun _ s₇ h₇ => .pure h₇

end Steps

/-! ## Legalization -/

/-- All members of the segments that are made are there. -/
theorem endsIn_carryOut (steps : List Step) {segment : Segment} (h : HasCells l s.netlist)
    (hsteps : ∀ step ∈ steps, step.cells ⊆ l) (hsegment : segment.members ⊆ l) :
    EndsIn (fun segments s' => HasCells (l ++ segments.flatMap (·.members)) s'.netlist)
      (carryOut f segment steps) s := by
  induction steps generalizing l segment s with
  | nil => exact .pure (by simpa using h)
  | cons step rest ih =>
    obtain ⟨hstep, hrest⟩ := List.forall_mem_cons.mp hsteps
    -- A boundary cell joins the cells that are there and the open segment.
    have hinserted : ∀ (id : CellId) (s₁ : Session), HasCells (id :: l) s₁.netlist →
        EndsIn (fun segments s' => HasCells (l ++ segments.flatMap (·.members)) s'.netlist)
          (carryOut f (segment.addBoundary id) rest) s₁ := by
      intro id s₁ h₁
      have hmembers : (segment.addBoundary id).members ⊆ id :: l := by
        refine List.append_subset.mpr ⟨?_, by simp⟩
        exact List.Subset.trans hsegment (List.subset_cons_self id l)
      refine (ih h₁ (fun later hlater => ?_) hmembers).mono fun segments s' h' => ?_
      · exact List.Subset.trans (hrest later hlater) (List.subset_cons_self id l)
      · exact h'.subset (List.subset_cons_self id _)
    cases step with
    | feedIn head => exact .bind (endsIn_insertFeedIn h (hstep List.mem_cons_self)) hinserted
    | passThrough prev next =>
      exact .bind (endsIn_insertPassThrough h (hstep List.mem_cons_self)) hinserted
    | passOut tail => exact .bind (endsIn_insertPassOut h (hstep List.mem_cons_self)) hinserted
    | member id => exact ih h hrest (List.append_subset.mpr ⟨hsegment, hstep⟩)
    | close =>
      refine .bind (ih h hrest (List.nil_subset l)) fun later s₁ h₁ => .pure (h₁.subset ?_)
      refine List.append_subset.mpr ⟨List.subset_append_left _ _, ?_⟩
      refine List.append_subset.mpr ⟨?_, List.subset_append_right _ _⟩
      exact List.Subset.trans hsegment (List.subset_append_left _ _)

theorem refuses_cell_of_live {P : Failure → Prop} (hlive : (nl.cell? id).isSome) :
    Refuses P ((nl.cell id).mapError .fault) := by
  obtain ⟨c, -, hc⟩ := Cluster.lookup_of_live hlive
  rw [hc]
  exact .ok c

/-- Planning fails only for a cell that is named. -/
theorem refuses_plan (h : HasCells chain nl) (f : Fabric) :
    Refuses Failure.Reported (plan nl f chain).outcome := by
  intro e he
  have hplan := optimal_scan h.wellFormed h.live (OpenSegment.measured_none f nl) nofun
  obtain ⟨-, name, rfl⟩ := hplan.uncuttable e he
  exact Failure.reported_rejected _

theorem endsIn_prepare (h : HasCells chain s.netlist) :
    EndsIn (fun steps s' => HasCells chain s'.netlist ∧ ∀ step ∈ steps, step.cells ⊆ chain)
      (prepare f chain) s := by
  refine ⟨?_, fun steps s' hrun => ⟨(keeps_prepare f chain).of_ok hrun h, ?_⟩⟩
  · refine .bind_of_ok (a := s.netlist) rfl ?_
    refine .bind (Packing.faultless_check (refuses_checkLinks Failure.reported_violation f
      fun id hid => refuses_cell_of_live (h.live id hid))) fun _ s₁ _ => ?_
    refine .bind (.forM_of_all (fun d _ => .of_ok rfl) _ _) fun _ s₂ _ => ?_
    refine .bind (Packing.faultless_check (refuses_plan h f)) fun steps s₃ _ => ?_
    exact .bind (.forM_of_all (fun step _ => Packing.faultless_check
      (refuses_checkTemplate Failure.reported_violation f step)) _ _) fun _ _ _ => .pure _ _
  · obtain ⟨-, houtcome, -⟩ := plan_of_prepare hrun
    rw [← decided_of_outcome houtcome]
    exact cells_of_decided

theorem endsIn_legalize (h : HasCells chain s.netlist) :
    EndsIn (fun segments s' => HasCells (segments.flatMap (·.members)) s'.netlist)
      (legalize f chain) s := by
  refine .bind (endsIn_prepare h) fun steps s₁ ⟨h₁, hsteps⟩ => ?_
  refine .bind (endsIn_carryOut steps h₁ hsteps (List.nil_subset chain)) fun segments s₂ h₂ => ?_
  cases hhead : chain.head? with
  | none => exact .pure (h₂.subset (List.subset_append_right chain _))
  | some head =>
    have hmem : head ∈ chain ++ segments.flatMap (·.members) :=
      List.mem_append_left _ (List.mem_of_head? hhead)
    refine .bind (endsIn_cell h₂ hmem) fun c s₃ h₃ => ?_
    refine .bind (.of_invariant (.of_ok rfl) (Packing.Keeps.emit _) h₃) fun _ s₄ h₄ => .pure ?_
    exact h₄.subset (List.subset_append_right chain _)

/-! ## Packing -/

/-- The members of all segments are live until a cluster is built of them. -/
theorem faultless_packChain (h : HasCells chain s.netlist)
    (hclusters : Cluster.Consistent s.netlist.membership) : Faultless (Pack.packChain f chain) s := by
  have hI := Cluster.structural_consistent
  obtain ⟨hfaultless, hends⟩ := endsIn_legalize (f := f) h
  refine .bind hfaultless fun segments s₁ hrun => .bind ?_ fun _ _ _ => .pure _ _
  have hlive := (hends segments s₁ hrun).live
  refine Faultless.forM_kept (I := fun s : Session => Cluster.Consistent s.netlist.membership)
    (Q := fun t (s : Session) => ∀ id ∈ t.members, (s.netlist.cell? id).isSome)
    (fun t s hs ht => ?_) (fun t => ?_) (fun other t s ht => ?_) ?_ fun t ht id hid => ?_
  · exact Packing.faultless_edit (Cluster.faultless_constrainSegment hs ht f.slotsPerTile)
  · exact Packing.Keeps.edit (Cluster.keeps_constrainSegment_of hI.keeps_build _ _)
  · intro id hid
    have hkeeps :=
      Cluster.keeps_constrainSegment_of (Cluster.keeps_live_build id) t.members f.slotsPerTile
    exact Packing.Keeps.edit hkeeps s (ht id hid)
  · exact ((hI.splicing f).keeps_legalize chain).of_ok hrun hclusters
  · exact hlive id (List.mem_flatMap.mpr ⟨t, ht, hid⟩)

/-- Packing a chain leaves the cells of the other chains. -/
theorem faultless_packChains (hw : s.netlist.WellFormed)
    (hclusters : Cluster.Consistent s.netlist.membership) (f : Fabric) :
    Faultless (packChains f) s := by
  obtain ⟨s₁, hdiscover, hsame⟩ := exists_discover (Pack.navigation f)
  refine .bind_of_ok hdiscover (.bind ?_ fun _ _ _ => .pure _ _)
  refine Faultless.mapM_kept
    (I := fun s : Session => s.netlist.WellFormed ∧ Cluster.Consistent s.netlist.membership)
    (Q := fun chain (s : Session) => ∀ id ∈ chain, (s.netlist.cell? id).isSome)
    (fun chain s hs hchain => ?_) (fun chain s hs => ?_) (fun other chain s hother => ?_) ?_ ?_
  · exact faultless_packChain ⟨hs.1, hchain⟩ hs.2
  · have hI := structural_wellFormed
    have hJ := Cluster.structural_consistent
    exact ⟨(hI.splicing f).keeps_packChain hI.keeps_build chain s hs.1,
      (hJ.splicing f).keeps_packChain hJ.keeps_build chain s hs.2⟩
  · exact fun id hid => keeps_live_packChain id f chain s (hother id hid)
  · rw [hsame]
    exact ⟨hw, hclusters⟩
  · intro chain hchain id hid
    obtain ⟨c, hc, -⟩ := (foundChains_spec.1 chain hchain).2 id hid
    rw [hsame, hc]
    rfl

end Chain
end FpgaPacking
