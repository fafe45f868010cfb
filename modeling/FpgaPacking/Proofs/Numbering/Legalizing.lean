import FpgaPacking.Proofs.Cluster.Building
import FpgaPacking.Proofs.Numbering.Planning

/-!
# Chain packing does not depend on numbering

The plan of a chain is the same under all numberings.  Here the steps of a plan are
carried out, on sessions that differ in numbering only: the boundary cells get the
same names and come in the same order, and the new connections are on the same
nets.  Clusters hold handles only.
-/

namespace FpgaPacking

variable {R S : Renaming} {i i' : Ident}

theorem CellTemplate.Alike.instantiate {t t' : CellTemplate} (h : t.Alike R t') (name : String) :
    Edit.Alike R Eq (t.instantiate name) (t'.instantiate name) := by
  refine (Edit.alike_createCell h.cellType name).bind_same fun id => ?_
  have hports : Edit.Alike R Eq (t.ports.forM fun p => Edit.addPort id p.1 p.2)
      (t'.ports.forM fun p => Edit.addPort id p.1 p.2) := by
    refine .forM h.ports fun p p' hp => ?_
    rw [hp.2]
    exact Edit.alike_addPort id hp.1 p.2
  refine hports.bind_same fun _ => ?_
  have hparams : Edit.Alike R Eq (Edit.updateCell id fun c => { c with params := t.params })
      (Edit.updateCell id fun c => { c with params := t'.params }) :=
    Edit.alike_updateCell id fun c c' hc => { hc with params := h.params }
  exact hparams.bind_same fun _ => .pure rfl

/-- Entering one name pairs its identifiers. -/
theorem Naming.alike_naming (name : String) :
    Naming.Alike R (fun S i i' => S i i') (naming name) (naming name) :=
  fun names names' _ => Names.matching_intern names names' name

/-! ## Clusters -/

namespace Cluster

variable {nl nl' : Netlist} (hnl : nl.Alike R nl')
include hnl

theorem checkRootOffset_of_alike (root : CellId) (offset : Offset) :
    checkRootOffset nl' root offset = checkRootOffset nl root offset := by
  unfold checkRootOffset
  split
  · rfl
  · refine ((hnl.cell root).mapError Failure.fault).bind_eq fun c c' hc => ?_
    rw [hc.name]

theorem conflict_of_alike (id existing requested : CellId) :
    conflict nl' id existing requested = conflict nl id existing requested := by
  unfold conflict
  refine (hnl.cell id).bind_eq fun a a' ha => (hnl.cell existing).bind_eq fun b b' hb => ?_
  refine (hnl.cell requested).bind_eq fun c c' hc => ?_
  rw [ha.name, hb.name, hc.name]

theorem checkFree_of_alike (id requested : CellId) :
    checkFree nl' id requested = checkFree nl id requested := by
  unfold checkFree
  refine ((hnl.cell id).mapError Failure.fault).bind_eq fun c c' hc => ?_
  simp only [hc.cluster, conflict_of_alike hnl]

theorem checkMembers_of_alike (root : CellId) (seen members : List CellId) :
    checkMembers nl' root seen members = checkMembers nl root seen members := by
  induction members generalizing seen with
  | nil => rfl
  | cons id rest ih =>
    rw [checkMembers_cons, checkMembers_cons]
    simp only [checkFree_of_alike hnl, conflict_of_alike hnl, ih]

theorem checkFreeSlots_of_alike (root : CellId) (rootOffset : Offset) (taken : List (Slot × CellId))
    (members : List Placed) :
    checkFreeSlots nl' root rootOffset taken members =
      checkFreeSlots nl root rootOffset taken members := by
  induction members generalizing taken with
  | nil => rfl
  | cons placed rest ih =>
    unfold checkFreeSlots
    dsimp only
    cases taken.lookup (slot rootOffset placed.2) with
    | none => exact ih _
    | some first =>
      refine ((hnl.cell root).mapError Failure.fault).bind_eq fun r r' hr => ?_
      refine ((hnl.cell first).mapError Failure.fault).bind_eq fun a a' ha => ?_
      refine ((hnl.cell placed.1).mapError Failure.fault).bind_eq fun b b' hb => ?_
      rw [hr.name, ha.name, hb.name]

theorem checkBuild_of_alike (root : CellId) (rootOffset : Offset) (members : List Placed) :
    checkBuild nl' root rootOffset members = checkBuild nl root rootOffset members := by
  unfold checkBuild checkSlots
  rw [checkRootOffset_of_alike hnl, checkFree_of_alike hnl, checkMembers_of_alike hnl,
    checkFreeSlots_of_alike hnl]

omit hnl

theorem alike_build (root : CellId) (rootOffset : Offset) (members : List Placed) :
    Edit.Alike R Eq (build root rootOffset members) (build root rootOffset members) := by
  have hjoin : ∀ (id : CellId) (m : Membership), Edit.Alike R Eq
      (Edit.updateCell id fun c => { c with cluster := m })
      (Edit.updateCell id fun c => { c with cluster := m }) := fun id m =>
    Edit.alike_updateCell id fun c c' hc => { hc with cluster := rfl }
  refine Edit.Alike.get.bind fun nl nl' hnl => ?_
  rw [checkBuild_of_alike hnl]
  cases checkBuild nl root rootOffset members with
  | error e => exact .throw e
  | ok _ =>
    refine (hjoin root _).bind_same fun _ => ?_
    exact .forM_same members fun placed => hjoin placed.1 _

theorem alike_constrainSegment (members : List CellId) (slotsPerTile : Nat) :
    Edit.Alike R Eq (constrainSegment members slotsPerTile)
      (constrainSegment members slotsPerTile) := by
  unfold constrainSegment
  split
  · exact .violate _
  · cases members with
    | nil => exact .pure rfl
    | cons root rest =>
      dsimp only
      cases segmentPlaces slotsPerTile rest with
      | error e => exact .throw e
      | ok placed => exact alike_build root _ placed

end Cluster

namespace Chain

variable {f f' : Fabric} (hf : f.Alike R f')

/-! ## Discovery -/

include hf

theorem alike_discover :
    Packing.Alike R Eq (discover (Pack.isEligible f) (Pack.navigation f) f.minLength)
      (discover (Pack.isEligible f') (Pack.navigation f') f'.minLength) := by
  refine Packing.Alike.netlist.bind fun nl nl' hnl => ?_
  obtain ⟨S, hRS, hnl⟩ := hnl
  rw [find_of_alike (hf.mono hRS) hnl]
  generalize find nl _ _ _ = chains
  refine (Packing.Alike.forM_same chains fun chain => ?_).bind_same fun _ => .pure rfl
  rw [foundNote_of_alike hnl]
  exact (Packing.Alike.lookup (.same _)).bind_same fun d => .emit d

/-! ## Boundary cells -/

theorem boundaryTemplate_of_alike (role : Role) :
    Agree (BoundaryTemplate.Alike R) (boundaryTemplate f role) (boundaryTemplate f' role) := by
  unfold boundaryTemplate
  rw [hf.family]
  match f.boundary role, f'.boundary role, hf.boundary role with
  | _, _, .none => exact .error _
  | _, _, .some ht => exact .ok ht

theorem requiredPort_of_alike (role : Role) (description : String) {port port' : Option Ident}
    (hport : Option.Rel R.Holds port port') :
    Agree R.Holds (requiredPort f role description port)
      (requiredPort f' role description port') := by
  cases hport with
  | none =>
    unfold requiredPort
    rw [hf.family]
    exact .error _
  | some h => exact .ok h

theorem chainOutput_of_alike (role : Role) {t t' : BoundaryTemplate} (ht : t.Alike R t') :
    Agree R.Holds (chainOutput f role t) (chainOutput f' role t') :=
  requiredPort_of_alike hf role _ ht.chainOutput

theorem fabricOutput_of_alike (role : Role) {t t' : BoundaryTemplate} (ht : t.Alike R t') :
    Agree R.Holds (fabricOutput f role t) (fabricOutput f' role t') :=
  requiredPort_of_alike hf role _ ht.fabricOutput

theorem checkTemplate_of_alike (step : Step) : checkTemplate f' step = checkTemplate f step := by
  unfold checkTemplate
  cases step.role? with
  | none => rfl
  | some role =>
    refine (boundaryTemplate_of_alike hf role).bind_eq fun t t' ht => ?_
    have hrouted : (do let _ ← fabricOutput f' role t') = (do let _ ← fabricOutput f role t) :=
      (fabricOutput_of_alike hf role ht).bind_eq fun _ _ _ => rfl
    dsimp only
    rw [hrouted]
    split
    · exact (chainOutput_of_alike hf role ht).bind_eq fun _ _ _ => rfl
    · rfl

theorem alike_boundaryCell (role : Role) (anchor : CellId) :
    Packing.Alike R (fun r r' => r'.1 = r.1 ∧ r.2.Alike R r'.2) (boundaryCell f role anchor)
      (boundaryCell f' role anchor) := by
  refine (Packing.Alike.check (boundaryTemplate_of_alike hf role)).bind fun t t' ht => ?_
  have hanchor : Packing.Alike R (fun c c' : Cell => c'.name = c.name) (liftM (Edit.cell anchor))
      (liftM (Edit.cell anchor)) :=
    .edit fun S _ => (Edit.alike_cell anchor).imp fun _ _ hc => hc.name
  refine hanchor.bind fun c c' hname => ?_
  rw [hname]
  have hfresh : ∀ base, Packing.Alike R Eq (liftM (Edit.uniqueName base))
      (liftM (Edit.uniqueName base)) := fun base => .edit fun _ _ => Edit.alike_uniqueName base
  refine (hfresh _).bind_same fun name => ?_
  have hinstance : Packing.Alike R Eq (liftM (t.cell.instantiate name))
      (liftM (t'.cell.instantiate name)) := .edit fun S hRS => (ht.cell.mono hRS).instantiate name
  refine hinstance.bind_same fun id => ?_
  -- The key is the one name that packing itself enters.  The templates stay alike, and the
  -- attribute goes under partners, which may be at different places in the two tables.
  refine .name_bind (Naming.alike_naming roleKey) fun S hRS key key' hkey => ?_
  have hrole : Packing.Alike S Eq
      (liftM (Edit.updateCell id fun c =>
        { c with role, attrs := c.attrs.insert key (.text role.marker) }))
      (liftM (Edit.updateCell id fun c =>
        { c with role, attrs := c.attrs.insert key' (.text role.marker) })) := by
    refine .edit fun T hST => Edit.alike_updateCell id fun c c' hc => ?_
    exact { hc with role := rfl, attrs := hc.attrs.insert (hST _ _ hkey) rfl }
  exact hrole.bind_same fun _ => .pure ⟨rfl, ht⟩

omit hf

theorem alike_linkNet (id : CellId) : Edit.Alike R Eq (linkNet id) (linkNet id) := by
  refine (Edit.alike_cell id).bind fun c c' hc => ?_
  rw [hc.name]
  exact (Edit.alike_uniqueName _).bind_same fun name => Edit.alike_createNet name

theorem alike_detach (id : CellId) (hi : R i i') : Edit.Alike R Eq (detach id i) (detach id i') := by
  refine (Edit.alike_disconnect id hi).bind_same fun onNet => ?_
  cases onNet with
  | some k => exact .pure rfl
  | none =>
    refine (Edit.alike_cell id).bind fun c c' hc => (Edit.Alike.resolve hi).bind_same fun name => ?_
    rw [hc.name]
    exact .violate _

/-! ## Insertions -/

theorem alike_connect (id : CellId) (hi : R i i') (k : NetId) :
    Packing.Alike R Eq (liftM (Edit.connect id i k)) (liftM (Edit.connect id i' k)) :=
  .edit fun _ hRS => Edit.alike_connect id (hRS _ _ hi) k

theorem alike_link (id : CellId) :
    Packing.Alike R Eq (liftM (linkNet id)) (liftM (linkNet id)) := .edit fun _ _ => alike_linkNet id

theorem alike_cutOff (id : CellId) (hi : R i i') :
    Packing.Alike R Eq (liftM (detach id i)) (liftM (detach id i')) :=
  .edit fun _ hRS => alike_detach id (hRS _ _ hi)

include hf

theorem alike_insertFeedIn (head : CellId) :
    Packing.Alike R Eq (insertFeedIn f head) (insertFeedIn f' head) := by
  refine (alike_boundaryCell hf .feedIn head).bind fun r r' hr => ?_
  obtain ⟨id, t⟩ := r
  obtain ⟨_, t'⟩ := r'
  obtain ⟨rfl, ht⟩ := hr
  refine (Packing.Alike.check (chainOutput_of_alike hf .feedIn ht)).bind fun output output' hout => ?_
  refine (alike_cutOff head hf.chainIn).bind_same fun external => ?_
  refine (alike_connect _ ht.input external).bind_same fun _ => ?_
  refine (alike_link _).bind_same fun link => ?_
  refine (alike_connect _ hout link).bind_same fun _ => ?_
  exact (alike_connect head hf.chainIn link).bind_same fun _ => .pure rfl

theorem alike_insertPassThrough (prev next : CellId) :
    Packing.Alike R Eq (insertPassThrough f prev next) (insertPassThrough f' prev next) := by
  refine (alike_boundaryCell hf .passThrough prev).bind fun r r' hr => ?_
  obtain ⟨id, t⟩ := r
  obtain ⟨_, t'⟩ := r'
  obtain ⟨rfl, ht⟩ := hr
  have hdisconnect : Packing.Alike R Eq (liftM (Edit.disconnect next f.chainIn))
      (liftM (Edit.disconnect next f'.chainIn)) :=
    .edit fun _ hRS => Edit.alike_disconnect next (hRS _ _ hf.chainIn)
  refine (Packing.Alike.check (chainOutput_of_alike hf _ ht)).bind fun output output' hout => ?_
  refine (Packing.Alike.check (fabricOutput_of_alike hf _ ht)).bind fun routed routed' hrouted => ?_
  refine (alike_cutOff prev hf.chainOut).bind_same fun signal => ?_
  refine (alike_link prev).bind_same fun before => ?_
  refine (alike_connect prev hf.chainOut before).bind_same fun _ => ?_
  refine (alike_connect _ ht.input before).bind_same fun _ => ?_
  refine (alike_connect _ hrouted signal).bind_same fun _ => ?_
  refine hdisconnect.bind_same fun _ => (alike_link _).bind_same fun after => ?_
  refine (alike_connect _ hout after).bind_same fun _ => ?_
  exact (alike_connect next hf.chainIn after).bind_same fun _ => .pure rfl

theorem alike_insertPassOut (tail : CellId) :
    Packing.Alike R Eq (insertPassOut f tail) (insertPassOut f' tail) := by
  refine (alike_boundaryCell hf .passOut tail).bind fun r r' hr => ?_
  obtain ⟨id, t⟩ := r
  obtain ⟨_, t'⟩ := r'
  obtain ⟨rfl, ht⟩ := hr
  refine (Packing.Alike.check (fabricOutput_of_alike hf _ ht)).bind fun routed routed' hrouted => ?_
  refine (alike_cutOff tail hf.chainOut).bind_same fun signal => ?_
  refine (alike_link tail).bind_same fun link => ?_
  refine (alike_connect tail hf.chainOut link).bind_same fun _ => ?_
  refine (alike_connect _ ht.input link).bind_same fun _ => ?_
  exact (alike_connect _ hrouted signal).bind_same fun _ => .pure rfl

/-! ## Carrying out plans -/

theorem alike_carryOut (segment : Segment) (steps : List Step) :
    Packing.Alike R Eq (carryOut f segment steps) (carryOut f' segment steps) := by
  induction steps generalizing segment with
  | nil => exact .pure rfl
  | cons step rest ih =>
    cases step with
    | feedIn head => exact (alike_insertFeedIn hf head).bind_same fun id => ih _
    | passThrough prev next => exact (alike_insertPassThrough hf prev next).bind_same fun id => ih _
    | member id => exact ih _
    | passOut tail => exact (alike_insertPassOut hf tail).bind_same fun id => ih _
    | close => exact (ih .empty).bind_same fun _ => .pure rfl

theorem alike_prepare (chain : List CellId) :
    Packing.Alike R Eq (prepare f chain) (prepare f' chain) := by
  refine Packing.Alike.netlist.bind fun nl nl' hnl => ?_
  obtain ⟨S, hRS, hnl⟩ := hnl
  rw [checkLinks_of_alike (hf.mono hRS) hnl, plan_of_alike (hf.mono hRS) hnl]
  refine (Packing.Alike.check (.same _)).bind_same fun _ => ?_
  refine (Packing.Alike.forM_same _ fun d => .emit d).bind_same fun _ => ?_
  refine (Packing.Alike.check (.same _)).bind_same fun steps => ?_
  refine (Packing.Alike.forM_same steps fun step => ?_).bind_same fun _ => .pure rfl
  rw [checkTemplate_of_alike hf]
  exact .check (.same _)

theorem alike_legalize (chain : List CellId) :
    Packing.Alike R Eq (legalize f chain) (legalize f' chain) := by
  refine (alike_prepare hf chain).bind_same fun steps => ?_
  refine (alike_carryOut hf .empty steps).bind_same fun segments => ?_
  cases chain.head? with
  | none => exact .pure rfl
  | some head =>
    have hhead : Packing.Alike R (fun c c' : Cell => c'.name = c.name) (liftM (Edit.cell head))
        (liftM (Edit.cell head)) :=
      .edit fun S _ => (Edit.alike_cell head).imp fun _ _ hc => hc.name
    refine hhead.bind fun c c' hname => ?_
    rw [hname]
    exact (Packing.Alike.emit _).bind_same fun _ => .pure rfl

theorem alike_packChain (chain : List CellId) :
    Packing.Alike R Eq (Pack.packChain f chain) (Pack.packChain f' chain) := by
  refine (alike_legalize hf chain).bind_same fun segments => ?_
  rw [hf.slotsPerTile]
  refine (Packing.Alike.forM_same segments fun s => ?_).bind_same fun _ => .pure rfl
  exact .edit fun _ _ => Cluster.alike_constrainSegment s.members f.slotsPerTile

theorem alike_packChains : Packing.Alike R Eq (packChains f) (packChains f') := by
  refine (alike_discover hf).bind_same fun chains => ?_
  exact (Packing.Alike.mapM_same chains (alike_packChain hf)).bind_same fun segments => .pure rfl

end Chain
end FpgaPacking
