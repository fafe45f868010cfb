import FpgaPacking.Proofs.Cluster.Pairs
import FpgaPacking.Proofs.Cluster.Verified
import FpgaPacking.Proofs.Faults.Runs

/-!
# Clusters without faults

Where a cluster cannot be built, the cells that are in the way are named, and with
them the roots of the clusters they are in.  Clusters are consistent, so these
roots are live.  The verification does not rely on that: it looks up cells that it
has met.
-/

namespace FpgaPacking

theorem Failure.Collision.reported {e : Failure} (h : e.Collision) : e.Reported := by
  obtain ⟨r, a, b, dx, dy, z, rfl⟩ := h
  exact Failure.reported_rejected _

namespace Cluster

open Netlist Edit

variable {names : Names} {nl : Netlist} {s : Session} {id root requested : CellId}
  {rootOffset : Offset} {members : List Placed}

/-! ## Checks -/

/-- The root of a clustered cell is live. -/
theorem Consistent.live_root (h : Consistent nl.membership) {c : Cell} (hc : nl.cell? id = some c)
    (hroot : c.cluster.root = some root) : (nl.cell? root).isSome := by
  obtain ⟨r, hr⟩ := h.clusters id root ⟨c.cluster, membership_of_cell? hc, hroot⟩
  rw [← membership_isSome, hr.live]
  rfl

/-- A conflict between live cells is reported with their names. -/
theorem exists_conflict {existing : CellId} (hid : (nl.cell? id).isSome)
    (hexisting : (nl.cell? existing).isSome) (hrequested : (nl.cell? requested).isSome) :
    ∃ e : PackError, (conflict nl id existing requested).mapError Failure.fault =
      .ok (.rejected e) := by
  obtain ⟨c, hc⟩ := Option.isSome_iff_exists.mp hid
  obtain ⟨e, he⟩ := Option.isSome_iff_exists.mp hexisting
  obtain ⟨r, hr⟩ := Option.isSome_iff_exists.mp hrequested
  refine ⟨.clusterConflict c.name e.name r.name, ?_⟩
  unfold conflict
  rw [Chain.cell_eq_ok.mpr hc, Chain.cell_eq_ok.mpr he, Chain.cell_eq_ok.mpr hr]
  rfl

theorem refuses_checkRootOffset (hroot : (nl.cell? root).isSome) :
    Refuses Failure.Reported (checkRootOffset nl root rootOffset) := by
  obtain ⟨c, -, hc⟩ := lookup_of_live hroot
  unfold checkRootOffset
  split
  · exact .ok _
  · exact .bind_of_ok hc (.error (Failure.reported_violation _))

theorem refuses_checkFree (h : Consistent nl.membership) (hid : (nl.cell? id).isSome)
    (hrequested : (nl.cell? requested).isSome) :
    Refuses Failure.Reported (checkFree nl id requested) := by
  obtain ⟨c, hc, hlookup⟩ := lookup_of_live hid
  refine .bind_of_ok hlookup ?_
  cases hroot : c.cluster.root with
  | none => exact .ok _
  | some existing =>
    obtain ⟨e, he⟩ := exists_conflict hid (h.live_root hc hroot) hrequested
    exact .bind_of_ok he (.error (Failure.reported_rejected e))

theorem refuses_checkMembers (h : Consistent nl.membership) (hroot : (nl.cell? root).isSome)
    {ids : List CellId} (hids : ∀ id ∈ ids, (nl.cell? id).isSome) (seen : List CellId) :
    Refuses Failure.Reported (checkMembers nl root seen ids) := by
  induction ids generalizing seen with
  | nil => exact .ok _
  | cons id rest ih =>
    obtain ⟨hid, hrest⟩ := List.forall_mem_cons.mp hids
    rw [checkMembers_cons]
    refine Refuses.bind (refuses_checkFree h hid hroot) fun _ => ?_
    split
    · obtain ⟨e, he⟩ := exists_conflict hid hroot hroot
      exact .bind_of_ok he (.error (Failure.reported_rejected e))
    · exact ih hrest _

theorem refuses_checkBuild (h : Consistent nl.membership) (hroot : (nl.cell? root).isSome)
    (hmembers : ∀ p ∈ members, (nl.cell? p.1).isSome) :
    Refuses Failure.Reported (checkBuild nl root rootOffset members) := by
  refine Refuses.bind (refuses_checkRootOffset hroot) fun _ => ?_
  refine Refuses.bind (refuses_checkFree h hroot hroot) fun _ => ?_
  refine Refuses.bind (refuses_checkMembers h hroot ?_ _) fun _ => ?_
  · intro id hid
    obtain ⟨p, hp, rfl⟩ := List.mem_map.mp hid
    exact hmembers p hp
  · exact (refuses_checkSlots hroot hmembers).imp fun _ => Failure.Collision.reported

/-! ## Building -/

theorem faultless_build (h : Consistent nl.membership) (hroot : (nl.cell? root).isSome)
    (hmembers : ∀ p ∈ members, (nl.cell? p.1).isSome) :
    Faultless (build root rootOffset members names) nl := by
  refine faultless_bind_of_ok names (a := nl) rfl ?_
  cases hcheck : checkBuild nl root rootOffset members with
  | error e => exact .throw (refuses_checkBuild h hroot hmembers e hcheck) _
  | ok u =>
    refine faultless_bind names (faultless_updateCell names hroot) fun _ nl₁ hwrite => ?_
    refine faultless_forM names (fun rest nl => ∀ p ∈ rest, (nl.cell? p.1).isSome)
      (fun p rest nl hrest => faultless_updateCell names (hrest p List.mem_cons_self))
      (fun p rest nl _ nl' hrest hrun other hother => ?_) fun p hp => ?_
    · have hlive := hrest other (List.mem_cons_of_mem p hother)
      exact (keeps_live_updateCell other.1 p.1 _).of_ok hrun hlive
    · exact (keeps_live_updateCell p.1 root _).of_ok hwrite (hmembers p hp)

/-! ## Chain segments -/

theorem refuses_coordinate (n : Nat) : Refuses Failure.Reported (coordinate n) := by
  unfold coordinate
  split
  · exact .ok _
  · exact .error (Failure.reported_violation _)

/-- There is no division by the number of slots if there are none. -/
theorem refuses_segmentPlaces {slotsPerTile : Nat} (hslots : slotsPerTile ≠ 0)
    (rest : List CellId) : Refuses Failure.Reported (segmentPlaces slotsPerTile rest) := by
  refine Refuses.mapM (fun p => ?_) _
  refine Refuses.bind ?_ fun offset => .ok _
  unfold segmentOffset tileAndSlot
  rw [if_neg hslots]
  refine .bind_of_ok rfl ?_
  refine Refuses.bind (refuses_coordinate _) fun _ => ?_
  exact Refuses.bind (refuses_coordinate _) fun _ => .ok _

theorem faultless_constrainSegment (h : Consistent nl.membership) {ids : List CellId}
    (hids : ∀ id ∈ ids, (nl.cell? id).isSome) (slotsPerTile : Nat) :
    Faultless (constrainSegment ids slotsPerTile names) nl := by
  unfold constrainSegment
  split
  · exact faultless_violate names _
  · next hslots =>
    cases ids with
    | nil => exact .pure _ _
    | cons root rest =>
      obtain ⟨hroot, hrest⟩ := List.forall_mem_cons.mp hids
      dsimp only
      cases hplaces : segmentPlaces slotsPerTile rest with
      | error e => exact .throw (refuses_segmentPlaces hslots rest e hplaces) _
      | ok placed =>
        refine faultless_build h hroot fun p hp => hrest p.1 ?_
        have hplaced : placed.map (·.1) = rest := by
          rw [segmentPlaces_ok hplaces]
          exact map_fst_segmentPlace
        rw [← hplaced]
        exact List.mem_map_of_mem hp

/-! ## Pairs -/

variable {rule : PairRule}

theorem live_of_partner {c : Cell} {load : CellId} (h : partner? nl rule id c = some load) :
    (nl.cell? load).isSome := by
  obtain ⟨-, -, -, k, -, hreader⟩ := partner?_eq_some.mp h
  obtain ⟨-, -, -, c, hc, -⟩ := onlyReader_eq_some.mp hreader
  rw [hc]
  rfl

theorem faultless_constrainPair (h : Consistent nl.membership) (hlive : (nl.cell? id).isSome)
    (built : Nat) : Faultless (constrainPair rule built id names) nl := by
  obtain ⟨c, hc⟩ := Option.isSome_iff_exists.mp hlive
  refine faultless_bind_of_ok names (cell_of_some names hc) ?_
  refine faultless_bind_of_ok names (a := nl) rfl ?_
  cases hload : partner? nl rule id c with
  | none => exact .pure _ _
  | some load =>
    refine faultless_bind names (faultless_build h hlive ?_) fun _ _ _ => .pure _ _
    exact List.forall_mem_cons.mpr ⟨live_of_partner hload, nofun⟩

theorem faultless_constrainPairs (h : Consistent s.netlist.membership) (rule : PairRule) :
    Faultless (constrainPairs rule) s := by
  refine .bind_of_ok (a := s.netlist) rfl (.bind ?_ fun built s₁ _ => ?_)
  · refine Packing.faultless_visits (I := fun nl => Consistent nl.membership)
      (fun built id s h hid => ?_) (fun built id => ?_) (fun other built id => ?_) 0 h
    · exact Packing.faultless_edit (faultless_constrainPair h hid built)
    · exact .edit (keeps_constrainPair_of structural_consistent.keeps_build rule built id)
    · exact .edit (keeps_constrainPair_of (keeps_live_build other) rule built id)
  · dsimp only
    split
    · exact .bind_of_ok rfl (.pure _ _)
    · exact .pure _ _

/-! ## Verification -/

theorem refuses_checkChildren (rootName : String) (seen ids : List CellId) :
    Refuses Failure.Reported (checkChildren nl root rootName seen ids) := by
  induction ids generalizing seen with
  | nil => exact .ok _
  | cons child rest ih =>
    rw [checkChildren_cons]
    split
    · exact .error (Failure.reported_violation _)
    · split
      · exact .error (Failure.reported_violation _)
      · split
        · exact .error (Failure.reported_violation _)
        · exact Refuses.bind (ih _) fun _ => .ok _

/-- The verification looks up the root and the children that it has met. -/
theorem refuses_check (nl : Netlist) (root : CellId) :
    Refuses Failure.Reported (check nl root) := by
  unfold check
  split
  · exact .error (Failure.reported_violation _)
  · next r hr =>
    have hroot : (nl.cell? root).isSome := by
      rw [hr]
      rfl
    split
    · exact .error (Failure.reported_violation _)
    refine Refuses.bind (refuses_checkRootOffset hroot) fun _ => ?_
    refine Refuses.bind_checked (refuses_checkChildren _ _ _) fun members hmembers => ?_
    obtain ⟨-, -, rfl⟩ := checkChildren_ok.mp hmembers
    refine Refuses.bind ?_ fun _ => ?_
    · unfold checkListed
      dsimp only
      split
      · exact .ok _
      · exact .error (Failure.reported_violation _)
    · refine (refuses_checkSlots hroot fun p hp => ?_).imp fun _ => Failure.Collision.reported
      obtain ⟨-, m, hm, -⟩ := mem_placedChildren.mp hp
      rw [← membership_isSome, hm]
      rfl

end Cluster
end FpgaPacking
