import FpgaPacking.Cluster.Check
import FpgaPacking.Proofs.Cluster.Building
import FpgaPacking.Proofs.Reachable

/-!
# Consistent clusters

The cells of a cluster are recorded twice: each of them points to the root, and
the root lists them as its children.  `IsCluster` says of one root that the two
records agree, and `Consistent` says so of all clustered cells.  A cell that is
in no cluster may come and go, and a cluster is built from such cells only, so
consistency is never lost.

In a consistent netlist the verification of clusters succeeds at every root, and
the placer reads every clustered cell exactly once.
-/

namespace FpgaPacking
namespace Cluster

open Netlist

variable {ms ms' : Memberships} {nl : Netlist} {id root : CellId} {r : Membership}
  {rootOffset : Offset} {members : List Placed}

/-- The live cell is in the cluster of `root`. -/
def PointsTo (ms : Memberships) (id root : CellId) : Prop :=
  ∃ m, ms id = some m ∧ m.root = some root

/-- The live cell `root` has the record `r` of a cluster, which agrees with the records of the
cells that point to it. -/
structure IsCluster (ms : Memberships) (root : CellId) (r : Membership) : Prop where
  live : ms root = some r
  own : r.root = some root
  at_root : r.offset.dx = 0 ∧ r.offset.dy = 0 ∧ r.offset.dz = 0
  nodup : r.children.Nodup
  mem_children : ∀ id, id ∈ r.children ↔ id ≠ root ∧ PointsTo ms id root
  /-- No two cells of the cluster are in the same slot. -/
  apart : ∀ a b m n, ms a = some m → ms b = some n → m.root = some root → n.root = some root →
    slot r.offset m.offset = slot r.offset n.offset → a = b

/-- Every clustered cell is in a cluster whose records agree, and no other cell has children. -/
structure Consistent (ms : Memberships) : Prop where
  clusters : ∀ id root, PointsTo ms id root → ∃ r, IsCluster ms root r
  childless : ∀ id m, ms id = some m → m.root ≠ some id → m.children = []

theorem IsCluster.pointsTo (h : IsCluster ms root r) : PointsTo ms root root := ⟨r, h.live, h.own⟩

theorem not_pointsTo_of_free (h : Free ms id) : ¬ PointsTo ms id root := by
  rintro ⟨m, hm, hroot⟩
  obtain ⟨n, hn, hfree⟩ := h
  obtain rfl := Option.some.inj (hm.symm.trans hn)
  rw [hfree] at hroot
  cases hroot

/-! ## What keeps clusters consistent -/

section Same

variable (hsame : ∀ id m, m.root = some root → (ms' id = some m ↔ ms id = some m))
include hsame

theorem pointsTo_congr : PointsTo ms' id root ↔ PointsTo ms id root :=
  exists_congr fun m => and_congr_left fun hm => hsame id m hm

/-- A cluster depends on the cells that point to its root only. -/
theorem IsCluster.congr (h : IsCluster ms root r) : IsCluster ms' root r where
  live := (hsame root r h.own).mpr h.live
  own := h.own
  at_root := h.at_root
  nodup := h.nodup
  mem_children id := (h.mem_children id).trans (and_congr_right fun _ => (pointsTo_congr hsame).symm)
  apart a b m n ha hb hm hn := h.apart a b m n ((hsame a m hm).mp ha) ((hsame b n hn).mp hb) hm hn

end Same

/-- Writing the record of a cell that is in no cluster before or after keeps clusters consistent. -/
theorem Consistent.update (h : Consistent ms) {now : Option Membership}
    (hbefore : ∀ m, ms id = some m → m.root = none)
    (hafter : ∀ m, now = some m → m.root = none ∧ m.children = []) :
    Consistent (Function.update ms id now) := by
  have hsame : ∀ root other m, m.root = some root →
      (Function.update ms id now other = some m ↔ ms other = some m) := by
    intro root other m hm
    by_cases ho : other = id
    · subst ho
      rw [Function.update_self]
      refine ⟨fun hnow => ?_, fun hwas => ?_⟩
      · rw [(hafter m hnow).1] at hm
        cases hm
      · rw [hbefore m hwas] at hm
        cases hm
    · rw [Function.update_of_ne ho]
  refine ⟨fun other root ho => ?_, fun other m ho hroot => ?_⟩
  · obtain ⟨r, hr⟩ := h.clusters other root ((pointsTo_congr (hsame root)).mp ho)
    exact ⟨r, hr.congr (hsame root)⟩
  · by_cases he : other = id
    · subst he
      rw [Function.update_self] at ho
      exact (hafter m ho).2
    · rw [Function.update_of_ne he] at ho
      exact h.childless other m ho hroot

theorem zero_of_isZero (h : rootOffset.isZero = true) :
    rootOffset = ⟨0, 0, 0, rootOffset.pinned⟩ := by
  obtain ⟨dx, dy, dz, pinned⟩ := rootOffset
  simp only [Offset.isZero, Bool.and_eq_true, decide_eq_true_eq] at h
  obtain ⟨⟨rfl, rfl⟩, rfl⟩ := h
  rfl

/-- The cells of the cluster that was built are those it was built from. -/
theorem Built.mem_of_pointsTo (h : Consistent ms) (hb : Buildable ms root rootOffset members)
    (hbuilt : Built root rootOffset members ms ms') {m : Membership} (hid : ms' id = some m)
    (hm : m.root = some root) : (id, m.offset) ∈ (root, rootOffset) :: members := by
  by_cases hself : id = root
  · subst hself
    obtain rfl := Option.some.inj (hid.symm.trans hbuilt.at_root)
    rw [zero_of_isZero hb.at_root]
    exact List.mem_cons_self
  · by_cases hmem : id ∈ members.map (·.1)
    · obtain ⟨⟨x, offset⟩, hp, rfl⟩ := List.mem_map.mp hmem
      obtain rfl := Option.some.inj (hid.symm.trans (hbuilt.at_member _ hp))
      exact List.mem_cons_of_mem _ hp
    · have hold : ms id = some m := by
        rw [← hbuilt.elsewhere id (by simp [hself, hmem])]
        exact hid
      obtain ⟨r, hr⟩ := h.clusters id root ⟨m, hold, hm⟩
      exact absurd hr.pointsTo (not_pointsTo_of_free (hb.free root List.mem_cons_self))

theorem Built.isCluster (h : Consistent ms) (hb : Buildable ms root rootOffset members)
    (hbuilt : Built root rootOffset members ms ms') :
    IsCluster ms' root ⟨some root, ⟨0, 0, 0, rootOffset.pinned⟩, members.map (·.1)⟩ where
  live := hbuilt.at_root
  own := rfl
  at_root := ⟨rfl, rfl, rfl⟩
  nodup := (List.nodup_cons.mp hb.distinct).2
  mem_children id := by
    obtain ⟨hroot, -⟩ := List.nodup_cons.mp hb.distinct
    constructor
    · intro hmem
      obtain ⟨p, hp, rfl⟩ := List.mem_map.mp hmem
      exact ⟨fun e => hroot (e ▸ hmem), _, hbuilt.at_member p hp, rfl⟩
    · rintro ⟨hne, m, hid, hm⟩
      rcases List.mem_cons.mp (hbuilt.mem_of_pointsTo h hb hid hm) with hself | hmem
      · exact absurd (congrArg Prod.fst hself) hne
      · exact List.mem_map_of_mem hmem
  apart a b m n ha hb' hm hn hslot := by
    have hinj : ((((root, rootOffset) :: members).map fun p => slot rootOffset p.2)).Nodup :=
      hb.apart
    have hplace := List.inj_on_of_nodup_map hinj (hbuilt.mem_of_pointsTo h hb ha hm)
      (hbuilt.mem_of_pointsTo h hb hb' hn) hslot
    exact congrArg Prod.fst hplace

/-- Building a cluster leaves the other ones as they are. -/
theorem Consistent.built (h : Consistent ms) (hb : Buildable ms root rootOffset members)
    (hbuilt : Built root rootOffset members ms ms') : Consistent ms' := by
  have hsame : ∀ other, other ≠ root → ∀ id m, m.root = some other →
      (ms' id = some m ↔ ms id = some m) := by
    intro other hother id m hm
    by_cases hmem : id ∈ root :: members.map (·.1)
    · have hbefore : ms id ≠ some m := fun hid => not_pointsTo_of_free (hb.free id hmem) ⟨m, hid, hm⟩
      have hafter : ms' id ≠ some m := by
        intro hid
        have howner : m.root = some root := by
          rcases List.mem_cons.mp hmem with rfl | hmem
          · obtain rfl := Option.some.inj (hid.symm.trans hbuilt.at_root)
            rfl
          · obtain ⟨p, hp, rfl⟩ := List.mem_map.mp hmem
            obtain rfl := Option.some.inj (hid.symm.trans (hbuilt.at_member p hp))
            rfl
        exact hother (Option.some.inj (hm.symm.trans howner))
      exact ⟨fun hid => absurd hid hafter, fun hid => absurd hid hbefore⟩
    · rw [hbuilt.elsewhere id hmem]
  refine ⟨fun id other hid => ?_, fun id m hid hm => ?_⟩
  · by_cases he : other = root
    · exact ⟨_, he ▸ hbuilt.isCluster h hb⟩
    · obtain ⟨r, hr⟩ := h.clusters id other ((pointsTo_congr (hsame other he)).mp hid)
      exact ⟨r, hr.congr (hsame other he)⟩
  · by_cases hmem : id ∈ root :: members.map (·.1)
    · rcases List.mem_cons.mp hmem with rfl | hmem
      · obtain rfl := Option.some.inj (hid.symm.trans hbuilt.at_root)
        exact absurd rfl hm
      · obtain ⟨p, hp, rfl⟩ := List.mem_map.mp hmem
        obtain rfl := Option.some.inj (hid.symm.trans (hbuilt.at_member p hp))
        rfl
    · rw [hbuilt.elsewhere id hmem] at hid
      exact h.childless id m hid hm

/-! ## Operations

Operations see to it that a cell that is in a cluster is neither removed nor
claimed by another cluster. -/

/-- Wiring has nothing to do with clusters. -/
theorem rewiring_of_memberships (P : Memberships → Prop) : Rewiring fun nl => P nl.membership :=
  rewiring_of_shown (g := Cell.cluster) (fun _ _ => rfl) P

open Edit in
/-- Routing keeps a property of the memberships that survives the creation of a cell that is in no
cluster. -/
theorem routing_of_memberships {P : Memberships → Prop}
    (created : ∀ ms id, ms id = none → P ms → P (Function.update ms id (some .none))) :
    Routing fun nl => P nl.membership where
  keeps_createCell cellType name names nl h := by
    show P (nl.addCell (.create cellType name)).membership
    rw [membership_addCell]
    exact created _ _ membership_nextCell h
  keeps_createNet := (rewiring_of_memberships P).keeps_createNet
  keeps_uniqueName := (rewiring_of_memberships P).keeps_uniqueName
  keeps_addPort := (rewiring_of_memberships P).keeps_addPort
  keeps_connect := (rewiring_of_memberships P).keeps_connect
  keeps_disconnect := (rewiring_of_memberships P).keeps_disconnect
  keeps_write hf names nl h := by
    rcases updateCell_cases names with ⟨e, hrun⟩ | ⟨c, -, hrun⟩
    · rw [hrun]
      exact h
    · rw [hrun]
      show P (nl.mapCell _ _).membership
      rw [membership_mapCell fun c => (hf c).2]
      exact h

/-- There may be new cells, which are in no cluster; nothing else has changed. -/
def Grown (ms ms' : Memberships) : Prop := ∀ id, ms' id = ms id ∨ ms id = none ∧ ms' id = some .none

theorem routing_grown : Routing fun nl => Grown ms nl.membership :=
  routing_of_memberships fun now new hnew h id => by
    by_cases hid : id = new
    · subst hid
      rw [Function.update_self]
      rcases h id with hsame | ⟨-, hmade⟩
      · exact Or.inr ⟨hsame.symm.trans hnew, rfl⟩
      · rw [hnew] at hmade
        cases hmade
    · rw [Function.update_of_ne hid]
      exact h id

/-- Building keeps a property of the memberships that survives the building of a cluster. -/
theorem keeps_build_of_memberships {P : Memberships → Prop}
    (built : ∀ ms ms' root rootOffset members, Buildable ms root rootOffset members →
      Built root rootOffset members ms ms' → P ms → P ms')
    (root : CellId) (rootOffset : Offset) (members : List Placed) :
    Edit.Keeps (fun nl => P nl.membership) (build root rootOffset members) := by
  intro names nl h
  rcases build_cases names with ⟨e, hrun⟩ | ⟨hb, hrun⟩
  · rw [hrun]
    exact h
  · rw [hrun]
    exact built _ _ root rootOffset members hb (built_clustered hb) h

/-! No cell is removed by rewiring, by routing, by a write or by the building of a cluster. -/

theorem rewiring_live (id : CellId) : Rewiring fun nl => (nl.cell? id).isSome := by
  simpa only [membership_isSome] using rewiring_of_memberships fun ms => (ms id).isSome

theorem routing_live (id : CellId) : Routing fun nl => (nl.cell? id).isSome := by
  have hrouting := routing_of_memberships (P := fun ms => (ms id).isSome) fun ms new _ h => by
    show (Function.update ms new _ id).isSome
    by_cases hid : id = new
    · rw [hid, Function.update_self]
      rfl
    · rw [Function.update_of_ne hid]
      exact h
  simpa only [membership_isSome] using hrouting

theorem keeps_live_updateCell (id other : CellId) (f : Cell → Cell) :
    Edit.Keeps (fun nl => (nl.cell? id).isSome) (Edit.updateCell other f) := by
  intro names nl h
  rcases Edit.updateCell_cases names with ⟨e, hrun⟩ | ⟨c, hc, hrun⟩
  · rw [hrun]
    exact h
  · rw [hrun]
    show ((nl.mapCell other f).cell? id).isSome
    rw [cell?_mapCell]
    split
    · rw [hc]
      rfl
    · exact h

theorem keeps_live_build (id root : CellId) (rootOffset : Offset) (members : List Placed) :
    Edit.Keeps (fun nl => (nl.cell? id).isSome) (build root rootOffset members) := by
  have hkeeps := keeps_build_of_memberships (P := fun ms => (ms id).isSome)
    (fun _ _ _ _ _ _ hbuilt h => hbuilt.isSome h) root rootOffset members
  simpa only [membership_isSome] using hkeeps

open Edit in
/-- Every operation keeps a property of the memberships that survives the creation and the removal
of a cell that is in no cluster and the building of a cluster. -/
theorem structural_of_memberships {P : Memberships → Prop}
    (created : ∀ ms id, ms id = none → P ms → P (Function.update ms id (some .none)))
    (removed : ∀ ms id, Free ms id → P ms → P (Function.update ms id none))
    (built : ∀ ms ms' root rootOffset members, Buildable ms root rootOffset members →
      Built root rootOffset members ms ms' → P ms → P ms') :
    Structural fun nl => P nl.membership where
  toRouting := routing_of_memberships created
  keeps_constantNet := (rewiring_of_memberships P).keeps_constantNet
  keeps_removePort := (rewiring_of_memberships P).keeps_removePort
  keeps_renamePort := (rewiring_of_memberships P).keeps_renamePort
  keeps_removeNet := (rewiring_of_memberships P).keeps_removeNet
  keeps_markForRemoval := (rewiring_of_memberships P).keeps_markForRemoval
  keeps_removeCell names nl h := by
    rcases removeCell_cases names with ⟨e, hrun⟩ | ⟨c, hc, -, hfree, hrun⟩
    · rw [hrun]
      exact h
    · rw [hrun]
      show P (nl.dropCell _).membership
      rw [membership_dropCell]
      exact removed _ _ ⟨c.cluster, membership_of_cell? hc, hfree⟩ h
  keeps_unqueue _ _ h := h
  keeps_build := keeps_build_of_memberships built

theorem structural_consistent : Structural fun nl => Consistent nl.membership :=
  structural_of_memberships
    (fun _ _ hnew h => h.update (by simp [hnew]) fun m hm => by
      obtain rfl := Option.some.inj hm
      exact ⟨rfl, rfl⟩)
    (fun _ _ ⟨m, hm, hfree⟩ h => h.update (fun m' hm' => by
      obtain rfl := Option.some.inj (hm.symm.trans hm')
      exact hfree) nofun)
    fun _ _ _ _ _ hb hbuilt h => h.built hb hbuilt

/-- A clustered cell stays in its place. -/
theorem structural_member {m : Membership} (hm : m.root.isSome) :
    Structural fun nl => nl.membership id = some m :=
  structural_of_memberships (P := fun ms => ms id = some m)
    (fun ms other hnew h => by
      have hne : id ≠ other := fun e => by simp [← e, h] at hnew
      show Function.update ms other _ id = _
      rw [Function.update_of_ne hne, h])
    (fun ms other hfree h => by
      have hne : id ≠ other := by
        rintro rfl
        obtain ⟨n, hn, hnone⟩ := hfree
        obtain rfl := Option.some.inj (hn.symm.trans h)
        simp [hnone] at hm
      show Function.update ms other _ id = _
      rw [Function.update_of_ne hne, h])
    fun ms ms' root rootOffset members hb hbuilt h => by
      have hne : id ∉ root :: members.map (·.1) := by
        intro hmem
        obtain ⟨n, hn, hnone⟩ := hb.free id hmem
        obtain rfl := Option.some.inj (hn.symm.trans h)
        simp [hnone] at hm
      exact (hbuilt.elsewhere id hne).trans h

end Cluster
end FpgaPacking
