import FpgaPacking.Proofs.Faults.Clusters

/-!
# Verification of any netlist

Whatever has been written to the records of the cells, the verification of a
cluster tells whether they agree.  `Intact` says in terms of the cells what it
accepts; no invariant of the operations is used.  What is accepted the placer
reads once and in full.
-/

namespace FpgaPacking
namespace Cluster

open Netlist

variable {nl : Netlist} {root : CellId} {c : Cell}

/-- The record of the root, which is in `c`, and the records of all other cells make up one cluster. -/
structure Intact (nl : Netlist) (root : CellId) (c : Cell) : Prop where
  own : c.cluster.root = some root
  at_root : c.cluster.offset.dx = 0 ∧ c.cluster.offset.dy = 0 ∧ c.cluster.offset.dz = 0
  nodup : c.cluster.children.Nodup
  children : ∀ id ∈ c.cluster.children,
    id ≠ root ∧ ∃ d, nl.cell? id = some d ∧ d.cluster.root = some root
  /-- No cell but the root and its children points to the root. -/
  complete : ∀ id d, nl.cell? id = some d → d.cluster.root = some root →
    id = root ∨ id ∈ c.cluster.children
  /-- No two cells that point to the root are in one slot. -/
  apart : ∀ a b d e, nl.cell? a = some d → nl.cell? b = some e → d.cluster.root = some root →
    e.cluster.root = some root → a ≠ b →
      ¬SameSlot c.cluster.offset d.cluster.offset e.cluster.offset

theorem Intact.mem_children_iff (h : Intact nl root c) {id : CellId} :
    id ∈ c.cluster.children ↔
      id ≠ root ∧ ∃ d, nl.cell? id = some d ∧ d.cluster.root = some root := by
  refine ⟨h.children id, fun ⟨hne, d, hd, hroot⟩ => ?_⟩
  exact (h.complete id d hd hroot).resolve_left hne

/-- Intact clusters are those whose memberships agree. -/
theorem intact_iff (hc : nl.cell? root = some c) :
    Intact nl root c ↔ IsCluster nl.membership root c.cluster := by
  constructor
  · intro h
    refine ⟨membership_of_cell? hc, h.own, h.at_root, h.nodup, fun id => ?_, ?_⟩
    · rw [pointsTo_iff]
      exact h.mem_children_iff
    · intro a b m n ha hb hm hn hslot
      obtain ⟨d, hd, rfl⟩ := exists_cell_of_membership ha
      obtain ⟨e, he, rfl⟩ := exists_cell_of_membership hb
      by_contra hne
      exact h.apart a b d e hd he hm hn hne (slot_eq_iff.mp hslot)
  · intro h
    refine ⟨h.own, h.at_root, h.nodup, fun id hid => ?_, fun id d hd hroot => ?_, ?_⟩
    · obtain ⟨hne, hpoints⟩ := (h.mem_children id).mp hid
      exact ⟨hne, pointsTo_iff.mp hpoints⟩
    · by_cases hself : id = root
      · exact Or.inl hself
      · exact Or.inr ((h.mem_children id).mpr ⟨hself, pointsTo_iff.mpr ⟨d, hd, hroot⟩⟩)
    · intro a b d e hd he hdr her hne hsame
      exact hne (h.apart a b d.cluster e.cluster (membership_of_cell? hd) (membership_of_cell? he)
        hdr her (slot_eq_iff.mpr hsame))

/-- The verification accepts what is intact. -/
theorem check_ok_iff_intact :
    check nl root = .ok () ↔ ∃ c, nl.cell? root = some c ∧ Intact nl root c := by
  rw [check_ok_iff]
  constructor
  · rintro ⟨r, hr⟩
    obtain ⟨c, hc, rfl⟩ := exists_cell_of_membership hr.live
    exact ⟨c, hc, (intact_iff hc).mpr hr⟩
  · rintro ⟨c, hc, h⟩
    exact ⟨c.cluster, (intact_iff hc).mp h⟩

/-- There is one view of a cluster whose root points to itself. -/
theorem filter_views (hc : nl.cell? root = some c) (hroot : c.cluster.root = some root) :
    (views nl).filter (fun v => v.root = root) =
      [⟨root, c.cluster.offset, placedChildren nl c.cluster.children⟩] := by
  refine List.perm_singleton.mp ((List.perm_ext_iff_of_nodup
    (nodup_roots.of_map.filter _) (List.nodup_singleton _)).mpr fun v => ?_)
  rw [List.mem_filter, mem_views, List.mem_singleton, decide_eq_true_eq]
  constructor
  · rintro ⟨⟨d, hd, -, hv⟩, rfl⟩
    obtain rfl := Option.some.inj (hc.symm.trans hd)
    exact hv
  · rintro rfl
    exact ⟨⟨c, hc, hroot, rfl⟩, rfl⟩

/-- The members that the placer reads are the children. -/
theorem Intact.map_members (h : Intact nl root c) :
    (placedChildren nl c.cluster.children).map (·.1) = c.cluster.children :=
  map_placedChildren fun id hid => pointsTo_iff.mpr (h.children id hid).2

/-- The verification of a cluster is right on every netlist: it accepts exactly the intact clusters
and reports the others.  Of a cluster that is accepted there is one view, which lists the cells that
point to the root, except the root, without repetition. -/
theorem check_exact (nl : Netlist) (root : CellId) :
    (check nl root = .ok () ↔ ∃ c, nl.cell? root = some c ∧ Intact nl root c) ∧
    (∀ e, check nl root = .error e → e.Reported) ∧
    (check nl root = .ok () → ∃ v, (views nl).filter (fun v => v.root = root) = [v] ∧
      (v.members.map (·.1)).Nodup ∧ ∀ id, id ∈ v.members.map (·.1) ↔
        id ≠ root ∧ ∃ d, nl.cell? id = some d ∧ d.cluster.root = some root) := by
  refine ⟨check_ok_iff_intact, refuses_check nl root, fun hok => ?_⟩
  obtain ⟨c, hc, h⟩ := check_ok_iff_intact.mp hok
  refine ⟨_, filter_views hc h.own, ?_, fun id => ?_⟩
  · rw [h.map_members]
    exact h.nodup
  · rw [h.map_members, h.mem_children_iff]

namespace Stack

/-- The netlist after the stack has been built. -/
def built : Netlist := (session.after [.buildCluster ⟨0⟩ .zero above]).netlist

/-- The stack is accepted.  It is not if the two cells on the base are moved into one slot. -/
theorem stack_checked :
    check built ⟨0⟩ = .ok () ∧
    (∃ v, (views built).filter (fun v => v.root = ⟨0⟩) = [v] ∧ (v.members.map (·.1)).Nodup) ∧
    check (built.setCluster ⟨1⟩ ⟨some ⟨0⟩, ⟨0, 0, 1, false⟩, []⟩) ⟨0⟩ ≠ .ok () := by
  have hok : check built ⟨0⟩ = .ok () := rfl
  obtain ⟨v, hv, hnodup, -⟩ := (check_exact built ⟨0⟩).2.2 hok
  refine ⟨hok, ⟨v, hv, hnodup⟩, fun hmoved => ?_⟩
  obtain ⟨c, hc, h⟩ := (check_exact _ _).1.mp hmoved
  exact h.apart ⟨1⟩ ⟨2⟩ _ _ rfl rfl rfl rfl (by decide) ⟨rfl, rfl, rfl, Or.inr rfl⟩

end Stack

end Cluster
end FpgaPacking
