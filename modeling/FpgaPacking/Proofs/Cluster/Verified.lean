import FpgaPacking.Proofs.Cluster.Consistent

/-!
# Verified clusters

The verification of a cluster succeeds exactly if its root's record and those of
the other cells agree.  Together with the invariants of all operations this says
that a caller never sees it fail, and that the placer reads every clustered cell
once.
-/

namespace FpgaPacking
namespace Cluster

open Netlist

variable {nl : Netlist} {id root : CellId} {r : Membership}

/-! ## Verification -/

theorem pointsTo_iff : PointsTo nl.membership id root ↔
    ∃ c, nl.cell? id = some c ∧ c.cluster.root = some root := by
  simp [PointsTo, membership]

theorem placedChildren_cons {child : CellId} {c : Cell} {rest : List CellId}
    (hc : nl.cell? child = some c) :
    placedChildren nl (child :: rest) = (child, c.cluster.offset) :: placedChildren nl rest := by
  simp [placedChildren, hc]

theorem checkChildren_nil {name : String} {seen : List CellId} :
    checkChildren nl root name seen [] = .ok [] := rfl

theorem checkChildren_cons {name : String} {seen rest : List CellId} {child : CellId} :
    checkChildren nl root name seen (child :: rest) = match nl.cell? child with
      | none => .error (.violation (.missingChild name child))
      | some c =>
        if child ∈ seen then
          .error (.violation (.repeatedChild name c.name))
        else if c.cluster.root ≠ some root then
          .error (.violation (.strayChild name c.name))
        else do
          return (child, c.cluster.offset) :: (← checkChildren nl root name (child :: seen) rest) :=
  rfl

theorem checkChildren_ok {name : String} {seen children : List CellId} {placed : List Placed} :
    checkChildren nl root name seen children = .ok placed ↔
      (∀ child ∈ children, PointsTo nl.membership child root ∧ child ∉ seen) ∧ children.Nodup ∧
        placed = placedChildren nl children := by
  induction children generalizing seen placed with
  | nil => simp [checkChildren_nil, placedChildren, eq_comm]
  | cons child rest ih =>
    rw [checkChildren_cons]
    cases hc : nl.cell? child with
    | none => simp [pointsTo_iff, hc]
    | some c =>
      dsimp only
      by_cases hseen : child ∈ seen
      · simp [hseen]
      by_cases hroot : c.cluster.root = some root
      · rw [if_neg hseen, if_neg (not_not_intro hroot), except_bind_ok, placedChildren_cons hc]
        have hpoints : PointsTo nl.membership child root := pointsTo_iff.mpr ⟨c, hc, hroot⟩
        constructor
        · rintro ⟨placed', hrest, hend⟩
          obtain ⟨hlinked, hnodup, rfl⟩ := ih.mp hrest
          refine ⟨List.forall_mem_cons.mpr ⟨⟨hpoints, hseen⟩, fun other ho => ?_⟩, ?_,
            (Except.ok.inj hend).symm⟩
          · exact ⟨(hlinked other ho).1, fun hs => (hlinked other ho).2 (List.mem_cons_of_mem _ hs)⟩
          · exact List.nodup_cons.mpr ⟨fun hmem => (hlinked child hmem).2 List.mem_cons_self, hnodup⟩
        · rintro ⟨hrest, hnodup, rfl⟩
          obtain ⟨hnew, hnodup⟩ := List.nodup_cons.mp hnodup
          refine ⟨_, ih.mpr ⟨fun other ho => ?_, hnodup, rfl⟩, rfl⟩
          obtain ⟨hother, hs⟩ := hrest other (List.mem_cons_of_mem _ ho)
          exact ⟨hother, List.not_mem_cons_of_ne_of_not_mem (fun e => hnew (e ▸ ho)) hs⟩
      · rw [if_neg hseen, if_pos hroot]
        simp [pointsTo_iff, hc, hroot]

theorem checkListed_ok {c : Cell} : checkListed nl root c = .ok () ↔
    ∀ id, PointsTo nl.membership id root → id ≠ root → id ∈ c.cluster.children := by
  unfold checkListed
  dsimp only
  split
  · next hnone =>
    rw [List.find?_eq_none] at hnone
    refine ⟨fun _ id hid hne => ?_, fun _ => rfl⟩
    obtain ⟨d, hd, hroot⟩ := pointsTo_iff.mp hid
    have := hnone (id, d) ((Arena.mem_entries _ _ _).mpr hd)
    simpa [hroot, hne] using this
  · next id d hfound =>
    refine ⟨nofun, fun hall => ?_⟩
    have hmem := List.mem_of_find?_eq_some hfound
    have htest := List.find?_some hfound
    simp only [ne_eq, decide_not, Bool.and_eq_true, decide_eq_true_eq, Bool.not_eq_eq_eq_not,
      Bool.not_true, decide_eq_false_iff_not] at htest
    obtain ⟨⟨hroot, hne⟩, hunlisted⟩ := htest
    have := hall id (pointsTo_iff.mpr ⟨d, (Arena.mem_entries _ _ _).mp hmem, hroot⟩) hne
    simp [this] at hunlisted

/-- The places of children that are live, with the children themselves. -/
theorem map_placedChildren {children : List CellId}
    (h : ∀ child ∈ children, PointsTo nl.membership child root) :
    (placedChildren nl children).map (·.1) = children := by
  induction children with
  | nil => rfl
  | cons child rest ih =>
    obtain ⟨hhead, hrest⟩ := List.forall_mem_cons.mp h
    obtain ⟨c, hc, -⟩ := pointsTo_iff.mp hhead
    rw [placedChildren_cons hc, List.map_cons, ih hrest]

theorem mem_placedChildren {children : List CellId} {p : Placed} :
    p ∈ placedChildren nl children ↔
      p.1 ∈ children ∧ ∃ m, nl.membership p.1 = some m ∧ m.offset = p.2 := by
  obtain ⟨child, offset⟩ := p
  simp only [placedChildren, List.mem_filterMap, Option.map_eq_some_iff, Prod.mk.injEq]
  constructor
  · rintro ⟨other, hmem, c, hc, rfl, rfl⟩
    exact ⟨hmem, c.cluster, membership_of_cell? hc, rfl⟩
  · rintro ⟨hmem, m, hm, rfl⟩
    obtain ⟨c, hc, rfl⟩ := exists_cell_of_membership hm
    exact ⟨child, hmem, c, hc, rfl, rfl⟩

/-- Distinct slots of the listed cells are distinct slots of the cells that point to the root. -/
theorem nodup_slots_iff (hlive : nl.membership root = some r) (hown : r.root = some root)
    (hnodup : r.children.Nodup)
    (hmem : ∀ id, id ∈ r.children ↔ id ≠ root ∧ PointsTo nl.membership id root) :
    (slot r.offset r.offset ::
        (placedChildren nl r.children).map fun p => slot r.offset p.2).Nodup ↔
      ∀ a b m n, nl.membership a = some m → nl.membership b = some n → m.root = some root →
        n.root = some root → slot r.offset m.offset = slot r.offset n.offset → a = b := by
  have hpoints : ∀ child ∈ r.children, PointsTo nl.membership child root := fun child hc =>
    ((hmem child).mp hc).2
  have hids : ((root, r.offset) :: placedChildren nl r.children).map (·.1) = root :: r.children := by
    rw [List.map_cons, map_placedChildren hpoints]
  have hlisted : ∀ p : Placed, p ∈ (root, r.offset) :: placedChildren nl r.children ↔
      ∃ m, nl.membership p.1 = some m ∧ m.root = some root ∧ m.offset = p.2 := by
    intro p
    rw [List.mem_cons, mem_placedChildren, hmem]
    constructor
    · rintro (rfl | ⟨⟨-, m, hm, hroot⟩, n, hn, hoffset⟩)
      · exact ⟨r, hlive, hown, rfl⟩
      · obtain rfl := Option.some.inj (hm.symm.trans hn)
        exact ⟨m, hm, hroot, hoffset⟩
    · rintro ⟨m, hm, hroot, hoffset⟩
      by_cases hself : p.1 = root
      · rw [hself] at hm
        obtain rfl := Option.some.inj (hlive.symm.trans hm)
        exact Or.inl (Prod.ext hself hoffset.symm)
      · exact Or.inr ⟨⟨hself, m, hm, hroot⟩, m, hm, hoffset⟩
  have hdistinct : (((root, r.offset) :: placedChildren nl r.children).map (·.1)).Nodup := by
    rw [hids]
    exact List.nodup_cons.mpr ⟨fun h => ((hmem root).mp h).1 rfl, hnodup⟩
  show (((root, r.offset) :: placedChildren nl r.children).map fun p => slot r.offset p.2).Nodup ↔ _
  constructor
  · intro h a b m n ha hb hm hn hslot
    exact congrArg Prod.fst (List.inj_on_of_nodup_map h ((hlisted (a, m.offset)).mpr ⟨m, ha, hm, rfl⟩)
      ((hlisted (b, n.offset)).mpr ⟨n, hb, hn, rfl⟩) hslot)
  · intro h
    refine hdistinct.of_map.map_on ?_
    intro p hp q hq hslot
    obtain ⟨m, hm, hmr, hmo⟩ := (hlisted p).mp hp
    obtain ⟨n, hn, hnr, hno⟩ := (hlisted q).mp hq
    have hid := h p.1 q.1 m n hm hn hmr hnr (by rw [hmo, hno]; exact hslot)
    exact List.inj_on_of_nodup_map hdistinct hp hq hid

/-- The verification succeeds exactly at the roots of clusters. -/
theorem check_ok_iff : check nl root = .ok () ↔ ∃ r, IsCluster nl.membership root r := by
  unfold check
  cases hc : nl.cell? root with
  | none =>
    constructor
    · rintro ⟨⟩
    · rintro ⟨r, hr⟩
      obtain ⟨c, hc', -⟩ := exists_cell_of_membership hr.live
      rw [hc] at hc'
      cases hc'
  | some c =>
    have hlive := membership_of_cell? hc
    dsimp only
    by_cases hroot : c.cluster.root = some root
    · rw [if_neg (not_not_intro hroot)]
      constructor
      · intro h
        obtain ⟨_, hzero, h⟩ := except_bind_ok.mp h
        obtain ⟨placed, hchildren, h⟩ := except_bind_ok.mp h
        obtain ⟨_, hlisted, hslots⟩ := except_bind_ok.mp h
        obtain ⟨hpoints, hnodup, rfl⟩ := checkChildren_ok.mp hchildren
        have hmem : ∀ id, id ∈ c.cluster.children ↔
            id ≠ root ∧ PointsTo nl.membership id root := fun id =>
          ⟨fun hid => ⟨fun e => (hpoints id hid).2 (List.mem_singleton.mpr e), (hpoints id hid).1⟩,
            fun ⟨hne, hid⟩ => checkListed_ok.mp hlisted id hid hne⟩
        exact ⟨c.cluster,
          { live := hlive
            own := hroot
            at_root := by simpa [Offset.isZero, and_assoc] using checkRootOffset_ok.mp hzero
            nodup := hnodup
            mem_children := hmem
            apart := (nodup_slots_iff hlive hroot hnodup hmem).mp (checkSlots_ok.mp hslots) }⟩
      · rintro ⟨r, hr⟩
        obtain rfl := Option.some.inj (hlive.symm.trans hr.live)
        have hzero : c.cluster.offset.isZero = true := by
          simpa [Offset.isZero, and_assoc] using hr.at_root
        have hchildren : ∀ child ∈ c.cluster.children,
            PointsTo nl.membership child root ∧ child ∉ [root] := fun child hchild =>
          ⟨((hr.mem_children child).mp hchild).2, fun e =>
            ((hr.mem_children child).mp hchild).1 (List.mem_singleton.mp e)⟩
        refine except_bind_ok.mpr ⟨(), checkRootOffset_ok.mpr hzero, except_bind_ok.mpr
          ⟨_, checkChildren_ok.mpr ⟨hchildren, hr.nodup, rfl⟩, except_bind_ok.mpr
            ⟨(), checkListed_ok.mpr fun id hid hne => (hr.mem_children id).mpr ⟨hne, hid⟩, ?_⟩⟩⟩
        exact checkSlots_ok.mpr ((nodup_slots_iff hlive hroot hr.nodup hr.mem_children).mpr hr.apart)
    · rw [if_pos hroot]
      constructor
      · rintro ⟨⟩
      · rintro ⟨r, hr⟩
        obtain rfl := Option.some.inj (hlive.symm.trans hr.live)
        exact absurd hr.own hroot

/-! ## Views -/

/-- The cells of a cluster as the placer reads them. -/
def View.cells (v : View) : List CellId := v.root :: v.members.map (·.1)

theorem mem_views {v : View} : v ∈ views nl ↔
    ∃ c, nl.cell? v.root = some c ∧ c.cluster.root = some v.root ∧
      v = ⟨v.root, c.cluster.offset, placedChildren nl c.cluster.children⟩ := by
  simp only [views, List.mem_map, List.mem_filter, decide_eq_true_eq, Prod.exists]
  constructor
  · rintro ⟨id, c, ⟨hmem, hroot⟩, rfl⟩
    exact ⟨c, (Arena.mem_entries _ _ _).mp hmem, hroot, rfl⟩
  · rintro ⟨c, hc, hroot, hv⟩
    exact ⟨v.root, c, ⟨(Arena.mem_entries _ _ _).mpr hc, hroot⟩, hv.symm⟩

/-- The roots of the clusters are listed once. -/
theorem nodup_roots : ((views nl).map View.root).Nodup := by
  refine nl.cells.nodup_ids.sublist ?_
  show List.Sublist (List.map View.root (List.map _ _)) (nl.cells.entries.map (·.1))
  rw [List.map_map]
  exact List.Sublist.map _ List.filter_sublist

section Consistent

variable (h : Consistent nl.membership)
include h

/-- The placer reads a cluster with exactly the cells that point to its root. -/
theorem Consistent.cells_of_view {v : View} (hv : v ∈ views nl) :
    v.cells.Nodup ∧ ∀ id, id ∈ v.cells ↔ PointsTo nl.membership id v.root := by
  obtain ⟨c, hc, hroot, hfields⟩ := mem_views.mp hv
  obtain ⟨r, hr⟩ := h.clusters v.root v.root (pointsTo_iff.mpr ⟨c, hc, hroot⟩)
  obtain rfl := Option.some.inj ((membership_of_cell? hc).symm.trans hr.live)
  have hcells : v.cells = v.root :: c.cluster.children := by
    unfold View.cells
    rw [congrArg View.members hfields, map_placedChildren fun child hchild =>
      ((hr.mem_children child).mp hchild).2]
  refine ⟨?_, fun id => ?_⟩
  · rw [hcells]
    exact List.nodup_cons.mpr ⟨fun hmem => ((hr.mem_children _).mp hmem).1 rfl, hr.nodup⟩
  · rw [hcells, List.mem_cons, hr.mem_children]
    by_cases hid : id = v.root
    · simp [hid, hr.pointsTo]
    · simp [hid]

/-- The placer reads every clustered cell exactly once. -/
theorem Consistent.count_cells (hid : PointsTo nl.membership id root) :
    ((views nl).flatMap View.cells).count id = 1 := by
  refine List.count_eq_one_of_mem ?_ ?_
  · refine List.nodup_flatMap.mpr ⟨fun v hv => (h.cells_of_view hv).1, ?_⟩
    refine (List.pairwise_map.mp nodup_roots).imp_of_mem ?_
    intro v w hv hw hne x hxv hxw
    obtain ⟨m, hm, hroot⟩ := ((h.cells_of_view hv).2 x).mp hxv
    obtain ⟨n, hn, hroot'⟩ := ((h.cells_of_view hw).2 x).mp hxw
    obtain rfl := Option.some.inj (hm.symm.trans hn)
    exact hne (Option.some.inj (hroot.symm.trans hroot'))
  · obtain ⟨r, hr⟩ := h.clusters id root hid
    obtain ⟨c, hc, hroot⟩ := pointsTo_iff.mp hr.pointsTo
    have hv : (⟨root, c.cluster.offset, placedChildren nl c.cluster.children⟩ : View) ∈ views nl :=
      mem_views.mpr ⟨c, hc, hroot, rfl⟩
    exact List.mem_flatMap.mpr ⟨_, hv, ((h.cells_of_view hv).2 id).mpr hid⟩

end Consistent

/-! ## Reachable netlists -/

theorem consistent_empty : Consistent Netlist.empty.membership := ⟨nofun, nofun⟩

/-- In every netlist that operations make from the empty one, clusters are consistent, their
verification succeeds, and the placer reads every clustered cell exactly once. -/
theorem clusters_of_operations (names : Names) (ops : List Operation) :
    let nl := ((Session.start names).after ops).netlist
    Consistent nl.membership ∧
      (∀ root, PointsTo nl.membership root root → check nl root = .ok ()) ∧
      ∀ id root, PointsTo nl.membership id root → ((views nl).flatMap View.cells).count id = 1 := by
  have h := structural_consistent.after (s := Session.start names) consistent_empty ops
  exact ⟨h, fun root hroot => check_ok_iff.mpr (h.clusters root root hroot),
    fun id root hid => h.count_cells hid⟩

end Cluster
end FpgaPacking
