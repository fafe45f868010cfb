import FpgaPacking.Cluster.Build
import FpgaPacking.Proofs.Netlist.Operations

/-!
# Building a cluster

Clusters are a matter of one view of a netlist, the membership of each live cell.
`Buildable` says of this view what the checks before building ask of it.  A build
succeeds exactly then; otherwise it fails without a change.  `Built` says what
the memberships are afterwards.
-/

namespace FpgaPacking

/-- The cluster membership of each live cell. -/
abbrev Memberships := CellId → Option Membership

namespace Netlist

/-- The memberships in a netlist. -/
def membership (nl : Netlist) : Memberships := fun id => (nl.cell? id).map (·.cluster)

/-- Writes the cluster descriptor of a cell. -/
def setCluster (nl : Netlist) (id : CellId) (m : Membership) : Netlist :=
  nl.mapCell id fun c => { c with cluster := m }

variable {nl : Netlist} {id : CellId} {f : Cell → Cell}

theorem membership_of_cell? {c : Cell} (h : nl.cell? id = some c) :
    nl.membership id = some c.cluster := by
  rw [membership, h, Option.map_some]

theorem membership_isSome : (nl.membership id).isSome = (nl.cell? id).isSome := by
  simp [membership]

theorem exists_cell_of_membership {m : Membership} (h : nl.membership id = some m) :
    ∃ c, nl.cell? id = some c ∧ c.cluster = m := by
  simpa [membership] using h

/-- Memberships do not show a change of a cell that leaves its cluster alone. -/
theorem membership_mapCell (hf : ∀ c, (f c).cluster = c.cluster) :
    (nl.mapCell id f).membership = nl.membership :=
  shown_mapCell (g := Cell.cluster) hf

theorem membership_setCluster {m : Membership} (h : (nl.membership id).isSome) :
    (nl.setCluster id m).membership = Function.update nl.membership id (some m) := by
  funext other
  obtain ⟨c, hc⟩ := Option.isSome_iff_exists.mp (membership_isSome ▸ h)
  unfold membership setCluster
  rw [cell?_mapCell]
  by_cases ho : other = id
  · subst ho
    simp [hc]
  · rw [if_neg ho, Function.update_of_ne ho]

theorem membership_addCell {c : Cell} :
    (nl.addCell c).membership = Function.update nl.membership nl.nextCell (some c.cluster) :=
  shown_addCell (g := Cell.cluster)

theorem membership_dropCell :
    (nl.dropCell id).membership = Function.update nl.membership id none :=
  shown_dropCell (g := Cell.cluster)

theorem membership_nextCell : nl.membership nl.nextCell = none := by
  rw [membership, cell?_nextCell]
  rfl

end Netlist

namespace Cluster

open Netlist

variable {ms ms' : Memberships} {nl : Netlist} {id root : CellId} {rootOffset : Offset}
  {members : List Placed}

/-! ## What the checks ask for -/

/-- The cell is live and in no cluster. -/
def Free (ms : Memberships) (id : CellId) : Prop := ∃ m, ms id = some m ∧ m.root = none

/-- A cluster can be built from a root and members at the given places. -/
structure Buildable (ms : Memberships) (root : CellId) (rootOffset : Offset)
    (members : List Placed) : Prop where
  at_root : rootOffset.isZero = true
  free : ∀ id ∈ root :: members.map (·.1), Free ms id
  distinct : (root :: members.map (·.1)).Nodup
  /-- No two cells are in the same slot. -/
  apart : (slot rootOffset rootOffset :: members.map fun p => slot rootOffset p.2).Nodup

/-- Two places are in one slot if they are at the same distance and count the slots in the same way.
With a pinned root both ways are the same. -/
def SameSlot (rootOffset a b : Offset) : Prop :=
  a.dx = b.dx ∧ a.dy = b.dy ∧ a.dz = b.dz ∧ (rootOffset.pinned = true ∨ a.pinned = b.pinned)

theorem slot_eq_iff {a b : Offset} : slot rootOffset a = slot rootOffset b ↔
    SameSlot rootOffset a b := by
  have hspace : ∀ r x y : Bool, (r || x) = (r || y) ↔ r = true ∨ x = y := by decide
  unfold slot SameSlot
  rw [Slot.mk.injEq, hspace]
  constructor
  · rintro ⟨hspace, hx, hy, hz⟩
    exact ⟨hx, hy, hz, hspace⟩
  · rintro ⟨hx, hy, hz, hspace⟩
    exact ⟨hspace, hx, hy, hz⟩

theorem checkRootOffset_ok {offset : Offset} :
    checkRootOffset nl root offset = .ok () ↔ offset.isZero = true := by
  unfold checkRootOffset
  split
  · next h => exact ⟨fun _ => h, fun _ => rfl⟩
  · next h =>
    refine ⟨fun hrun => ?_, fun hzero => absurd hzero h⟩
    obtain ⟨c, -, hthrow⟩ := except_bind_ok.mp hrun
    cases hthrow

theorem lookup_ok {c : Cell} :
    (nl.cell id).mapError Failure.fault = .ok c ↔ nl.cell? id = some c := by
  unfold Netlist.cell
  cases nl.cell? id <;> simp [Except.mapError]

theorem lookup_of_live (hlive : (nl.cell? id).isSome) :
    ∃ c, nl.cell? id = some c ∧ (nl.cell id).mapError Failure.fault = .ok c := by
  obtain ⟨c, hc⟩ := Option.isSome_iff_exists.mp hlive
  exact ⟨c, hc, lookup_ok.mpr hc⟩

theorem checkFree_ok {requested : CellId} :
    checkFree nl id requested = .ok () ↔ Free nl.membership id := by
  unfold checkFree
  rw [except_bind_ok]
  constructor
  · rintro ⟨c, hc, hrun⟩
    refine ⟨c.cluster, membership_of_cell? (lookup_ok.mp hc), ?_⟩
    cases hroot : c.cluster.root with
    | none => rfl
    | some existing =>
      rw [hroot] at hrun
      obtain ⟨e, -, hthrow⟩ := except_bind_ok.mp hrun
      cases hthrow
  · rintro ⟨m, hm, hfree⟩
    obtain ⟨c, hc, rfl⟩ := exists_cell_of_membership hm
    refine ⟨c, lookup_ok.mpr hc, ?_⟩
    rw [hfree]
    rfl

theorem checkMembers_nil {seen : List CellId} : checkMembers nl root seen [] = .ok () := rfl

theorem checkMembers_cons {seen rest : List CellId} :
    checkMembers nl root seen (id :: rest) = (do
      checkFree nl id root
      if id ∈ seen then
        throw (← (conflict nl id root root).mapError .fault)
      checkMembers nl root (id :: seen) rest) := rfl

theorem checkMembers_ok {seen ids : List CellId} :
    checkMembers nl root seen ids = .ok () ↔
      (∀ id ∈ ids, Free nl.membership id ∧ id ∉ seen) ∧ ids.Nodup := by
  induction ids generalizing seen with
  | nil => simp [checkMembers_nil]
  | cons id rest ih =>
    have hhead : checkMembers nl root seen (id :: rest) = .ok () ↔
        Free nl.membership id ∧ id ∉ seen ∧ checkMembers nl root (id :: seen) rest = .ok () := by
      rw [checkMembers_cons, except_bind_ok]
      constructor
      · rintro ⟨u, hfree, hrest⟩
        refine ⟨checkFree_ok.mp hfree, ?_⟩
        split at hrest
        · obtain ⟨e, -, hthrow⟩ := except_bind_ok.mp hrest
          cases hthrow
        · next hseen => exact ⟨hseen, hrest⟩
      · rintro ⟨hfree, hseen, hrest⟩
        refine ⟨(), checkFree_ok.mpr hfree, ?_⟩
        rw [if_neg hseen]
        exact hrest
    rw [hhead, ih, List.forall_mem_cons, List.nodup_cons]
    constructor
    · rintro ⟨hfree, hseen, hrest, hnodup⟩
      exact ⟨⟨⟨hfree, hseen⟩, fun other ho => ⟨(hrest other ho).1, fun hs =>
        (hrest other ho).2 (List.mem_cons_of_mem id hs)⟩⟩, fun hmem =>
          (hrest id hmem).2 List.mem_cons_self, hnodup⟩
    · rintro ⟨⟨⟨hfree, hseen⟩, hrest⟩, hnew, hnodup⟩
      refine ⟨hfree, hseen, fun other ho => ⟨(hrest other ho).1, fun hs => ?_⟩, hnodup⟩
      rcases List.mem_cons.mp hs with rfl | hs
      · exact hnew ho
      · exact (hrest other ho).2 hs

theorem checkFreeSlots_ok {taken : List (Slot × CellId)} :
    checkFreeSlots nl root rootOffset taken members = .ok () ↔
      (∀ p ∈ members, slot rootOffset p.2 ∉ taken.map (·.1)) ∧
        (members.map fun p => slot rootOffset p.2).Nodup := by
  induction members generalizing taken with
  | nil => simp [checkFreeSlots]
  | cons p rest ih =>
    obtain ⟨id, offset⟩ := p
    have hhead : checkFreeSlots nl root rootOffset taken ((id, offset) :: rest) = .ok () ↔
        slot rootOffset offset ∉ taken.map (·.1) ∧
          checkFreeSlots nl root rootOffset ((slot rootOffset offset, id) :: taken) rest =
            .ok () := by
      rw [checkFreeSlots]
      cases hfirst : taken.lookup (slot rootOffset offset) with
      | none =>
        have hfree : slot rootOffset offset ∉ taken.map (·.1) := by
          intro hmem
          obtain ⟨p, hp, hslot⟩ := List.mem_map.mp hmem
          have := List.lookup_eq_none_iff.mp hfirst p hp
          simp [hslot] at this
        exact ⟨fun h => ⟨hfree, h⟩, fun h => h.2⟩
      | some first =>
        constructor
        · intro hrun
          obtain ⟨r, -, hrun⟩ := except_bind_ok.mp hrun
          obtain ⟨a, -, hrun⟩ := except_bind_ok.mp hrun
          obtain ⟨b, -, hrun⟩ := except_bind_ok.mp hrun
          cases hrun
        · rintro ⟨hfree, -⟩
          obtain ⟨before, after, rfl, -⟩ := List.lookup_eq_some_iff.mp hfirst
          simp at hfree
    rw [hhead, ih, List.forall_mem_cons]
    simp only [List.map_cons, List.nodup_cons]
    constructor
    · rintro ⟨hfree, hrest, hnodup⟩
      refine ⟨⟨hfree, fun p hp hmem => (hrest p hp) (List.mem_cons_of_mem _ hmem)⟩, ?_, hnodup⟩
      intro hmem
      obtain ⟨p, hp, hslot⟩ := List.mem_map.mp hmem
      exact hrest p hp (hslot ▸ List.mem_cons_self)
    · rintro ⟨⟨hfree, hrest⟩, hnew, hnodup⟩
      refine ⟨hfree, fun p hp hmem => ?_, hnodup⟩
      rcases List.mem_cons.mp hmem with hslot | hmem
      · exact hnew (List.mem_map.mpr ⟨p, hp, hslot⟩)
      · exact hrest p hp hmem

/-- The slots of a root and of the cells around it are different ones. -/
theorem checkSlots_ok : checkSlots nl root rootOffset members = .ok () ↔
    (slot rootOffset rootOffset :: members.map fun p => slot rootOffset p.2).Nodup := by
  unfold checkSlots
  rw [checkFreeSlots_ok, List.nodup_cons]
  simp [eq_comm]

theorem checkBuild_ok : checkBuild nl root rootOffset members = .ok () ↔
    Buildable nl.membership root rootOffset members := by
  unfold checkBuild
  constructor
  · intro h
    obtain ⟨_, hzero, h⟩ := except_bind_ok.mp h
    obtain ⟨_, hroot, h⟩ := except_bind_ok.mp h
    obtain ⟨_, hmembers, hslots⟩ := except_bind_ok.mp h
    obtain ⟨hfree, hnodup⟩ := checkMembers_ok.mp hmembers
    have hother : root ∉ members.map (·.1) := fun hmem =>
      (hfree root hmem).2 (List.mem_singleton_self root)
    exact
      { at_root := checkRootOffset_ok.mp hzero
        free := List.forall_mem_cons.mpr ⟨checkFree_ok.mp hroot, fun id hid => (hfree id hid).1⟩
        distinct := List.nodup_cons.mpr ⟨hother, hnodup⟩
        apart := checkSlots_ok.mp hslots }
  · intro h
    obtain ⟨hroot, hfree⟩ := List.forall_mem_cons.mp h.free
    obtain ⟨hother, hnodup⟩ := List.nodup_cons.mp h.distinct
    have hmembers : ∀ id ∈ members.map (·.1), Free nl.membership id ∧ id ∉ [root] := fun id hid =>
      ⟨hfree id hid, fun hself => hother (List.mem_singleton.mp hself ▸ hid)⟩
    exact except_bind_ok.mpr ⟨(), checkRootOffset_ok.mpr h.at_root, except_bind_ok.mpr
      ⟨(), checkFree_ok.mpr hroot, except_bind_ok.mpr
        ⟨(), checkMembers_ok.mpr ⟨hmembers, hnodup⟩, checkSlots_ok.mpr h.apart⟩⟩⟩

/-! ## What building does -/

/-- Makes a cell a member of the cluster of `root`. -/
def place (root : CellId) (nl : Netlist) (p : Placed) : Netlist :=
  nl.setCluster p.1 ⟨some root, p.2, []⟩

/-- The netlist after a cluster has been built. -/
def clustered (nl : Netlist) (root : CellId) (rootOffset : Offset) (members : List Placed) : Netlist :=
  members.foldl (place root)
    (nl.setCluster root ⟨some root, ⟨0, 0, 0, rootOffset.pinned⟩, members.map (·.1)⟩)

theorem updateCell_run {names : Names} {f : Cell → Cell} (h : (nl.cell? id).isSome) :
    Edit.updateCell id f names nl = .ok () (nl.mapCell id f) := by
  obtain ⟨c, hc⟩ := Option.isSome_iff_exists.mp h
  rcases Edit.cell_cases names with ⟨e, hnone, -⟩ | ⟨d, -, hrun⟩
  · rw [hc] at hnone
    cases hnone
  · unfold Edit.updateCell
    rw [Edit.run_bind_of_ok hrun]
    rfl

theorem exists_cell_of_free (h : Free nl.membership id) : (nl.cell? id).isSome := by
  obtain ⟨m, hm, -⟩ := h
  obtain ⟨c, hc, -⟩ := exists_cell_of_membership hm
  simp [hc]

theorem cell?_setCluster_isSome {m : Membership} {other : CellId} :
    ((nl.setCluster id m).cell? other).isSome = (nl.cell? other).isSome := by
  unfold setCluster
  rw [cell?_mapCell]
  split
  · next h => simp [h]
  · rfl

theorem place_run {names : Names} (h : ∀ p ∈ members, (nl.cell? p.1).isSome) :
    (members.forM fun (id, offset) =>
      Edit.updateCell id fun c => { c with cluster := ⟨some root, offset, []⟩ } : Edit PUnit) names nl =
      .ok () (members.foldl (place root) nl) := by
  induction members generalizing nl with
  | nil => rfl
  | cons p rest ih =>
    obtain ⟨hhead, hrest⟩ := List.forall_mem_cons.mp h
    exact (Edit.run_bind_of_ok (updateCell_run hhead)).trans
      (ih fun q hq => cell?_setCluster_isSome.trans (hrest q hq))

/-- A cluster that can be built is built. -/
theorem build_run {names : Names} (h : Buildable nl.membership root rootOffset members) :
    build root rootOffset members names nl = .ok () (clustered nl root rootOffset members) := by
  obtain ⟨hroot, hfree⟩ := List.forall_mem_cons.mp h.free
  unfold build
  rw [Edit.run_bind_of_ok (Edit.get_ok.mpr ⟨rfl, rfl⟩), checkBuild_ok.mpr h]
  refine (Edit.run_bind_of_ok (updateCell_run (exists_cell_of_free hroot))).trans (place_run ?_)
  intro p hp
  exact cell?_setCluster_isSome.trans
    (exists_cell_of_free (hfree p.1 (List.mem_map_of_mem hp)))

/-- What the checks refuse is not begun. -/
theorem build_of_error {names : Names} {e : Failure}
    (h : checkBuild nl root rootOffset members = .error e) :
    build root rootOffset members names nl = .error e nl := by
  unfold build
  rw [Edit.run_bind_of_ok (Edit.get_ok.mpr ⟨rfl, rfl⟩), h]
  rfl

/-- Building fails without a change or builds the cluster. -/
theorem build_cases (names : Names) :
    (∃ e, build root rootOffset members names nl = .error e nl) ∨
      Buildable nl.membership root rootOffset members ∧
        build root rootOffset members names nl =
          .ok () (clustered nl root rootOffset members) := by
  cases hcheck : checkBuild nl root rootOffset members with
  | error e => exact Or.inl ⟨e, build_of_error hcheck⟩
  | ok u =>
    have hbuildable := checkBuild_ok.mp hcheck
    exact Or.inr ⟨hbuildable, build_run hbuildable⟩

/-- The memberships after a cluster has been built. -/
structure Built (root : CellId) (rootOffset : Offset) (members : List Placed)
    (ms ms' : Memberships) : Prop where
  at_root : ms' root = some ⟨some root, ⟨0, 0, 0, rootOffset.pinned⟩, members.map (·.1)⟩
  at_member : ∀ p ∈ members, ms' p.1 = some ⟨some root, p.2, []⟩
  elsewhere : ∀ id, id ∉ root :: members.map (·.1) → ms' id = ms id

/-- Building a cluster removes no cell. -/
theorem Built.isSome {ms ms' : Memberships} (h : Built root rootOffset members ms ms') {id : CellId}
    (hid : (ms id).isSome) : (ms' id).isSome := by
  by_cases hmem : id ∈ root :: members.map (·.1)
  · rcases List.mem_cons.mp hmem with rfl | hmem
    · simp [h.at_root]
    · obtain ⟨p, hp, rfl⟩ := List.mem_map.mp hmem
      simp [h.at_member p hp]
  · rw [h.elsewhere id hmem]
    exact hid

theorem membership_placed (hlive : ∀ p ∈ members, (nl.membership p.1).isSome)
    (hnodup : (members.map (·.1)).Nodup) :
    (∀ p ∈ members, (members.foldl (place root) nl).membership p.1 = some ⟨some root, p.2, []⟩) ∧
      ∀ id, id ∉ members.map (·.1) →
        (members.foldl (place root) nl).membership id = nl.membership id := by
  induction members generalizing nl with
  | nil => exact ⟨nofun, fun _ _ => rfl⟩
  | cons p rest ih =>
    obtain ⟨hhead, hrest⟩ := List.forall_mem_cons.mp hlive
    obtain ⟨hnew, hnodup⟩ := List.nodup_cons.mp hnodup
    have hplaced : (place root nl p).membership =
        Function.update nl.membership p.1 (some ⟨some root, p.2, []⟩) := membership_setCluster hhead
    have hne : ∀ q ∈ rest, q.1 ≠ p.1 := fun q hq e =>
      hnew (List.mem_map.mpr ⟨q, hq, e⟩)
    have hlater : ∀ q ∈ rest, ((place root nl p).membership q.1).isSome := by
      intro q hq
      rw [hplaced, Function.update_of_ne (hne q hq)]
      exact hrest q hq
    obtain ⟨hmembers, hothers⟩ := ih hlater hnodup
    refine ⟨List.forall_mem_cons.mpr ⟨?_, hmembers⟩, fun id hid => ?_⟩
    · rw [List.foldl_cons, hothers p.1 hnew, hplaced, Function.update_self]
    · rw [List.foldl_cons, hothers id (List.not_mem_of_not_mem_cons hid), hplaced,
        Function.update_of_ne (List.ne_of_not_mem_cons hid)]

theorem built_clustered (h : Buildable nl.membership root rootOffset members) :
    Built root rootOffset members nl.membership
      (clustered nl root rootOffset members).membership := by
  have hlive : ∀ id ∈ root :: members.map (·.1), (nl.membership id).isSome := by
    intro id hid
    obtain ⟨m, hm, -⟩ := h.free id hid
    simp [hm]
  obtain ⟨hroot, hmembers⟩ := List.forall_mem_cons.mp hlive
  obtain ⟨hother, hnodup⟩ := List.nodup_cons.mp h.distinct
  have hrooted := membership_setCluster
    (m := ⟨some root, ⟨0, 0, 0, rootOffset.pinned⟩, members.map (·.1)⟩) hroot
  have hne : ∀ p ∈ members, p.1 ≠ root := fun p hp e =>
    hother (List.mem_map.mpr ⟨p, hp, e⟩)
  have hrest : ∀ p ∈ members, ((nl.setCluster root
      ⟨some root, ⟨0, 0, 0, rootOffset.pinned⟩, members.map (·.1)⟩).membership p.1).isSome := by
    intro p hp
    rw [hrooted, Function.update_of_ne (hne p hp)]
    exact hmembers p.1 (List.mem_map_of_mem hp)
  obtain ⟨hplaced, hkept⟩ := membership_placed hrest hnodup
  refine ⟨?_, hplaced, fun id hid => ?_⟩
  · exact (hkept root hother).trans (by rw [hrooted, Function.update_self])
  · refine (hkept id (List.not_mem_of_not_mem_cons hid)).trans ?_
    rw [hrooted, Function.update_of_ne (List.ne_of_not_mem_cons hid)]

end Cluster
end FpgaPacking
