import FpgaPacking.Proofs.Cluster.Building
import FpgaPacking.Proofs.Failures
import FpgaPacking.Proofs.Reachable

/-!
# Slots and placements

Wherever the root of a cluster is placed, the offsets say where the other cells
come to lie.  The check of the slots compares offsets and knows of no placement.
It is right nevertheless: cells in one slot lie on each other at every placement,
and a root that is placed in a slot far enough away keeps all other cells apart.

Slots of the tile and slots counted from the root may fall together at some
placements.  Far away they do not, and with a pinned root, which can be placed in
slot 0 only, they are the same.
-/

namespace FpgaPacking

/-- The failure reports two cells in one slot. -/
def Failure.Collision (e : Failure) : Prop :=
  ∃ root first second dx dy z, e = .rejected (.slotCollision root first second dx dy z)

namespace Cluster

variable {names : Names} {nl : Netlist} {root : CellId} {rootOffset a b : Offset}
  {members : List Placed} {offsets : List Offset}

/-! ## Refused slots -/

/-- The cells in the slots that are taken are live. -/
theorem refuses_checkFreeSlots (hroot : (nl.cell? root).isSome)
    (hmembers : ∀ p ∈ members, (nl.cell? p.1).isSome) {taken : List (Slot × CellId)}
    (htaken : ∀ entry ∈ taken, (nl.cell? entry.2).isSome) :
    Refuses Failure.Collision (checkFreeSlots nl root rootOffset taken members) := by
  induction members generalizing taken with
  | nil => exact .ok _
  | cons p rest ih =>
    obtain ⟨id, offset⟩ := p
    obtain ⟨hid, hrest⟩ := List.forall_mem_cons.mp hmembers
    unfold checkFreeSlots
    dsimp only
    split
    · exact ih hrest (List.forall_mem_cons.mpr ⟨hid, htaken⟩)
    · next first hfirst =>
      obtain ⟨before, after, rfl, -⟩ := List.lookup_eq_some_iff.mp hfirst
      obtain ⟨r, -, hr⟩ := lookup_of_live hroot
      obtain ⟨a, -, ha⟩ := lookup_of_live
        (htaken (slot rootOffset offset, first) (List.mem_append_right _ List.mem_cons_self))
      obtain ⟨b, -, hb⟩ := lookup_of_live hid
      refine .bind_of_ok hr (.bind_of_ok ha (.bind_of_ok hb ?_))
      exact .error ⟨_, _, _, _, _, _, rfl⟩

theorem refuses_checkSlots (hroot : (nl.cell? root).isSome)
    (hmembers : ∀ p ∈ members, (nl.cell? p.1).isSome) :
    Refuses Failure.Collision (checkSlots nl root rootOffset members) :=
  refuses_checkFreeSlots hroot hmembers (List.forall_mem_cons.mpr ⟨hroot, nofun⟩)

/-! ## Sites -/

/-- A slot of a tile of the fabric. -/
structure Site where
  x : Int
  y : Int
  slot : Int
deriving DecidableEq

namespace Site

/-- Where a cell comes to lie whose root is placed at the site. -/
def target (site : Site) (offset : Offset) : Site where
  x := site.x + offset.dx
  y := site.y + offset.dy
  slot := if offset.pinned then offset.dz else site.slot + offset.dz

/-- The root can be placed at the site. -/
def Admits (site : Site) (rootOffset : Offset) : Prop := rootOffset.pinned = true → site.slot = 0

variable {site : Site}

theorem target_inj : site.target a = site.target b ↔ a.dx = b.dx ∧ a.dy = b.dy ∧
    (if a.pinned then a.dz else site.slot + a.dz) =
      if b.pinned then b.dz else site.slot + b.dz := by
  unfold target
  rw [mk.injEq]
  omega

/-- Cells in one slot lie on each other at every placement. -/
theorem target_of_sameSlot (hsite : site.Admits rootOffset) (h : SameSlot rootOffset a b) :
    site.target a = site.target b := by
  obtain ⟨hx, hy, hz, hspace⟩ := h
  refine target_inj.mpr ⟨hx, hy, ?_⟩
  rcases hspace with hroot | hsame
  · have hslot : site.slot = 0 := hsite hroot
    split <;> split <;> omega
  · rw [hsame, hz]

/-- With a pinned root cells that lie on each other are in one slot. -/
theorem sameSlot_of_pinned (hroot : rootOffset.pinned = true) (hsite : site.Admits rootOffset)
    (h : site.target a = site.target b) : SameSlot rootOffset a b := by
  obtain ⟨hx, hy, hslot⟩ := target_inj.mp h
  have hzero : site.slot = 0 := hsite hroot
  refine ⟨hx, hy, ?_, Or.inl hroot⟩
  split at hslot <;> split at hslot <;> omega

/-- The largest distance between slots that the offsets can make up. -/
def reach : List Offset → Nat
  | [] => 0
  | offset :: rest => 2 * offset.dz.natAbs + reach rest

theorem natAbs_le_reach (h : a ∈ offsets) : 2 * a.dz.natAbs ≤ reach offsets := by
  induction h with
  | head rest => exact Nat.le_add_right _ _
  | tail offset _ ih => exact Nat.le_trans ih (Nat.le_add_left _ _)

/-- A site for the root that is out of reach of the slots of the tile, unless the root is pinned. -/
def far (rootOffset : Offset) (offsets : List Offset) : Site :=
  ⟨0, 0, if rootOffset.pinned then 0 else reach offsets + 1⟩

theorem far_admits : (far rootOffset offsets).Admits rootOffset := by
  intro hroot
  simp [far, hroot]

/-- At the far site only cells in one slot lie on each other. -/
theorem sameSlot_of_far (ha : a ∈ offsets) (hb : b ∈ offsets)
    (h : (far rootOffset offsets).target a = (far rootOffset offsets).target b) :
    SameSlot rootOffset a b := by
  cases hroot : rootOffset.pinned with
  | true => exact sameSlot_of_pinned hroot far_admits h
  | false =>
    have hna := natAbs_le_reach ha
    have hnb := natAbs_le_reach hb
    obtain ⟨hx, hy, hslot⟩ := target_inj.mp h
    simp only [far, hroot] at hslot
    -- A pinned and another cell would be further apart than any two offsets are.
    unfold SameSlot
    cases hpa : a.pinned <;> cases hpb : b.pinned <;> simp [hpa, hpb] at hslot ⊢ <;> omega

end Site

/-! ## Placeable clusters -/

/-- The cells of a cluster with their offsets. -/
def cells (root : CellId) (rootOffset : Offset) (members : List Placed) : List Placed :=
  (root, rootOffset) :: members

section Distinct

variable (hids : ((cells root rootOffset members).map (·.1)).Nodup)
include hids

/-- Two cells share a value unless the values are distinct. -/
theorem not_nodup_map_iff {α : Type} (f : Offset → α) :
    ¬((cells root rootOffset members).map fun p => f p.2).Nodup ↔
      ∃ p ∈ cells root rootOffset members, ∃ q ∈ cells root rootOffset members,
        p.1 ≠ q.1 ∧ f p.2 = f q.2 := by
  have hinj := List.inj_on_of_nodup_map hids
  rw [List.nodup_map_iff_inj_on hids.of_map]
  push Not
  constructor
  · rintro ⟨p, hp, q, hq, hsame, hne⟩
    exact ⟨p, hp, q, hq, fun h => hne (hinj hp hq h), hsame⟩
  · rintro ⟨p, hp, q, hq, hne, hsame⟩
    exact ⟨p, hp, q, hq, hsame, fun h => hne (congrArg Prod.fst h)⟩

/-- The slots are distinct if the cells can be placed somewhere. -/
theorem nodup_slots_of_targets {site : Site} (hsite : site.Admits rootOffset)
    (h : ((cells root rootOffset members).map fun p => site.target p.2).Nodup) :
    ((cells root rootOffset members).map fun p => slot rootOffset p.2).Nodup := by
  by_contra hslots
  obtain ⟨p, hp, q, hq, hne, hslot⟩ := (not_nodup_map_iff hids (slot rootOffset)).mp hslots
  have hmeet := Site.target_of_sameSlot hsite (slot_eq_iff.mp hslot)
  exact (not_nodup_map_iff hids site.target).mpr ⟨p, hp, q, hq, hne, hmeet⟩ h

/-- Distinct slots are distinct targets at a site at which only cells in one slot lie on each other. -/
theorem nodup_targets_of_slots {site : Site}
    (hsite : ∀ p ∈ cells root rootOffset members, ∀ q ∈ cells root rootOffset members,
      site.target p.2 = site.target q.2 → SameSlot rootOffset p.2 q.2)
    (h : ((cells root rootOffset members).map fun p => slot rootOffset p.2).Nodup) :
    ((cells root rootOffset members).map fun p => site.target p.2).Nodup := by
  by_contra htargets
  obtain ⟨p, hp, q, hq, hne, hmeet⟩ := (not_nodup_map_iff hids site.target).mp htargets
  exact (not_nodup_map_iff hids (slot rootOffset)).mpr
    ⟨p, hp, q, hq, hne, slot_eq_iff.mpr (hsite p hp q hq hmeet)⟩ h

/-- Somewhere the targets are distinct exactly if the slots are. -/
theorem exists_site_iff : (∃ site : Site, site.Admits rootOffset ∧
      ((cells root rootOffset members).map fun p => site.target p.2).Nodup) ↔
    ((cells root rootOffset members).map fun p => slot rootOffset p.2).Nodup := by
  constructor
  · rintro ⟨site, hsite, htargets⟩
    exact nodup_slots_of_targets hids hsite htargets
  · intro hslots
    refine ⟨Site.far rootOffset ((cells root rootOffset members).map (·.2)), Site.far_admits, ?_⟩
    refine nodup_targets_of_slots hids (fun p hp q hq => ?_) hslots
    exact Site.sameSlot_of_far (List.mem_map_of_mem hp) (List.mem_map_of_mem hq)

end Distinct

/-! ## Accepted and refused clusters -/

/-- Once the cells are known to be free and distinct, the slots decide. -/
theorem checkBuild_eq (hzero : rootOffset.isZero = true) (hroot : checkFree nl root root = .ok ())
    (hmembers : checkMembers nl root [root] (members.map (·.1)) = .ok ()) :
    checkBuild nl root rootOffset members = checkSlots nl root rootOffset members := by
  unfold checkBuild
  rw [checkRootOffset_ok.mpr hzero, hroot, hmembers]
  rfl

/-- With distinct slots the cluster is built, otherwise a collision is reported. -/
theorem build_outcome (names : Names) (rootOffset : Offset) (members : List Placed)
    (hzero : rootOffset.isZero = true) (hroot : checkFree nl root root = .ok ())
    (hmembers : checkMembers nl root [root] (members.map (·.1)) = .ok ()) :
    ((cells root rootOffset members).map fun p => slot rootOffset p.2).Nodup ∧
        (∃ nl', build root rootOffset members names nl = .ok () nl') ∨
      ¬((cells root rootOffset members).map fun p => slot rootOffset p.2).Nodup ∧
        ∃ e, build root rootOffset members names nl = .error e nl ∧ e.Collision := by
  have hslots : checkSlots nl root rootOffset members = .ok () ↔
      ((cells root rootOffset members).map fun p => slot rootOffset p.2).Nodup := checkSlots_ok
  have hcheck := checkBuild_eq hzero hroot hmembers
  cases hrun : checkSlots nl root rootOffset members with
  | ok u =>
    refine Or.inl ⟨hslots.mp hrun, _, build_run (checkBuild_ok.mp (hcheck.trans hrun))⟩
  | error e =>
    have hlive : (nl.cell? root).isSome := exists_cell_of_free (checkFree_ok.mp hroot)
    have hothers : ∀ p ∈ members, (nl.cell? p.1).isSome := fun p hp =>
      exists_cell_of_free ((checkMembers_ok.mp hmembers).1 p.1 (List.mem_map_of_mem hp)).1
    refine Or.inr ⟨fun hnodup => ?_, e, build_of_error (hcheck.trans hrun), ?_⟩
    · rw [hslots.mpr hnodup] at hrun
      cases hrun
    · exact refuses_checkSlots hlive hothers e hrun

/-- Of free and distinct cells a cluster can be built exactly if there is a site for its root at which
no two of them lie on each other.  Otherwise two of them are reported to collide. -/
theorem build_iff_placeable (names : Names) (nl : Netlist) (root : CellId) (pinned : Bool)
    (members : List Placed) (hroot : checkFree nl root root = .ok ())
    (hmembers : checkMembers nl root [root] (members.map (·.1)) = .ok ()) :
    let rootOffset : Offset := ⟨0, 0, 0, pinned⟩
    let all := cells root rootOffset members
    ((∃ nl', build root rootOffset members names nl = .ok () nl') ↔
      ∃ site : Site, site.Admits rootOffset ∧ (all.map fun p => site.target p.2).Nodup) ∧
    ((∃ e, build root rootOffset members names nl = .error e nl ∧ e.Collision) ↔
      ∀ site : Site, site.Admits rootOffset →
        ∃ p ∈ all, ∃ q ∈ all, p.1 ≠ q.1 ∧ site.target p.2 = site.target q.2) ∧
    (pinned = true → (∃ nl', build root rootOffset members names nl = .ok () nl') →
      ∀ site : Site, site.Admits rootOffset → (all.map fun p => site.target p.2).Nodup) := by
  intro rootOffset all
  obtain ⟨hfree, hnodup⟩ := checkMembers_ok.mp hmembers
  have hids : (all.map (·.1)).Nodup := List.nodup_cons.mpr
    ⟨fun hmem => (hfree root hmem).2 (List.mem_singleton_self root), hnodup⟩
  have hcollide : ∀ site : Site,
      (∃ p ∈ all, ∃ q ∈ all, p.1 ≠ q.1 ∧ site.target p.2 = site.target q.2) ↔
        ¬(all.map fun p => site.target p.2).Nodup := fun site =>
    (not_nodup_map_iff hids site.target).symm
  simp only [hcollide]
  rcases build_outcome names rootOffset members rfl hroot hmembers with
    ⟨hslots, nl', hbuilt⟩ | ⟨hslots, e, hrefused, hcollision⟩
  · have hsomewhere := (exists_site_iff hids).mpr hslots
    refine ⟨⟨fun _ => hsomewhere, fun _ => ⟨nl', hbuilt⟩⟩, ⟨?_, ?_⟩, fun hpinned _ site hsite => ?_⟩
    · rintro ⟨e, herror, -⟩
      rw [hbuilt] at herror
      cases herror
    · intro hnowhere
      obtain ⟨site, hsite, htargets⟩ := hsomewhere
      exact absurd htargets (hnowhere site hsite)
    · exact nodup_targets_of_slots hids
        (fun p _ q _ => Site.sameSlot_of_pinned hpinned hsite) hslots
  · have hnowhere : ¬∃ site : Site, site.Admits rootOffset ∧
        (all.map fun p => site.target p.2).Nodup := fun h => hslots ((exists_site_iff hids).mp h)
    have hunbuilt : ¬∃ nl', build root rootOffset members names nl = .ok () nl' := by
      rintro ⟨nl', hok⟩
      rw [hrefused] at hok
      cases hok
    refine ⟨⟨fun h => absurd h hunbuilt, fun h => absurd h hnowhere⟩, ⟨fun _ => ?_, fun _ => ?_⟩,
      fun _ h => absurd h hunbuilt⟩
    · exact fun site hsite htargets => hnowhere ⟨site, hsite, htargets⟩
    · exact ⟨e, hrefused, hcollision⟩

namespace Stack

/-- A base, a cell for slot 1 of its tile, and a cell for the slot above the base. -/
def session : Session := (Session.start .empty).after
  [.createCell ⟨0⟩ "base", .createCell ⟨0⟩ "fixed", .createCell ⟨0⟩ "above"]

def above : List Placed := [(⟨1⟩, ⟨0, 0, 1, true⟩), (⟨2⟩, ⟨0, 0, 1, false⟩)]

/-- The stack can be built unless the base is in slot 0. -/
theorem stack_placeable :
    checkFree session.netlist ⟨0⟩ ⟨0⟩ = .ok () ∧
    checkMembers session.netlist ⟨0⟩ [⟨0⟩] (above.map (·.1)) = .ok () ∧
    (∃ nl', build ⟨0⟩ ⟨0, 0, 0, false⟩ above session.names session.netlist = .ok () nl') ∧
    ∃ e, build ⟨0⟩ ⟨0, 0, 0, true⟩ above session.names session.netlist =
      .error e session.netlist ∧ e.Collision := by
  have hroot : checkFree session.netlist ⟨0⟩ ⟨0⟩ = .ok () := rfl
  have hmembers : checkMembers session.netlist ⟨0⟩ [⟨0⟩] (above.map (·.1)) = .ok () := rfl
  have hrelative := build_iff_placeable session.names session.netlist ⟨0⟩ false above hroot hmembers
  have hpinned := build_iff_placeable session.names session.netlist ⟨0⟩ true above hroot hmembers
  refine ⟨hroot, hmembers, hrelative.1.mpr ⟨⟨0, 0, 2⟩, nofun, by decide⟩, hpinned.2.1.mpr ?_⟩
  intro site hsite
  refine ⟨(⟨1⟩, ⟨0, 0, 1, true⟩), by decide, (⟨2⟩, ⟨0, 0, 1, false⟩), by decide, by decide, ?_⟩
  have hslot : site.slot = 0 := hsite rfl
  simp [Site.target, hslot]

end Stack

end Cluster
end FpgaPacking
