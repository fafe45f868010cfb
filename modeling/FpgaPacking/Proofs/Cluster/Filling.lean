import FpgaPacking.Proofs.Cluster.Consistent
import Mathlib.Data.List.Nodup

/-!
# Clusters of chain segments

The members of a segment fill the slots of one tile after the other.  A position
is made of its tile and its slot, so no two members meet and a cluster can always
be built of them, as long as the positions are coordinates and the members are in
no cluster yet.
-/

namespace FpgaPacking
namespace Cluster

open Netlist

variable {ms ms' : Memberships} {nl nl' : Netlist} {names : Names} {slotsPerTile position : Nat}
  {members rest : List CellId} {placed : List Placed}

/-- The members are a cluster whose root is the first of them, and they fill the slots of one tile
after the other. -/
structure Fills (ms : Memberships) (slotsPerTile : Nat) (members : List CellId) : Prop where
  nonempty : members ≠ []
  placed : ∀ (i : Nat) id, members[i]? = some id → ms id =
    some ⟨members.head?, .inSlot 0 (i / slotsPerTile : Nat) (i % slotsPerTile : Nat),
      if i = 0 then members.tail else []⟩

theorem Fills.clustered (h : Fills ms slotsPerTile members) {id : CellId} (hid : id ∈ members) :
    ∃ m, ms id = some m ∧ m.root = members.head? ∧ m.root.isSome := by
  obtain ⟨i, hi⟩ := List.mem_iff_getElem?.mp hid
  exact ⟨_, h.placed i id hi, rfl, by simpa using h.nonempty⟩

/-- Clusters that stay in their place do not stop filling it. -/
theorem Fills.kept (h : Fills ms slotsPerTile members)
    (hkept : ∀ id m, m.root.isSome → ms id = some m → ms' id = some m) :
    Fills ms' slotsPerTile members where
  nonempty := h.nonempty
  placed i id hi := hkept id _ (by simpa using h.nonempty) (h.placed i id hi)

/-! ## Places -/

/-- The place of the member at a position. -/
def segmentPlace (slotsPerTile : Nat) (p : CellId × Nat) : Placed :=
  (p.1, .inSlot 0 (p.2 / slotsPerTile : Nat) (p.2 % slotsPerTile : Nat))

theorem segmentOffset_ok {offset : Offset} (h : segmentOffset slotsPerTile position = .ok offset) :
    offset = .inSlot 0 (position / slotsPerTile : Nat) (position % slotsPerTile : Nat) := by
  have hcoordinate : ∀ {n : Nat} {z : Int}, coordinate n = .ok z → z = n := by
    intro n z hz
    unfold coordinate at hz
    split at hz
    · exact (Except.ok.inj hz).symm
    · cases hz
  unfold segmentOffset tileAndSlot at h
  obtain ⟨⟨tile, slot⟩, hpair, h⟩ := except_bind_ok.mp h
  split at hpair
  · cases hpair
  · obtain ⟨rfl, rfl⟩ := Prod.mk.inj (Except.ok.inj hpair)
    obtain ⟨y, hy, h⟩ := except_bind_ok.mp h
    obtain ⟨z, hz, h⟩ := except_bind_ok.mp h
    rw [← Except.ok.inj h, hcoordinate hy, hcoordinate hz]

theorem segmentOffset_run (hslots : slotsPerTile ≠ 0) (h : position < 0x80000000) :
    segmentOffset slotsPerTile position =
      .ok (.inSlot 0 (position / slotsPerTile : Nat) (position % slotsPerTile : Nat)) := by
  have hcoordinate : ∀ {n : Nat}, n ≤ position → coordinate n = .ok (n : Int) := by
    intro n hn
    unfold coordinate
    rw [if_pos (Nat.lt_of_le_of_lt hn h)]
  unfold segmentOffset tileAndSlot
  rw [if_neg hslots]
  refine except_bind_ok.mpr ⟨_, rfl, ?_⟩
  refine except_bind_ok.mpr ⟨_, hcoordinate (Nat.div_le_self _ _), ?_⟩
  exact except_bind_ok.mpr ⟨_, hcoordinate (Nat.mod_le _ _), rfl⟩

theorem segmentPlaces_ok (h : segmentPlaces slotsPerTile rest = .ok placed) :
    placed = (rest.zipIdx 1).map (segmentPlace slotsPerTile) := by
  have hall := except_mapM_ok.mp h
  rw [← List.forall₂_eq_eq_eq, List.forall₂_map_right_iff]
  refine List.Forall₂.imp (fun p q hp => ?_) hall.flip
  obtain ⟨offset, hoffset, hq⟩ := except_bind_ok.mp hp
  rw [← Except.ok.inj hq, segmentOffset_ok hoffset]
  rfl

theorem segmentPlaces_run (hslots : slotsPerTile ≠ 0) (h : rest.length < 0x80000000) :
    segmentPlaces slotsPerTile rest = .ok ((rest.zipIdx 1).map (segmentPlace slotsPerTile)) := by
  refine except_mapM_ok.mpr (List.forall₂_map_right_iff.mpr (List.forall₂_same.mpr ?_))
  rintro ⟨id, position⟩ hp
  obtain ⟨hle, hget⟩ := List.mk_mem_zipIdx_iff_le_and_getElem?_sub.mp hp
  have hlt := (List.getElem?_eq_some_iff.mp hget).1
  exact except_bind_ok.mpr ⟨_, segmentOffset_run hslots (by omega), rfl⟩

theorem map_fst_segmentPlace :
    ((rest.zipIdx 1).map (segmentPlace slotsPerTile)).map (·.1) = rest := by
  rw [List.map_map]
  exact List.zipIdx_map_fst 1 rest

/-- Different positions are in different slots. -/
theorem nodup_slots (root : CellId) (rest : List CellId) :
    (slot (.inSlot 0 0 0) (.inSlot 0 0 0) :: ((rest.zipIdx 1).map (segmentPlace slotsPerTile)).map
      fun p => slot (.inSlot 0 0 0) p.2).Nodup := by
  have hall : (slot (.inSlot 0 0 0) (.inSlot 0 0 0) ::
      ((rest.zipIdx 1).map (segmentPlace slotsPerTile)).map fun p => slot (.inSlot 0 0 0) p.2) =
      (((root :: rest).zipIdx 0).map (·.2)).map fun i =>
        ⟨true, 0, (i / slotsPerTile : Nat), (i % slotsPerTile : Nat)⟩ := by
    rw [List.zipIdx_cons, List.map_map, List.map_map, List.map_cons]
    refine congrArg₂ _ ?_ rfl
    simp [slot, Offset.inSlot]
  rw [hall, List.zipIdx_map_snd]
  refine List.Nodup.map (fun i j hij => ?_) (List.nodup_range' 1)
  obtain ⟨-, -, htile, hslot⟩ := Slot.mk.inj hij
  rw [← Nat.div_add_mod i slotsPerTile, ← Nat.div_add_mod j slotsPerTile]
  rw [Int.ofNat.inj htile, Int.ofNat.inj hslot]

/-! ## Building the cluster of a segment -/

/-- A segment whose members are in no cluster gets one. -/
theorem constrainSegment_run (hslots : slotsPerTile ≠ 0) (hlength : members.length ≤ 0x80000000)
    (hfree : ∀ id ∈ members, Free nl.membership id) (hnodup : members.Nodup) :
    ∃ nl', constrainSegment members slotsPerTile names nl = .ok () nl' := by
  unfold constrainSegment
  rw [if_neg hslots]
  cases members with
  | nil => exact ⟨nl, rfl⟩
  | cons root rest =>
    have hrest : rest.length < 0x80000000 := by
      rw [List.length_cons] at hlength
      omega
    dsimp only
    rw [segmentPlaces_run hslots hrest]
    refine ⟨_, build_run
      { at_root := rfl
        free := ?_
        distinct := ?_
        apart := nodup_slots root rest }⟩
    · rw [map_fst_segmentPlace]
      exact hfree
    · rw [map_fst_segmentPlace]
      exact hnodup

/-- The cluster of a segment fills its tiles, and nothing else changes. -/
theorem constrainSegment_ok {u : Unit} (hne : members ≠ [])
    (h : constrainSegment members slotsPerTile names nl = .ok u nl') :
    Fills nl'.membership slotsPerTile members ∧
      ∀ id ∉ members, nl'.membership id = nl.membership id := by
  unfold constrainSegment at h
  split at h
  · cases h
  obtain ⟨root, rest, rfl⟩ := List.exists_cons_of_ne_nil hne
  dsimp only at h
  cases hplaces : segmentPlaces slotsPerTile rest with
  | error e =>
    rw [hplaces] at h
    cases h
  | ok placed =>
    rw [hplaces] at h
    obtain rfl := segmentPlaces_ok hplaces
    rcases build_cases names with ⟨e, hrun⟩ | ⟨hbuildable, hrun⟩
    · exact nomatch hrun.symm.trans h
    obtain rfl : clustered nl root _ _ = nl' := by
      have hsame := hrun.symm.trans h
      cases hsame
      rfl
    obtain ⟨hroot, hmember, helsewhere⟩ := built_clustered hbuildable
    rw [map_fst_segmentPlace] at hroot helsewhere
    refine ⟨⟨hne, fun i id hi => ?_⟩, helsewhere⟩
    cases i with
    | zero =>
      obtain rfl : root = id := Option.some.inj hi
      rw [hroot]
      simp [Offset.inSlot]
    | succ i =>
      have hmem : (id, i + 1) ∈ rest.zipIdx 1 :=
        List.mk_mem_zipIdx_iff_le_and_getElem?_sub.mpr ⟨Nat.le_add_left 1 i, hi⟩
      exact hmember _ (List.mem_map_of_mem hmem)

end Cluster
end FpgaPacking
