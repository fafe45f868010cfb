import FpgaPacking.Normalize.Run
import FpgaPacking.Proofs.Normalize.Phases
import Mathlib.Data.List.Perm.Subperm

/-!
# The weight of a netlist

The weight is the number of connected ports plus the number of live cells.  A
refinement connects no port that was not connected and creates no cell, so the
weight goes down by as many ports as are cut off and cells as are removed.

Each pass of normalization counts what it changes.  `Progress` says that a step
has lowered the weight by its count, and that it has changed nothing if it counts
nothing and nothing is queued for removal afterwards.  The second half needs the
queue: a tie cell without connected outputs is queued and not counted.
-/

namespace FpgaPacking
namespace Normalize

open Netlist

variable {options : NormalizeOptions} {names : Names} {nl nl' nl'' : Netlist} {r : PortRef}
  {id : CellId} {m n : Nat}

/-! ## Connected ports -/

/-- The connected ports of a listed cell. -/
def connectedPorts (entry : CellId × Cell) : List PortRef :=
  (entry.2.ports.filter fun p => p.net.isSome).map fun p => ⟨entry.1, p.name⟩

/-- The connected ports of all cells. -/
def connected (nl : Netlist) : List PortRef := nl.cells.entries.flatMap connectedPorts

theorem weight_eq (nl : Netlist) : weight nl = (connected nl).length + nl.cellIds.length := by
  have hsum : ∀ (entries : List (CellId × Cell)) (total : Nat),
      entries.foldl
          (fun total entry => total + (entry.2.ports.countP fun p => p.net.isSome) + 1) total =
        total + (entries.flatMap connectedPorts).length + entries.length := by
    intro entries
    induction entries with
    | nil => exact fun _ => rfl
    | cons entry rest ih =>
      intro total
      have hports : (connectedPorts entry).length = entry.2.ports.countP fun p => p.net.isSome := by
        rw [connectedPorts, List.length_map, List.countP_eq_length_filter]
      rw [List.foldl_cons, ih, List.flatMap_cons, List.length_append, List.length_cons, hports]
      omega
  have hids : nl.cellIds.length = nl.cells.entries.length := List.length_map _
  rw [weight, hsum, hids, Nat.zero_add]
  rfl

theorem mem_connected (hw : nl.WellFormed) : r ∈ connected nl ↔ (nl.wire r).isSome := by
  unfold connected
  rw [List.mem_flatMap]
  constructor
  · rintro ⟨⟨id, c⟩, hentry, hr⟩
    obtain ⟨p, hp, rfl⟩ := List.mem_map.mp hr
    obtain ⟨hp, hconnected⟩ := List.mem_filter.mp hp
    have hc : nl.cell? id = some c := (nl.cells.mem_entries id c).mp hentry
    rw [(hw.port_of_mem hc hp).1]
    exact hconnected
  · intro hr
    obtain ⟨k, hk⟩ := Option.isSome_iff_exists.mp hr
    obtain ⟨p, hp, hnet⟩ := wire_eq_some.mp hk
    obtain ⟨c, hc, hpc⟩ := Option.bind_eq_some_iff.mp hp
    refine ⟨(r.cell, c), (nl.cells.mem_entries r.cell c).mpr hc, List.mem_map.mpr ⟨p, ?_, ?_⟩⟩
    · exact List.mem_filter.mpr ⟨Cell.mem_ports_of_port? hpc, by simp [hnet]⟩
    · rw [Cell.name_of_port? hpc]

theorem nodup_connected (hw : nl.WellFormed) : (connected nl).Nodup := by
  refine List.nodup_flatMap.mpr ⟨fun entry hentry => ?_, ?_⟩
  · have hnames := hw.port_names entry.1 entry.2 ((nl.cells.mem_entries _ _).mp hentry)
    have hsub : ((entry.2.ports.filter fun p => p.net.isSome).map (·.name)).Sublist
        (entry.2.ports.map (·.name)) := List.Sublist.map _ List.filter_sublist
    refine List.Nodup.of_map PortRef.port ?_
    rw [connectedPorts, List.map_map]
    exact hnames.sublist hsub
  · refine (List.pairwise_map.mp nl.cells.nodup_ids).imp fun hne => ?_
    refine List.disjoint_left.mpr fun r hr hr' => hne ?_
    obtain ⟨p, -, rfl⟩ := List.mem_map.mp hr
    obtain ⟨q, -, hq⟩ := List.mem_map.mp hr'
    exact (congrArg PortRef.cell hq).symm

/-- If nothing is connected or live that was not, the weight goes down by the ports
that are cut off and the cells that are gone. -/
theorem weight_le (cut : List PortRef) (gone : List CellId) (hw : nl.WellFormed)
    (hw' : nl'.WellFormed) (hwire : ∀ r, (nl'.wire r).isSome → (nl.wire r).isSome)
    (hbare : ∀ id, (nl'.bare id).isSome → (nl.bare id).isSome) (hcut : cut.Nodup)
    (hoff : ∀ r ∈ cut, (nl.wire r).isSome ∧ nl'.wire r = none) (hgone : gone.Nodup)
    (hdead : ∀ id ∈ gone, (nl.bare id).isSome ∧ nl'.bare id = none) :
    weight nl' + cut.length + gone.length ≤ weight nl := by
  have hports : (connected nl' ++ cut).length ≤ (connected nl).length := by
    refine (List.Nodup.subperm ?_ fun r hr => ?_).length_le
    · refine List.nodup_append'.mpr ⟨nodup_connected hw', hcut, List.disjoint_left.mpr ?_⟩
      intro r hr hrcut
      rw [mem_connected hw', (hoff r hrcut).2] at hr
      cases hr
    · rw [mem_connected hw]
      rcases List.mem_append.mp hr with hr | hr
      · exact hwire r ((mem_connected hw').mp hr)
      · exact (hoff r hr).1
  have hcells : (nl'.cellIds ++ gone).length ≤ nl.cellIds.length := by
    refine (List.Nodup.subperm ?_ fun id hid => ?_).length_le
    · refine List.nodup_append'.mpr ⟨nl'.cells.nodup_ids, hgone, List.disjoint_left.mpr ?_⟩
      intro id hid hidgone
      rw [mem_cellIds, (hdead id hidgone).2] at hid
      cases hid
    · rw [mem_cellIds]
      rcases List.mem_append.mp hid with hid | hid
      · exact hbare id (mem_cellIds.mp hid)
      · exact (hdead id hid).1
  rw [List.length_append] at hports hcells
  rw [weight_eq, weight_eq]
  omega

/-- A refinement connects no port that was not connected. -/
theorem Refines.wire_isSome (h : Refines options [] nl nl') (hr : (nl'.wire r).isSome) :
    (nl.wire r).isSome := by
  obtain ⟨k, hk⟩ := Option.isSome_iff_exists.mp hr
  cases hwire : nl.wire r with
  | some k => rfl
  | none =>
    have hd : nl.dir r = some .output := by
      by_contra hd
      rw [h.unconnected r List.not_mem_nil hd hwire] at hk
      cases hk
    have hout := h.output hk ((h.dir (bare_isSome_of_wire hk)).trans hd)
    rw [hwire] at hout
    cases hout.1

theorem Refines.weight_le (h : Refines options [] nl nl') (hw : nl.WellFormed)
    {cut : List PortRef} (hcut : cut.Nodup)
    (hoff : ∀ r ∈ cut, (nl.wire r).isSome ∧ nl'.wire r = none) :
    weight nl' + cut.length ≤ weight nl := by
  have hbare : ∀ id, (nl'.bare id).isSome → (nl.bare id).isSome := by
    intro id hid
    obtain ⟨c', hc'⟩ := Option.isSome_iff_exists.mp hid
    obtain ⟨c, hc, -⟩ := h.cells id c' hc'
    simp [hc]
  exact Normalize.weight_le cut [] hw h.wellFormed (fun _ => h.wire_isSome) hbare hcut hoff
    List.nodup_nil nofun

/-! ## Progress -/

/-- A step that counts `n` changes lowers the weight by `n`, and it changes nothing
if it counts nothing and queues nothing. -/
structure Progress (n : Nat) (nl nl' : Netlist) : Prop where
  weight : weight nl' + n ≤ weight nl
  fixed : n = 0 → (∀ id, nl'.isMarked id = false) → nl' = nl

namespace Progress

theorem refl (nl : Netlist) : Progress 0 nl nl := ⟨Nat.le_refl _, fun _ _ => rfl⟩

theorem trans (h : Progress m nl nl') (h' : Progress n nl' nl'') : Progress (m + n) nl nl'' where
  weight := by
    have hfirst := h.weight
    have hsecond := h'.weight
    omega
  fixed hzero hunmarked := by
    obtain ⟨hm, hn⟩ := Nat.add_eq_zero_iff.mp hzero
    obtain rfl := h'.fixed hn hunmarked
    exact h.fixed hm hunmarked

/-- A step that takes ports of one cell off their nets and counts them. -/
theorem of_cut (id : CellId) {ports : List (Ident × NetId)} (h : Refines options [] nl nl')
    (hw : nl.WellFormed)
    (hnodup : (ports.map (·.1)).Nodup)
    (hbefore : ∀ p ∈ ports, nl.wire ⟨id, p.1⟩ = some p.2)
    (hafter : ∀ p ∈ ports, nl'.wire ⟨id, p.1⟩ = none)
    (hfixed : ports = [] → (∀ id, nl'.isMarked id = false) → nl' = nl) :
    Progress ports.length nl nl' where
  weight := by
    have hcut : (ports.map fun p => (⟨id, p.1⟩ : PortRef)).Nodup := by
      refine List.Nodup.of_map PortRef.port ?_
      rw [List.map_map]
      exact hnodup
    have hlower := h.weight_le hw hcut fun r hr => by
      obtain ⟨p, hp, rfl⟩ := List.mem_map.mp hr
      exact ⟨by simp [hbefore p hp], hafter p hp⟩
    rwa [List.length_map] at hlower
  fixed hzero := hfixed (List.length_eq_zero_iff.mp hzero)

end Progress

/-- The step adds the number of its changes to the count that it is given. -/
def Counts {α : Type} (f : Nat → α → Edit Nat) : Prop :=
  ∀ names count a nl count' nl', nl.WellFormed → f count a names nl = .ok count' nl' →
    nl'.WellFormed ∧ ∃ n, count' = count + n ∧ Progress n nl nl'

namespace Counts

variable {α : Type} {f : Nat → α → Edit Nat} {count count' : Nat} {l : List α}

theorem foldlM (hf : Counts f) (hw : nl.WellFormed)
    (h : l.foldlM f count names nl = .ok count' nl') :
    nl'.WellFormed ∧ ∃ n, count' = count + n ∧ Progress n nl nl' := by
  refine Edit.foldlM_ok (fun _ total x => x.WellFormed ∧ ∃ n, total = count + n ∧ Progress n nl x)
    ?_ ⟨hw, 0, rfl, .refl nl⟩ h
  rintro a rest _ x total' x' ⟨hwx, m, rfl, hprogress⟩ hstep
  obtain ⟨hw', n, rfl, hmore⟩ := hf names _ a x total' x' hwx hstep
  exact ⟨hw', m + n, Nat.add_assoc count m n, hprogress.trans hmore⟩

/-- In a loop that counts nothing and queues nothing, no step changes anything. -/
theorem idle_of_foldlM (hf : Counts f) (hw : nl.WellFormed)
    (h : l.foldlM f count names nl = .ok count nl') (hunmarked : ∀ id, nl'.isMarked id = false) :
    ∀ a ∈ l, f count a names nl = .ok count nl := by
  induction l generalizing nl with
  | nil => exact nofun
  | cons a l ih =>
    rw [List.foldlM_cons] at h
    obtain ⟨mid, nl₁, hhead, hrest⟩ := Edit.bind_ok.mp h
    obtain ⟨hw₁, m, hm, hfirst⟩ := hf names count a nl mid nl₁ hw hhead
    obtain ⟨-, n, hn, hlater⟩ := hf.foldlM hw₁ hrest
    obtain rfl : mid = count := by omega
    obtain rfl : nl' = nl₁ := hlater.fixed (by omega) hunmarked
    obtain rfl : nl' = nl := hfirst.fixed (by omega) hunmarked
    intro x hx
    rcases List.mem_cons.mp hx with rfl | hx
    · exact hhead
    · exact ih hw hrest x hx

/-- What a pass that goes through all live cells has counted. -/
theorem pass {f : Nat → CellId → Edit Nat} (hf : Counts f) (hw : nl.WellFormed)
    (h : (do (← get).cellIds.foldlM f 0 : Edit Nat) names nl = .ok n nl') :
    Progress n nl nl' ∧ (n = 0 → (∀ id, nl'.isMarked id = false) →
      ∀ id c, nl.cell? id = some c → f 0 id names nl = .ok 0 nl) := by
  obtain ⟨_, _, hget, hloop⟩ := Edit.bind_ok.mp h
  obtain ⟨rfl, rfl⟩ := Edit.get_ok.mp hget
  refine ⟨?_, fun hzero hunmarked id c hc => ?_⟩
  · obtain ⟨-, m, rfl, hprogress⟩ := hf.foldlM hw hloop
    rw [Nat.zero_add]
    exact hprogress
  · subst hzero
    have hlisted : id ∈ nl.cellIds := by
      rw [mem_cellIds, bare_isSome, hc]
      rfl
    exact hf.idle_of_foldlM hw hloop hunmarked id hlisted

end Counts

end Normalize
end FpgaPacking
