import FpgaPacking.Proofs.Chain.Discovered
import FpgaPacking.Proofs.Chain.Progress
import FpgaPacking.Proofs.Cluster.Verified

/-!
# Chain packing does not get stuck

The chains that are found are linked, and packing one of them moves no port of
another and puts no cell of another into a cluster.  So on a complete fabric each
can be packed in its turn.  The cells of its segments are in no cluster then:
those of the chain because they are eligible, the others because they are new.
The positions in a segment are coordinates as long as the handles of all cells
are, since the members of a segment are different cells.
-/

namespace FpgaPacking
namespace Chain

open Netlist

variable {f : Fabric} {nl nl' : Netlist} {s s' : Session} {chain : List CellId}
  {chains : List (List CellId)} {segments : List Segment} {moved : List PortRef} {bound : Nat}

/-! ## Handles -/

section Handles

variable {α β : Type} {x : Packing α} {g : α → Packing β} {a : α}

/-- Where the run ends, be it regular or by a failure, the handles of all cells are below the bound. -/
def HandlesBelow (bound : Nat) (x : Packing α) (s : Session) : Prop :=
  ∀ id, ((finalState (x s)).netlist.cell? id).isSome → id.index < bound

namespace HandlesBelow

theorem of_ids (h : ∀ id ∈ (finalState (x s)).netlist.cellIds, id.index < bound) :
    HandlesBelow bound x s := by
  intro id hid
  obtain ⟨c, hc⟩ := Option.isSome_iff_exists.mp hid
  exact h id (List.mem_map.mpr ⟨(id, c), (Arena.mem_entries _ id c).mpr hc, rfl⟩)

/-- No step of the run removes a cell, so the bound holds at its start. -/
theorem start (h : HandlesBelow bound x s)
    (hx : ∀ id, Packing.Keeps (fun nl => (nl.cell? id).isSome) x) {id : CellId}
    (hid : (s.netlist.cell? id).isSome) : id.index < bound :=
  h id (hx id s hid)

theorem first (h : HandlesBelow bound (x >>= g) s)
    (hg : ∀ id a, Packing.Keeps (fun nl => (nl.cell? id).isSome) (g a)) : HandlesBelow bound x s :=
  fun id hid => h id (Invariant.finalState_bind (hg id) hid)

theorem rest (h : HandlesBelow bound (x >>= g) s) (hx : x s = .ok a s') :
    HandlesBelow bound (g a) s' := by
  intro id hid
  refine h id ?_
  rw [finalState_bind_of_ok hx]
  exact hid

end HandlesBelow

theorem keeps_live_constrain (id : CellId) (slotsPerTile : Nat) (segments : List Segment) :
    Packing.Keeps (fun nl => (nl.cell? id).isSome)
      (segments.forM fun t => Cluster.constrainSegment t.members slotsPerTile : Packing PUnit) := by
  refine Packing.Keeps.forM (fun t => ?_) segments
  exact .edit (Cluster.keeps_constrainSegment_of (Cluster.keeps_live_build id) t.members slotsPerTile)

theorem keeps_live_packChain (id : CellId) (f : Fabric) (chain : List CellId) :
    Packing.Keeps (fun nl => (nl.cell? id).isSome) (Pack.packChain f chain) :=
  ((Cluster.routing_live id).splicing f).keeps_packChain (Cluster.keeps_live_build id) chain

end Handles

theorem length_le_of_index_lt {l : List CellId} (hnodup : l.Nodup) (h : ∀ id ∈ l, id.index < bound) :
    l.length ≤ bound := by
  have hinjective : Function.Injective (Id.index (k := .cell)) := fun ⟨_⟩ ⟨_⟩ h => congrArg Id.mk h
  have hsubset : l.map (·.index) ⊆ List.range bound := by
    intro i hi
    obtain ⟨id, hid, rfl⟩ := List.mem_map.mp hi
    exact List.mem_range.mpr (h id hid)
  have hle := ((hnodup.map hinjective).subperm hsubset).length_le
  simpa using hle

/-! ## One chain -/

/-- A cluster can be built of every segment if no cell is in two of them. -/
theorem returns_constrain {slotsPerTile : Nat} (hslots : slotsPerTile ≠ 0)
    (hne : ∀ t ∈ segments, t.members ≠ [])
    (hlength : ∀ t ∈ segments, t.members.length ≤ 0x80000000)
    (hfree : ∀ id ∈ segments.flatMap (·.members), Cluster.Free s.netlist.membership id)
    (hnodup : (segments.flatMap (·.members)).Nodup) :
    Returns (segments.forM fun t => Cluster.constrainSegment t.members slotsPerTile :
      Packing PUnit) s := by
  induction segments generalizing s with
  | nil => exact .pure _ _
  | cons t segments ih =>
    rw [List.flatMap_cons] at hfree hnodup
    obtain ⟨hnet, hne⟩ := List.forall_mem_cons.mp hne
    obtain ⟨hlengtht, hlength⟩ := List.forall_mem_cons.mp hlength
    obtain ⟨hnodupt, hnodup, hdisjoint⟩ := List.nodup_append'.mp hnodup
    obtain ⟨nl, hrun⟩ := Cluster.constrainSegment_run hslots hlengtht
      (fun id hid => hfree id (List.mem_append_left _ hid)) hnodupt
    refine Returns.bind (Packing.returns_edit (.of_ok hrun)) fun u s₁ hfirst => ?_
    obtain ⟨nl₁, hrun, rfl⟩ := Packing.edit_ok.mp hfirst
    obtain ⟨-, helsewhere⟩ := Cluster.constrainSegment_ok hnet hrun
    refine ih hne hlength (fun id hid => ?_) hnodup
    obtain ⟨m, hm, hroot⟩ := hfree id (List.mem_append_right _ hid)
    exact ⟨m, (helsewhere id fun hmem => hdisjoint hmem hid).trans hm, hroot⟩

/-- A linked chain of cells that are in no cluster. -/
structure Ready (f : Fabric) (nl : Netlist) (chain : List CellId) : Prop
    extends Intact f nl chain where
  free : ∀ c ∈ chain, Cluster.Free nl.membership c

/-- What legalization puts into segments is in no cluster. -/
theorem Ready.free_of_legalize (hf : f.Complete) (hw : s.netlist.WellFormed)
    (h : Ready f s.netlist chain) (hrun : legalize f chain s = .ok segments s') :
    (segments.flatMap (·.members)).Nodup ∧ (∀ t ∈ segments, t.members ≠ []) ∧
      ∀ id ∈ segments.flatMap (·.members), Cluster.Free s'.netlist.membership id := by
  obtain ⟨moved, ids, hcarried⟩ := legalize_ok hf.declared hw h.cells h.nodup hrun
  obtain ⟨hflat, hne⟩ := hcarried.members rfl
  have hadded : Added s.netlist chain (segments.flatMap (·.members)) := by
    rw [hflat]
    simpa [Segment.empty] using hcarried.added
  refine ⟨hadded.nodup, hne, fun id hid => ?_⟩
  obtain ⟨t, ht, hmem⟩ := List.mem_flatMap.mp hid
  have hlive := (hcarried.completed rfl t ht).live id hmem
  rcases grown_of_legalize hrun id with hsame | ⟨-, hnew⟩
  · by_cases hold : (s.netlist.bare id).isSome
    · obtain ⟨m, hm, hroot⟩ := h.free id ((hadded.mem_iff hold).mp hid)
      exact ⟨m, hsame.trans hm, hroot⟩
    · rw [bare_isSome, ← membership_isSome] at hold hlive
      rw [hsame] at hlive
      exact absurd hlive hold
  · exact ⟨.none, hnew, rfl⟩

theorem returns_packChain (hf : f.Complete) (hw : s.netlist.WellFormed)
    (h : Ready f s.netlist chain) (hbound : HandlesBelow 0x80000000 (Pack.packChain f chain) s) :
    Returns (Pack.packChain f chain) s := by
  unfold Pack.packChain at hbound ⊢
  have hcells : ∀ c ∈ chain, Linkable f s.netlist c := fun c hc => (h.cells c hc).linkable
  refine (returns_legalize hf hw hcells h.linked).bind fun segments s₁ hlegalize => ?_
  obtain ⟨hnodup, hne, hfree⟩ := h.free_of_legalize hf hw hlegalize
  have hsmall : ∀ id ∈ segments.flatMap (·.members), id.index < 0x80000000 := by
    intro id hid
    obtain ⟨m, hm, -⟩ := hfree id hid
    refine (hbound.rest hlegalize).start (fun id => ?_) (membership_isSome ▸ by simp [hm])
    exact .bind (keeps_live_constrain id f.slotsPerTile segments) fun _ => .pure _
  refine (returns_constrain hf.slots hne (fun t ht => ?_) hfree hnodup).bind fun _ _ _ => .pure _ _
  refine length_le_of_index_lt (List.nodup_flatMap.mp hnodup |>.1 t ht) fun id hid => ?_
  exact hsmall id (List.mem_flatMap.mpr ⟨t, ht, hid⟩)

/-! ## All chains -/

/-- Packing another chain leaves a chain as it is. -/
theorem Ready.packed {other : List CellId} (h : Ready f nl other) (hdisjoint : List.Disjoint chain other)
    (hpacked : Packed f nl nl' [chain] moved segments) : Ready f nl' other where
  toIntact := h.toIntact.edited hpacked.edited fun c hc port hm => by
    obtain ⟨mine, hmine, hmovable⟩ := hpacked.movable _ hm
    rw [List.mem_singleton.mp hmine] at hmovable
    exact hdisjoint (hmovable.cell.resolve_right nofun) hc
  free c hc := by
    obtain ⟨m, hm, hroot⟩ := h.free c hc
    refine ⟨m, (hpacked.elsewhere c (by simp [hm]) fun hmem => ?_).trans hm, hroot⟩
    have hmine := (hpacked.added.mem_iff (h.cells c hc).live).mp hmem
    exact hdisjoint (by simpa using hmine) hc

theorem returns_packEach (hf : f.Complete) (hw : s.netlist.WellFormed)
    (hready : ∀ chain ∈ chains, Ready f s.netlist chain) (hdisjoint : chains.Pairwise List.Disjoint)
    (hbound : HandlesBelow 0x80000000 (chains.mapM (Pack.packChain f)) s) :
    Returns (chains.mapM (Pack.packChain f)) s := by
  induction chains generalizing s with
  | nil => exact .pure _ _
  | cons chain chains ih =>
    rw [List.mapM_cons] at hbound ⊢
    obtain ⟨hfirst, hready⟩ := List.forall_mem_cons.mp hready
    obtain ⟨hdisjointfirst, hdisjoint⟩ := List.pairwise_cons.mp hdisjoint
    have hkeeps : ∀ id (later : List (List CellId)), Packing.Keeps (fun nl => (nl.cell? id).isSome)
        (later.mapM (Pack.packChain f)) := fun id later => .mapM (keeps_live_packChain id f) later
    refine (returns_packChain hf hw hfirst (hbound.first fun id _ =>
      .bind (hkeeps id chains) fun _ => .pure _)).bind fun made s₁ hrun => ?_
    obtain ⟨moved, hpacked⟩ := packChain_ok hf.declared hw hfirst.cells hfirst.nodup hrun
    refine Returns.bind (ih hpacked.edited.wellFormed (fun other hother => ?_) hdisjoint
      ((hbound.rest hrun).first fun _ _ => .pure _)) fun _ _ _ => .pure _ _
    exact (hready other hother).packed (hdisjointfirst other hother) hpacked

/-- What is found can be packed. -/
theorem Directed.ready (h : Directed f nl) (hchain : chain ∈ foundChains f nl) : Ready f nl chain where
  toIntact := h.intact (fun _ => isChainCell_of_isEligible) hchain
  free c hc := (satisfies_isEligible.mp ((foundChains_spec.1 chain hchain).2 c hc)).2

theorem returns_packChains (hf : f.Complete) (hs : Directed f s.netlist)
    (hbound : HandlesBelow 0x80000000 (packChains f) s) : Returns (packChains f) s := by
  obtain ⟨s₁, hdiscover, hsame⟩ := exists_discover (Pack.navigation f)
  unfold packChains at hbound ⊢
  have hfound := (hbound.rest hdiscover).first fun _ _ => .pure _
  refine (Returns.of_ok hdiscover).bind fun chains s₂ hagain => ?_
  have hboth := hdiscover.symm.trans hagain
  cases hboth
  refine Returns.bind (returns_packEach hf (hsame ▸ hs.wellFormed) (fun chain hchain => ?_) ?_ hfound)
    fun _ _ _ => .pure _ _
  · rw [hsame]
    exact hs.ready hchain
  · exact foundChains_spec.2

/-- Chain packing with a validated configuration that has all boundary cells and does not limit
segments to fewer than three cells succeeds.  Every eligible cell with a chain that is long enough
is in exactly one segment, and the segments are disjoint clusters that fill their tiles in order. -/
theorem packChains_total {config : Config} {names names' : Names} (hvalid : config.validate = .ok ())
    (hf : Fabric.ofConfig config names = (.ok f, names')) (hfeed : config.boundary.feedIn.isSome)
    (hthrough : config.boundary.passThrough.isSome) (hout : config.boundary.passOut.isSome)
    (hlimit : ∀ chain limit, config.chain = some chain → chain.maxChainLength = some limit →
      3 ≤ limit)
    (hs : Directed f s.netlist) (hclusters : Cluster.Consistent s.netlist.membership)
    (hbound : HandlesBelow 0x80000000 (packChains f) s) :
    ∃ segments s', packChains f s = .ok segments s' ∧
      (∀ x, Satisfies s.netlist (Pack.isEligible f) x →
        (f.minLength : ENat) ≤
          (Component (Leads s.netlist f.chainIn f.chainOut (Pack.isEligible f)) x).encard →
        ∃! t, t ∈ segments ∧ x ∈ t.members) ∧
      segments.Pairwise (fun t u => t.members.Disjoint u.members) ∧
      ∀ t ∈ segments, Cluster.Fills s'.netlist.membership f.slotsPerTile t.members ∧
        ∀ root, t.members.head? = some root → Cluster.check s'.netlist root = .ok () := by
  have hcomplete := Fabric.complete_of_config hvalid hf hfeed hthrough hout hlimit
  obtain ⟨segments, s', hrun⟩ := returns_packChains hcomplete hs hbound
  obtain ⟨moved, hpacked⟩ := packed_of_packChains hcomplete.declared hs hrun
  have hdisjoint := (List.nodup_flatMap.mp hpacked.added.nodup).2
  have hconsistent : Cluster.Consistent s'.netlist.membership := by
    have hI := Cluster.structural_consistent
    have hend := (hI.splicing f).keeps_packChains hI.keeps_build s hclusters
    rw [hrun] at hend
    exact hend
  refine ⟨segments, s', hrun, fun x hx hlong => ?_, hdisjoint, fun t ht => ?_⟩
  · obtain ⟨chain, ⟨hchain, hmem⟩, -⟩ := hs.exact.complete x hx hlong
    have hin := (hpacked.added.mem_iff (hs.foundCell hchain hmem).live).mpr
      (List.mem_flatten.mpr ⟨chain, hchain, hmem⟩)
    obtain ⟨t, ht, hxt⟩ := List.mem_flatMap.mp hin
    refine ⟨t, ⟨ht, hxt⟩, ?_⟩
    rintro u ⟨hu, hxu⟩
    by_contra hne
    have : Std.Symm (fun t u : Segment => t.members.Disjoint u.members) :=
      ⟨fun _ _ => List.Disjoint.symm⟩
    exact hdisjoint.forall hu ht hne hxu hxt
  · have hfills := hpacked.fills t ht
    refine ⟨hfills, fun root hroot => Cluster.check_ok_iff.mpr ?_⟩
    obtain ⟨m, hm, hown, -⟩ := hfills.clustered (List.mem_of_head? hroot)
    exact hconsistent.clusters root root ⟨m, hm, hown.trans hroot⟩

/-- The two carry cells and their boundary cells fill the first five slots of a tile. -/
theorem adder_total : ∃ s', packChains Adder.fabric Adder.session =
      .ok [⟨[⟨4⟩, ⟨1⟩, ⟨5⟩, ⟨2⟩, ⟨6⟩], 2⟩] s' ∧
    Cluster.Fills s'.netlist.membership 8 [⟨4⟩, ⟨1⟩, ⟨5⟩, ⟨2⟩, ⟨6⟩] ∧
    Cluster.check s'.netlist ⟨4⟩ = .ok () := by
  have hlimit : ∀ chain limit, Adder.config.chain = some chain →
      chain.maxChainLength = some limit → 3 ≤ limit := by
    rintro _ _ ⟨⟩ ⟨⟩
  have hclusters : Cluster.Consistent Adder.session.netlist.membership :=
    Cluster.structural_consistent.after (s := Session.start Adder.names) Cluster.consistent_empty _
  obtain ⟨segments, s', hrun, -, -, hsegments⟩ := packChains_total rfl Adder.ofConfig_config rfl rfl
    rfl hlimit Adder.packable.directed hclusters (.of_ids (by decide +kernel))
  obtain ⟨s'', hpacks⟩ := Adder.packs
  have hboth := hrun.symm.trans hpacks
  cases hboth
  obtain ⟨hfills, hcheck⟩ := hsegments _ (List.mem_singleton_self _)
  exact ⟨s', hrun, hfills, hcheck _ rfl⟩

end Chain
end FpgaPacking
