import FpgaPacking.Proofs.Chain.Found
import FpgaPacking.Proofs.Chain.Segments
import FpgaPacking.Proofs.Cluster.Filling

/-!
# Packing all chains

Every chain is planned on the netlist that the chains before it have left behind,
and it moves ports of its own cells only.  Chains share no cells, so the segments
of earlier chains stay sound while later ones are cut.  Clusters change nothing
that segments or signals depend on, and what is clustered once stays in its place.
-/

namespace FpgaPacking
namespace Chain

open Netlist

variable {f : Fabric} {nl nl₁ nl' : Netlist} {s s' : Session} {chain : List CellId}
  {segments : List Segment}

/-! ## Steps that leave the wiring alone -/

/-- Only clusters, names and the log differ. -/
def Unmoved (f : Fabric) (nl nl' : Netlist) : Prop := Edited [] nl nl' ∧ SameOrigins f nl nl'

theorem Unmoved.refl (hw : nl.WellFormed) : Unmoved f nl nl := ⟨.refl hw, .refl⟩

/-- Writing a cluster descriptor moves nothing. -/
theorem keeps_unmoved_cluster (id : CellId) (m : Membership) :
    Edit.Keeps (Unmoved f nl) (Edit.updateCell id fun c => { c with cluster := m }) := by
  intro names nl₁ ⟨he, ho⟩
  cases hrun : Edit.updateCell id (fun c => { c with cluster := m }) names nl₁ with
  | error e nl₂ =>
    rcases Edit.updateCell_cases names with ⟨e', hcase⟩ | ⟨c, -, hcase⟩
    · rw [hcase] at hrun
      cases hrun
      exact ⟨he, ho⟩
    · rw [hcase] at hrun
      cases hrun
  | ok u nl₂ =>
    obtain ⟨hw, hwire, htag, c, hc, hbare⟩ := Edit.updateCell_ok he.wellFormed hrun fun _ => rfl
    have hself : nl₁.bare id = some c.unwired := bare_of_cell? hc
    have hstep : Edited [] nl₁ nl₂ :=
      { wellFormed := hw
        cells := fun other d hd => by
          by_cases hother : other = id
          · subst hother
            obtain rfl := Option.some.inj (hself.symm.trans hd)
            exact ⟨m, by rw [hbare, Function.update_self]; rfl⟩
          · exact ⟨d.cluster, by rw [hbare, Function.update_of_ne hother]; exact hd⟩
        created := fun other d hnone hsome => by
          have hother : other ≠ id := by
            rintro rfl
            rw [hself] at hnone
            cases hnone
          rw [hbare, Function.update_of_ne hother, hnone] at hsome
          cases hsome
        nets := fun k t ht => htag ▸ ht
        still := fun r _ _ => congrFun hwire r
        moved_from := nofun
        moved_to := nofun
        replaced := fun r k hnone hr _ => by
          rw [hwire, wire_eq_none_of_bare hnone] at hr
          cases hr
        refilled := nofun
        order := (Edit.keeps_order_updateCell _).of_ok hrun .refl }
    have hsame : SameOrigins f nl₁ nl₂ := by
      refine .of_edited he.wellFormed hstep nofun nofun nofun fun k hnone hsome => ?_
      rw [htag, hnone] at hsome
      cases hsome
    exact ⟨he.trans hstep nofun, ho.trans hsame he⟩

theorem unmoved_of_constrain (hw : s.netlist.WellFormed) {u : PUnit}
    (h : (segments.forM fun t => Cluster.constrainSegment t.members f.slotsPerTile : Packing PUnit) s =
      .ok u s') : Unmoved f s.netlist s'.netlist := by
  have hkeeps : Packing.Keeps (Unmoved f s.netlist) (segments.forM fun t =>
      Cluster.constrainSegment t.members f.slotsPerTile) :=
    .forM (fun t => .edit (Cluster.keeps_constrainSegment_of
      (Cluster.keeps_build_of keeps_unmoved_cluster) _ _)) segments
  have hend := hkeeps s (.refl hw)
  rw [h] at hend
  exact hend

/-! ## Clusters -/

/-- What is clustered stays in its place. -/
def KeepsClusters (nl nl' : Netlist) : Prop :=
  ∀ id m, m.root.isSome → nl.membership id = some m → nl'.membership id = some m

theorem keeps_clusters {α : Type} {x : Packing α} (hx : ∀ {I : Netlist → Prop}, Structural I →
    Packing.Keeps I x) {a : α} (h : x s = .ok a s') : KeepsClusters s.netlist s'.netlist := by
  intro id m hm hid
  have hend := hx (Cluster.structural_member hm) s hid
  rw [h] at hend
  exact hend

/-- Legalization puts no cell into a cluster. -/
theorem grown_of_legalize (h : legalize f chain s = .ok segments s') :
    Cluster.Grown s.netlist.membership s'.netlist.membership := by
  have hend := (Cluster.routing_grown.splicing f).keeps_legalize chain s fun _ => Or.inl rfl
  rw [h] at hend
  exact hend

/-- The segments of a chain get their clusters, and nothing else changes. -/
theorem filled_of_constrain {slotsPerTile : Nat} {u : PUnit} (hne : ∀ t ∈ segments, t.members ≠ [])
    (h : (segments.forM fun t => Cluster.constrainSegment t.members slotsPerTile : Packing PUnit) s =
      .ok u s') :
    (∀ t ∈ segments, Cluster.Fills s'.netlist.membership slotsPerTile t.members) ∧
      ∀ id ∉ segments.flatMap (·.members), s'.netlist.membership id = s.netlist.membership id := by
  induction segments generalizing s with
  | nil =>
    obtain ⟨-, rfl⟩ := pure_ok.mp h
    exact ⟨nofun, fun _ _ => rfl⟩
  | cons t segments ih =>
    obtain ⟨hnet, hne⟩ := List.forall_mem_cons.mp hne
    obtain ⟨u₁, s₁, hfirst, h⟩ := bind_ok.mp h
    obtain ⟨hlater, hothers⟩ := ih hne h
    have hkept : KeepsClusters s₁.netlist s'.netlist :=
      keeps_clusters (fun hI => .forM (fun t => .edit
        (Cluster.keeps_constrainSegment_of hI.keeps_build t.members slotsPerTile)) segments) h
    obtain ⟨nl₁, hrun, rfl⟩ := Packing.edit_ok.mp hfirst
    obtain ⟨hfills, helsewhere⟩ := Cluster.constrainSegment_ok hnet hrun
    refine ⟨List.forall_mem_cons.mpr ⟨hfills.kept hkept, hlater⟩, fun id hid => ?_⟩
    rw [List.flatMap_cons, List.mem_append, not_or] at hid
    exact (hothers id hid.2).trans (helsewhere id hid.1)

/-! ## One chain -/

theorem netlist_of_keeps {α : Type} {x : Packing α} {a : α}
    (hx : Packing.Keeps (fun nl => nl = s.netlist) x) (h : x s = .ok a s') :
    s'.netlist = s.netlist := by
  have hend := hx s rfl
  rw [h] at hend
  exact hend

theorem plan_of_prepare {steps : List Step} (h : prepare f chain s = .ok steps s') :
    checkLinks s.netlist f chain = .ok () ∧ (plan s.netlist f chain).outcome = .ok steps ∧
      s'.netlist = s.netlist := by
  have hsame : s'.netlist = s.netlist := netlist_of_keeps (keeps_prepare f chain) h
  unfold prepare at h
  obtain ⟨nl, s₁, hnl, h⟩ := bind_ok.mp h
  obtain ⟨u, s₂, hlinks, h⟩ := bind_ok.mp h
  obtain ⟨u', s₃, hwarnings, h⟩ := bind_ok.mp h
  obtain ⟨steps', s₄, houtcome, h⟩ := bind_ok.mp h
  obtain ⟨u'', s₅, htemplates, h⟩ := bind_ok.mp h
  obtain ⟨rfl, rfl⟩ := pure_ok.mp h
  obtain ⟨rfl, rfl⟩ := Packing.netlist_ok.mp hnl
  exact ⟨(Packing.check_ok.mp hlinks).1, (Packing.check_ok.mp houtcome).1, hsame⟩

theorem prepare_ok (hw : s.netlist.WellFormed) {steps : List Step}
    (hcells : ∀ c ∈ chain, Linkable f s.netlist c) (h : prepare f chain s = .ok steps s') :
    s'.netlist = s.netlist ∧ Layout f s.netlist none chain steps := by
  obtain ⟨hlinks, houtcome, hsame⟩ := plan_of_prepare h
  exact ⟨hsame, layout_of_scan hw houtcome nofun hcells (isChain_of_checkLinks hlinks) nofun⟩

/-- A run of legalization carries out what it has prepared. -/
theorem carryOut_of_legalize (h : legalize f chain s = .ok segments s') :
    ∃ steps s₁ s₂, prepare f chain s = .ok steps s₁ ∧ carryOut f .empty steps s₁ = .ok segments s₂ ∧
      s'.netlist = s₂.netlist := by
  unfold legalize at h
  obtain ⟨steps, s₁, hprepare, h⟩ := bind_ok.mp h
  obtain ⟨segments', s₂, hcarry, h⟩ := bind_ok.mp h
  cases hhead : chain.head? with
  | none =>
    rw [hhead] at h
    obtain ⟨rfl, rfl⟩ := pure_ok.mp h
    exact ⟨steps, s₁, _, hprepare, hcarry, rfl⟩
  | some head =>
    rw [hhead] at h
    obtain ⟨c, s₃, hcell, h⟩ := bind_ok.mp h
    obtain ⟨u, s₄, hnote, h⟩ := bind_ok.mp h
    obtain ⟨rfl, rfl⟩ := pure_ok.mp h
    have hread : s₃.netlist = s₂.netlist := netlist_of_keeps (.edit (Edit.Keeps.cell head)) hcell
    exact ⟨steps, s₁, s₂, hprepare, hcarry, (netlist_of_keeps (.emit _) hnote).trans hread⟩

/-- A chain of different cells, each of them linked to the next. -/
structure Intact (f : Fabric) (nl : Netlist) (chain : List CellId) : Prop where
  nodup : chain.Nodup
  cells : ∀ c ∈ chain, ChainCell f nl c
  linked : chain.IsChain (Together f nl)

/-- A chain of which no port is moved stays intact. -/
theorem Intact.edited {moved : List PortRef} (h : Intact f nl chain) (he : Edited moved nl nl')
    (haway : ∀ c ∈ chain, ∀ port, (⟨c, port⟩ : PortRef) ∉ moved) : Intact f nl' chain where
  nodup := h.nodup
  cells c hc := (h.cells c hc).edited he
  linked := h.linked.imp_of_mem_imp fun a b ha hb hab =>
    hab.edited he (haway a ha _) (haway b hb _)

/-- A run of legalization is an execution of the chain's plan. -/
theorem execution_of_legalize (hf : f.Declared) (hw : s.netlist.WellFormed)
    (hcells : ∀ c ∈ chain, ChainCell f s.netlist c) (hnodup : chain.Nodup)
    (h : legalize f chain s = .ok segments s') : ∃ steps s₁ s₂,
      (plan s.netlist f chain).outcome = .ok steps ∧ s₁.netlist = s.netlist ∧
      Execution f chain s₁ none chain .empty steps segments s₂ ∧ s'.netlist = s₂.netlist := by
  obtain ⟨steps, s₁, s₂, hprepare, hcarry, hnoted⟩ := carryOut_of_legalize h
  obtain ⟨-, houtcome, -⟩ := plan_of_prepare hprepare
  obtain ⟨hsame, hlayout⟩ := prepare_ok hw (fun c hc => (hcells c hc).linkable) hprepare
  rw [← hsame] at hw hcells hlayout
  exact ⟨steps, s₁, s₂, houtcome, hsame,
    execution_of_carryOut hf steps hw hlayout (.all hcells hnodup) hcarry, hnoted⟩

theorem legalize_ok (hf : f.Declared) (hw : s.netlist.WellFormed)
    (hcells : ∀ c ∈ chain, ChainCell f s.netlist c) (hnodup : chain.Nodup)
    (h : legalize f chain s = .ok segments s') : ∃ moved ids,
    CarriedOut f s.netlist s'.netlist chain none chain .empty segments moved ids := by
  obtain ⟨steps, s₁, s₂, -, hsame, hexecution, hnoted⟩ := execution_of_legalize hf hw hcells hnodup h
  rw [hnoted, ← hsame]
  exact hexecution.carriedOut

/-- What packing some chains one after the other does to a netlist and what it makes. -/
structure Packed (f : Fabric) (nl nl' : Netlist) (chains : List (List CellId))
    (moved : List PortRef) (segments : List Segment) : Prop where
  edited : Edited moved nl nl'
  origins : SameOrigins f nl nl'
  /-- Only chain ports are moved, of cells of the chains. -/
  movable : ∀ r ∈ moved, ∃ chain ∈ chains, Movable f nl none chain r
  sound : ∀ t ∈ segments, ∃ chain ∈ chains, Sound f nl' chain t.members
  added : Added nl chains.flatten (segments.flatMap (·.members))
  /-- The segments are clusters. -/
  fills : ∀ t ∈ segments, Cluster.Fills nl'.membership f.slotsPerTile t.members
  elsewhere : ∀ id, (nl.membership id).isSome → id ∉ segments.flatMap (·.members) →
    nl'.membership id = nl.membership id
  kept : KeepsClusters nl nl'

theorem packChain_ok (hf : f.Declared) (hw : s.netlist.WellFormed)
    (hcells : ∀ c ∈ chain, ChainCell f s.netlist c) (hnodup : chain.Nodup)
    (h : Pack.packChain f chain s = .ok segments s') :
    ∃ moved, Packed f s.netlist s'.netlist [chain] moved segments := by
  have hkept : KeepsClusters s.netlist s'.netlist :=
    keeps_clusters (fun hI => (hI.splicing f).keeps_packChain hI.keeps_build chain) h
  unfold Pack.packChain at h
  obtain ⟨segments', s₁, hlegalize, h⟩ := bind_ok.mp h
  obtain ⟨u, s₂, hconstrain, h⟩ := bind_ok.mp h
  obtain ⟨rfl, rfl⟩ := pure_ok.mp h
  obtain ⟨moved, ids, hcarried⟩ := legalize_ok hf hw hcells hnodup hlegalize
  obtain ⟨he, ho, hmovable, hsound, hadded, -, hmembers⟩ := hcarried
  obtain ⟨hflat, hne⟩ := hmembers rfl
  obtain ⟨he', ho'⟩ := unmoved_of_constrain he.wellFormed hconstrain
  obtain ⟨hfills, helsewhere⟩ := filled_of_constrain hne hconstrain
  refine ⟨moved,
    { edited := by simpa using he.trans he' nofun
      origins := ho.trans ho' he
      movable := fun r hr => ⟨chain, by simp, hmovable r hr⟩
      sound := fun t ht => ⟨chain, by simp, (hsound rfl t ht).edited he.wellFormed he' nofun⟩
      added := ?_
      fills := hfills
      elsewhere := fun id hid hout => ?_
      kept := hkept }⟩
  · rw [hflat]
    simpa [Segment.empty] using hadded
  · refine (helsewhere id hout).trans ((grown_of_legalize hlegalize id).resolve_right ?_)
    rintro ⟨hnone, -⟩
    simp [hnone] at hid

/-! ## All chains -/

/-- The chains after the first one stay away from its segments. -/
theorem Packed.trans {chains : List (List CellId)} {moved moved' : List PortRef}
    {segments' : List Segment} (h : Packed f nl nl₁ [chain] moved segments)
    (h' : Packed f nl₁ nl' chains moved' segments')
    (hcells : ∀ other ∈ chains, ∀ c ∈ other, ChainCell f nl c)
    (hdisjoint : ∀ other ∈ chains, List.Disjoint chain other) :
    Packed f nl nl' (chain :: chains) (moved ++ moved') (segments ++ segments') := by
  have hlater : ∀ r ∈ moved', ∃ other ∈ chains, r.cell ∈ other ∧ Movable f nl₁ none other r := by
    intro r hr
    obtain ⟨other, hother, hmovable⟩ := h'.movable r hr
    exact ⟨other, hother, hmovable.cell.resolve_right nofun, hmovable⟩
  refine
    { edited := h.edited.trans h'.edited fun r hr => ?_
      origins := h.origins.trans h'.origins h.edited
      movable := fun r hr => ?_
      sound := fun t ht => ?_
      added := ?_
      fills := fun t ht => ?_
      elsewhere := fun id hid hout => ?_
      kept := fun id m hm hid => h'.kept id m hm (h.kept id m hm hid) }
  · obtain ⟨other, hother, hmem, -⟩ := hlater r hr
    exact (hcells other hother _ hmem).live
  · rcases List.mem_append.mp hr with hr | hr
    · obtain ⟨c, hc, hmovable⟩ := h.movable r hr
      obtain rfl := List.mem_singleton.mp hc
      exact ⟨c, List.mem_cons_self, hmovable⟩
    · obtain ⟨other, hother, hmem, hmovable⟩ := hlater r hr
      refine ⟨other, List.mem_cons_of_mem _ hother, ?_⟩
      unfold Movable at hmovable ⊢
      rw [h.edited.dir (hcells other hother _ hmem).live] at hmovable
      exact hmovable
  · rcases List.mem_append.mp ht with ht | ht
    · obtain ⟨c, hc, hsound⟩ := h.sound t ht
      obtain rfl := List.mem_singleton.mp hc
      refine ⟨c, List.mem_cons_self, hsound.edited h.edited.wellFormed h'.edited fun r hr hin => ?_⟩
      obtain ⟨other, hother, hmem, -⟩ := hlater r hr
      have hcell := (hcells other hother _ hmem).edited h.edited
      obtain ⟨d, hd, hrole⟩ := hcell.normal
      rcases hsound.within r.cell d hin hd with hchain | hboundary
      · exact hdisjoint other hother hchain hmem
      · exact hboundary hrole
    · obtain ⟨other, hother, hsound⟩ := h'.sound t ht
      exact ⟨other, List.mem_cons_of_mem _ hother, hsound⟩
  · have hfirst : Added nl chain (segments.flatMap (·.members)) := by simpa using h.added
    rw [List.flatten_cons, List.flatMap_append]
    refine hfirst.append h'.added (fun _ => h.edited.bare_isSome) (fun id hid => ?_)
      (fun c hc => ?_) fun c hc hc' => ?_
    · obtain ⟨t, ht, hmem⟩ := List.mem_flatMap.mp hid
      obtain ⟨m, hm, -⟩ := (h.fills t ht).clustered hmem
      rw [bare_isSome, ← membership_isSome, hm]
      rfl
    · obtain ⟨other, hother, hmem⟩ := List.mem_flatten.mp hc
      exact (hcells other hother c hmem).live
    · obtain ⟨other, hother, hmem⟩ := List.mem_flatten.mp hc'
      exact hdisjoint other hother hc hmem
  · rcases List.mem_append.mp ht with ht | ht
    · exact (h.fills t ht).kept h'.kept
    · exact h'.fills t ht
  · rw [List.flatMap_append, List.mem_append, not_or] at hout
    have hsame := h.elsewhere id hid hout.1
    exact (h'.elsewhere id (hsame ▸ hid) hout.2).trans hsame

theorem packEach_ok (hf : f.Declared) {chains : List (List CellId)} {made : List (List Segment)}
    (hw : s.netlist.WellFormed)
    (hchains : ∀ chain ∈ chains, chain.Nodup ∧ ∀ c ∈ chain, ChainCell f s.netlist c)
    (hdisjoint : chains.Pairwise List.Disjoint)
    (h : chains.mapM (Pack.packChain f) s = .ok made s') :
    ∃ moved, Packed f s.netlist s'.netlist chains moved made.flatten := by
  induction chains generalizing s made with
  | nil =>
    obtain ⟨rfl, rfl⟩ := pure_ok.mp h
    exact ⟨[], .refl hw, .refl, nofun, nofun, .nil, nofun, fun _ _ _ => rfl, fun _ _ _ h => h⟩
  | cons chain chains ih =>
    rw [List.mapM_cons] at h
    obtain ⟨first, s₁, hfirst, h⟩ := bind_ok.mp h
    obtain ⟨later, s₂, hlater, h⟩ := bind_ok.mp h
    obtain ⟨rfl, rfl⟩ := pure_ok.mp h
    obtain ⟨hdisjointfirst, hdisjoint⟩ := List.pairwise_cons.mp hdisjoint
    obtain ⟨hnodup, hcells⟩ := hchains chain List.mem_cons_self
    obtain ⟨moved, hpacked⟩ := packChain_ok hf hw hcells hnodup hfirst
    have hrest : ∀ other ∈ chains, other.Nodup ∧ ∀ c ∈ other, ChainCell f s.netlist c :=
      fun other hother => hchains other (List.mem_cons_of_mem chain hother)
    obtain ⟨moved', hpacked'⟩ := ih hpacked.edited.wellFormed
      (fun other hother => ⟨(hrest other hother).1, fun c hc =>
        ((hrest other hother).2 c hc).edited hpacked.edited⟩) hdisjoint hlater
    exact ⟨moved ++ moved', hpacked.trans hpacked' (fun other hother => (hrest other hother).2)
      hdisjointfirst⟩

theorem discover_ok {p : Cell → Bool} {nav : Netlist → Navigation} {minLength : Nat}
    {chains : List (List CellId)} (h : discover p nav minLength s = .ok chains s') :
    s'.netlist = s.netlist ∧ chains = find s.netlist p (nav s.netlist) minLength := by
  unfold discover at h
  obtain ⟨nl, s₁, hnl, h⟩ := bind_ok.mp h
  obtain ⟨u, s₂, hnotes, h⟩ := bind_ok.mp h
  obtain ⟨rfl, rfl⟩ := pure_ok.mp h
  obtain ⟨rfl, rfl⟩ := Packing.netlist_ok.mp hnl
  refine ⟨netlist_of_keeps (.forM (fun chain => ?_) _) hnotes, rfl⟩
  exact .bind (.lookup _) fun d => .emit d

/-- The chain cells read on their chain inputs and drive their chain outputs. -/
structure Directed (f : Fabric) (nl : Netlist) : Prop where
  wellFormed : nl.WellFormed
  chain_in : ∀ id c p, nl.cell? id = some c → f.isChainCell c → c.port? f.chainIn = some p →
    p.direction = .input
  chain_out : ∀ id c p, nl.cell? id = some c → f.isChainCell c → c.port? f.chainOut = some p →
    p.direction = .output

theorem Directed.chainCell (h : Directed f nl) {id : CellId} {c : Cell} (hc : nl.cell? id = some c)
    (hchain : f.isChainCell c) : ChainCell f nl id where
  normal := by
    obtain ⟨hrole, -⟩ := Bool.and_eq_true_iff.mp hchain
    exact ⟨c.unwired, bare_of_cell? hc, of_decide_eq_true hrole⟩
  chainIn hd := by
    obtain ⟨p, hp, hdir⟩ := Option.map_eq_some_iff.mp hd
    have hport : c.port? f.chainIn = some p := by simpa [port?, hc] using hp
    rw [h.chain_in id c p hc hchain hport] at hdir
    cases hdir
  chainOut d hd := by
    obtain ⟨p, hp, rfl⟩ := Option.map_eq_some_iff.mp hd
    have hport : c.port? f.chainOut = some p := by simpa [port?, hc] using hp
    exact h.chain_out id c p hc hchain hport

/-- The chains that packing finds. -/
def foundChains (f : Fabric) (nl : Netlist) : List (List CellId) :=
  find nl (Pack.isEligible f) (Pack.navigation f nl) f.minLength

theorem foundChains_spec : (∀ chain ∈ foundChains f nl,
    chain.Nodup ∧ ∀ id ∈ chain, Satisfies nl (Pack.isEligible f) id) ∧
      (foundChains f nl).Pairwise List.Disjoint :=
  @find_spec nl f.chainIn f.chainOut (Pack.isEligible f) f.minLength

theorem Directed.foundCell (h : Directed f nl) (hchain : chain ∈ foundChains f nl) {id : CellId}
    (hid : id ∈ chain) : ChainCell f nl id := by
  obtain ⟨c, hc, heligible⟩ := (foundChains_spec.1 chain hchain).2 id hid
  exact h.chainCell hc (Bool.and_eq_true_iff.mp heligible).1

/-- A run of chain packing in terms of the chains it finds. -/
theorem packed_of_packChains (hf : f.Declared) (hs : Directed f s.netlist)
    (h : packChains f s = .ok segments s') :
    ∃ moved, Packed f s.netlist s'.netlist (foundChains f s.netlist) moved segments := by
  unfold packChains at h
  obtain ⟨chains, s₁, hdiscover, h⟩ := bind_ok.mp h
  obtain ⟨made, s₂, hpack, h⟩ := bind_ok.mp h
  obtain ⟨rfl, rfl⟩ := pure_ok.mp h
  obtain ⟨hsame, hfound⟩ := discover_ok hdiscover
  obtain rfl : chains = foundChains f s.netlist := hfound
  obtain ⟨hchains, hdisjoint⟩ := @foundChains_spec f s.netlist
  rw [← hsame]
  refine packEach_ok hf (hsame ▸ hs.wellFormed) (fun chain hchain => ?_) (hsame ▸ hdisjoint) ?_
  · rw [hsame] at hchain ⊢
    exact ⟨(hchains chain hchain).1, fun id hid => hs.foundCell hchain hid⟩
  · rw [hsame]
    exact hpack

/-- What chain packing starts from: ordinary cells, among which the chain cells
read on their chain inputs and drive their chain outputs. -/
structure Packable (f : Fabric) (nl : Netlist) : Prop where
  wellFormed : nl.WellFormed
  normal : ∀ id c, nl.cell? id = some c → c.role = .normal
  chain_in : ∀ id c p, nl.cell? id = some c → f.isChainCell c → c.port? f.chainIn = some p →
    p.direction = .input
  chain_out : ∀ id c p, nl.cell? id = some c → f.isChainCell c → c.port? f.chainOut = some p →
    p.direction = .output

theorem Packable.directed (h : Packable f nl) : Directed f nl where
  wellFormed := h.wellFormed
  chain_in := h.chain_in
  chain_out := h.chain_out

/-- Chain packing packs some chains of chain cells. -/
theorem packChains_ok (hf : f.Declared) (hs : Packable f s.netlist)
    (h : packChains f s = .ok segments s') :
    ∃ chains moved, Packed f s.netlist s'.netlist chains moved segments ∧
      ∀ chain ∈ chains, ∀ id ∈ chain, ∃ c, s.netlist.cell? id = some c ∧ f.isChainCell c := by
  obtain ⟨moved, hpacked⟩ := packed_of_packChains hf hs.directed h
  refine ⟨_, moved, hpacked, fun chain hchain id hid => ?_⟩
  obtain ⟨c, hc, heligible⟩ := (foundChains_spec.1 chain hchain).2 id hid
  exact ⟨c, hc, (Bool.and_eq_true_iff.mp heligible).1⟩

/-! ## A chain of two cells -/

/-- Whether the cells of a netlist are `Packable` can be read off their listing. -/
theorem Packable.of_entries (hw : nl.WellFormed)
    (h : ∀ entry ∈ nl.cells.entries, entry.2.role = .normal ∧ (f.isChainCell entry.2 →
      ∀ p ∈ entry.2.ports, (p.name = f.chainIn → p.direction = .input) ∧
        (p.name = f.chainOut → p.direction = .output))) : Packable f nl where
  wellFormed := hw
  normal id c hc := (h (id, c) ((nl.cells.mem_entries id c).mpr hc)).1
  chain_in id c p hc hchain hp :=
    ((h (id, c) ((nl.cells.mem_entries id c).mpr hc)).2 hchain p (Cell.mem_ports_of_port? hp)).1
      (Cell.name_of_port? hp)
  chain_out id c p hc hchain hp :=
    ((h (id, c) ((nl.cells.mem_entries id c).mpr hc)).2 hchain p (Cell.mem_ports_of_port? hp)).2
      (Cell.name_of_port? hp)

namespace Adder

/-- Carry cells with all three kinds of boundary cells. -/
def config : Config where
  chain := some
    { tileCapacity := 2
      maxChainLength := none
      minLength := 1
      chainIn := "CI"
      chainOut := "CO"
      cellTypes := ["CARRY"]
      compatPorts := []
      slotsPerTile := some 8 }
  boundary :=
    { feedIn := some ⟨"FEED", "I", some "O", none, .empty⟩
      passThrough := some ⟨"PASS", "I", some "O", some "F", .empty⟩
      passOut := some ⟨"OUT", "I", none, some "F", .empty⟩ }
  lut := .empty
  normalize := ⟨[], [], []⟩
  rules := .empty

def names : Names where
  entered := #["CI", "CO", "CARRY", "I", "O", "FEED", "F", "PASS", "OUT"]
  nodup := by decide +kernel

def fabric : Fabric where
  family := "CARRY"
  chainIn := ⟨0⟩
  chainOut := ⟨1⟩
  cellTypes := [⟨2⟩]
  tileCapacity := 2
  maxChainLength := Fabric.unlimited
  minLength := 1
  slotsPerTile := 8
  compatPorts := []
  feedIn := some
    { cell := ⟨⟨5⟩, [(⟨3⟩, .input), (⟨4⟩, .output)], .empty⟩
      input := ⟨3⟩
      chainOutput := some ⟨4⟩
      fabricOutput := none }
  passThrough := some
    { cell := ⟨⟨7⟩, [(⟨3⟩, .input), (⟨4⟩, .output), (⟨6⟩, .output)], .empty⟩
      input := ⟨3⟩
      chainOutput := some ⟨4⟩
      fabricOutput := some ⟨6⟩ }
  passOut := some
    { cell := ⟨⟨8⟩, [(⟨3⟩, .input), (⟨6⟩, .output)], .empty⟩
      input := ⟨3⟩
      chainOutput := none
      fabricOutput := some ⟨6⟩ }

theorem ofConfig_config : Fabric.ofConfig config .empty = (.ok fabric, names) := by
  have hfabric : (Fabric.ofConfig config .empty).1.toOption = some fabric := by decide +kernel
  exact Prod.ext (eq_ok_of_toOption hfabric) (by decide +kernel)

/-- Cell 0 drives the chain of the carry cells 1 and 2, whose outputs cell 3 reads. -/
def session : Session := (Session.start names).after [
  .createCell ⟨0⟩ "source", .createCell ⟨2⟩ "low", .createCell ⟨2⟩ "high",
  .createCell ⟨0⟩ "reader", .createNet "x", .createNet "y", .createNet "z",
  .addPort ⟨0⟩ ⟨4⟩ .output,
  .addPort ⟨1⟩ ⟨0⟩ .input, .addPort ⟨1⟩ ⟨1⟩ .output,
  .addPort ⟨2⟩ ⟨0⟩ .input, .addPort ⟨2⟩ ⟨1⟩ .output,
  .addPort ⟨3⟩ ⟨3⟩ .input, .addPort ⟨3⟩ ⟨6⟩ .input,
  .connect ⟨0⟩ ⟨4⟩ ⟨0⟩, .connect ⟨1⟩ ⟨0⟩ ⟨0⟩,
  .connect ⟨1⟩ ⟨1⟩ ⟨1⟩, .connect ⟨2⟩ ⟨0⟩ ⟨1⟩, .connect ⟨3⟩ ⟨3⟩ ⟨1⟩,
  .connect ⟨2⟩ ⟨1⟩ ⟨2⟩, .connect ⟨3⟩ ⟨6⟩ ⟨2⟩]

theorem packable : Packable fabric session.netlist :=
  .of_entries (Session.wellFormed_after_of_wellFormed Wired.empty.wellFormed _) (by decide +kernel)

/-- The chain gets a feed-in, a pass-through and a pass-out. -/
theorem packs : ∃ s', packChains fabric session =
    .ok [⟨[⟨4⟩, ⟨1⟩, ⟨5⟩, ⟨2⟩, ⟨6⟩], 2⟩] s' :=
  exists_ok_of_returned (by decide +kernel)

end Adder

end Chain
end FpgaPacking
