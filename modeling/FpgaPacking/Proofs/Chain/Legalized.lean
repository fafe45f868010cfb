import FpgaPacking.Proofs.Chain.Blocks
import Mathlib.Data.List.Forall2

/-!
# The segments of a legalized chain

Carrying out the steps of a block puts one cell after the other at the places of
the block: the cells of the chain themselves, and new boundary cells in between.
`Put` says this of a part of the steps, and parts that follow each other are put
together by `Put.append`.  Nothing is asked of the cells but that they are live.
-/

namespace FpgaPacking
namespace Chain

variable {f : Fabric} {nl nl₁ nl' : Netlist} {p id : CellId} {block rest chain ids ids' : List CellId}
  {role : Role} {t : BoundaryTemplate} {links : List NetId} {segment : Segment}
  {segments : List Segment} {steps : List Step} {s s' : Session} {place : Place}
  {before after : List Place}

/-! ## Standing at places -/

/-- The member of a segment is the cell of its place, or a cell of the role of its place that was
not there before. -/
def StandsAt (nl nl' : Netlist) : Place → CellId → Prop
  | .cell id, member => member = id
  | .boundary role, member =>
    nl.cell? member = none ∧ ∃ c, nl'.cell? member = some c ∧ c.role = role

/-- The members stand at the places.  The second netlist has the new ones among them besides the
cells of the first, which are as they were but for their connections. -/
structure Put (nl nl' : Netlist) (places : List Place) (ids : List CellId) : Prop where
  kept : ∀ id c, nl.bare id = some c → nl'.bare id = some c
  live : ∀ id, (nl'.bare id).isSome ↔ (nl.bare id).isSome ∨ id ∈ ids
  stands : List.Forall₂ (StandsAt nl nl') places ids
  added : Added nl (places.filterMap Place.cell?) ids

theorem StandsAt.mono {nl₀ nl₂ : Netlist} (hbefore : ∀ i, (nl₀.bare i).isSome → (nl.bare i).isSome)
    (hafter : ∀ i c, nl'.bare i = some c → nl₂.bare i = some c) (h : StandsAt nl nl' place id) :
    StandsAt nl₀ nl₂ place id := by
  cases place with
  | cell _ => exact h
  | boundary role =>
    obtain ⟨hnew, c, hc, hrole⟩ := h
    have hnew₀ : nl₀.cell? id = none := by
      refine Option.not_isSome_iff_eq_none.mp fun hlive => ?_
      rw [← Netlist.bare_isSome] at hlive
      have hlater := hbefore id hlive
      rw [Netlist.bare_eq_none.mpr hnew] at hlater
      cases hlater
    have hbare := hafter id _ (Netlist.bare_of_cell? hc)
    obtain ⟨d, hd, hunwired⟩ := Option.map_eq_some_iff.mp hbare
    exact ⟨hnew₀, d, hd, (congrArg Cell.role hunwired).trans hrole⟩

namespace Put

theorem nil : Put nl nl [] [] where
  kept _ _ hc := hc
  live i := by simp
  stands := .nil
  added := .nil

theorem isSome (h : Put nl nl' before ids) (hlive : (nl.bare id).isSome) : (nl'.bare id).isSome :=
  (h.live id).mpr (Or.inl hlive)

theorem append (h : Put nl nl₁ before ids) (h' : Put nl₁ nl' after ids')
    (hlive : ∀ c ∈ after.filterMap Place.cell?, (nl.bare c).isSome)
    (hdisjoint : (before.filterMap Place.cell?).Disjoint (after.filterMap Place.cell?)) :
    Put nl nl' (before ++ after) (ids ++ ids') where
  kept i c hc := h'.kept i c (h.kept i c hc)
  live i := by rw [h'.live, h.live, List.mem_append, or_assoc]
  stands := List.rel_append
    (h.stands.imp fun _ _ hstands => hstands.mono (fun _ hi => hi) h'.kept)
    (h'.stands.imp fun _ _ hstands => hstands.mono (fun _ hi => h.isSome hi) fun _ _ hc => hc)
  added := by
    rw [List.filterMap_append]
    exact h.added.append h'.added (fun _ hi => h.isSome hi)
      (fun i hi => (h.live i).mpr (Or.inr hi)) hlive hdisjoint

/-- A cell of the chain joins a segment as it is. -/
theorem cell (hlive : (nl.bare id).isSome) : Put nl nl [.cell id] [id] where
  kept _ _ hc := hc
  live i := by
    refine ⟨Or.inl, fun h => h.elim (fun hi => hi) fun hi => ?_⟩
    rwa [List.mem_singleton.mp hi]
  stands := .cons rfl .nil
  added := .of_live hlive

/-- An insertion adds a boundary cell. -/
theorem boundary (h : Extended f role id t links nl nl') : Put nl nl' [.boundary role] [id] := by
  obtain ⟨c, hbare, -, -⟩ := h.cell
  obtain ⟨c', hc', hrole⟩ := h.has_role
  obtain ⟨d, hd, hunwired⟩ := Option.map_eq_some_iff.mp hc'
  have hrole' : d.role = role := (congrArg Cell.role hunwired).trans hrole
  refine ⟨fun i c₀ hc₀ => ?_, fun i => ?_, .cons ?_ .nil, .of_new h.fresh⟩
  · have hne : i ≠ id := by
      rintro rfl
      rw [h.fresh] at hc₀
      cases hc₀
    rw [hbare, Function.update_of_ne hne, hc₀]
  · rw [hbare, List.mem_singleton]
    by_cases hi : i = id
    · simp [hi]
    · simp [hi]
  · exact ⟨Netlist.bare_eq_none.mp h.fresh, d, hd, hrole'⟩

/-- What comes before a cell of the chain, the cell and what comes after it. -/
theorem around (hbefore : Put nl nl₁ before ids) (hid : (nl.bare id).isSome)
    (hafter : Put nl₁ nl' after ids') (hnone : before.filterMap Place.cell? = [])
    (hlive : ∀ c ∈ after.filterMap Place.cell?, (nl.bare c).isSome)
    (hnew : id ∉ after.filterMap Place.cell?) :
    Put nl nl' (before ++ .cell id :: after) (ids ++ id :: ids') := by
  have hrest := (Put.cell (hbefore.isSome hid)).append hafter
    (fun c hc => hbefore.isSome (hlive c hc)) (List.singleton_disjoint.mpr hnew)
  refine hbefore.append hrest (List.forall_mem_cons.mpr ⟨hid, hlive⟩) ?_
  rw [hnone]
  exact List.disjoint_nil_left _

end Put

/-! ## Carrying out the steps of a block -/

/-- The step before a cell, carried out. -/
theorem put_before {last : Option CellId} (hf : f.Declared) (hw : s.netlist.WellFormed)
    (h : carryOut f segment (stepsBefore f nl last id ++ steps) s = .ok segments s') :
    ∃ ids s₁, s₁.netlist.WellFormed ∧ Put s.netlist s₁.netlist (placesBefore f nl last id) ids ∧
      carryOut f ⟨segment.members ++ ids, segment.chainCells⟩ steps s₁ = .ok segments s' := by
  cases last with
  | none =>
    simp only [stepsBefore] at h
    simp only [placesBefore]
    split at h
    · next hneeded =>
      rw [if_pos hneeded]
      obtain ⟨made, s₁, hmade, h⟩ := bind_ok.mp h
      obtain ⟨t, output, k, link, -, -, hs₁⟩ := inserting_of_feedIn hf hw hmade
      exact ⟨[made], s₁, hs₁.extended.wellFormed, .boundary hs₁.extended, h⟩
    · next hneeded =>
      rw [if_neg hneeded]
      exact ⟨[], s, hw, .nil, by rwa [List.append_nil]⟩
  | some p =>
    simp only [stepsBefore] at h
    simp only [placesBefore]
    split at h
    · next hneeded =>
      rw [if_pos hneeded]
      obtain ⟨made, s₁, hmade, h⟩ := bind_ok.mp h
      obtain ⟨t, output, routed, k, entry, exit, -, -, -, -, -, hs₁⟩ :=
        inserting_of_passThrough hf hw hmade
      exact ⟨[made], s₁, hs₁.extended.wellFormed, .boundary hs₁.extended, h⟩
    · next hneeded =>
      rw [if_neg hneeded]
      exact ⟨[], s, hw, .nil, by rwa [List.append_nil]⟩

/-- The steps after the last cell of a segment, carried out. -/
theorem put_after (hf : f.Declared) (hw : s.netlist.WellFormed)
    (h : carryOut f segment (stepsAfter f nl p ++ steps) s = .ok segments s') :
    ∃ ids s₁ others, s₁.netlist.WellFormed ∧ Put s.netlist s₁.netlist (placesAfter f nl p []) ids ∧
      segments = ⟨segment.members ++ ids, segment.chainCells⟩ :: others ∧
      carryOut f .empty steps s₁ = .ok others s' := by
  unfold stepsAfter at h
  unfold placesAfter
  split at h
  · next hneeded =>
    rw [if_pos hneeded]
    obtain ⟨made, s₁, hmade, h⟩ := bind_ok.mp h
    obtain ⟨t, routed, k, link, -, -, hs₁⟩ := inserting_of_passOut hf hw hmade
    obtain ⟨others, s₂, hothers, h⟩ := bind_ok.mp h
    obtain ⟨rfl, rfl⟩ := pure_ok.mp h
    exact ⟨[made], s₁, others, hs₁.extended.wellFormed, .boundary hs₁.extended, rfl, hothers⟩
  · next hneeded =>
    rw [if_neg hneeded]
    obtain ⟨others, s₂, hothers, h⟩ := bind_ok.mp h
    obtain ⟨rfl, rfl⟩ := pure_ok.mp h
    refine ⟨[], s, others, hw, .nil, ?_, hothers⟩
    rw [List.append_nil]

/-- The steps after the cell `p` of a segment put the rest of the segment at its places. -/
theorem put_rest (hf : f.Declared) (hw : s.netlist.WellFormed)
    (hlive : ∀ c ∈ rest, (s.netlist.bare c).isSome) (hnodup : rest.Nodup)
    (h : carryOut f segment (restSteps f nl p rest ++ steps) s = .ok segments s') :
    ∃ ids s₁ others, s₁.netlist.WellFormed ∧ Put s.netlist s₁.netlist (placesAfter f nl p rest) ids ∧
      segments = ⟨segment.members ++ ids, segment.chainCells + rest.length⟩ :: others ∧
      carryOut f .empty steps s₁ = .ok others s' := by
  induction rest generalizing p segment s with
  | nil => exact put_after hf hw h
  | cons c rest ih =>
    obtain ⟨hc, hrest⟩ := List.forall_mem_cons.mp hlive
    obtain ⟨hnew, hnodup⟩ := List.nodup_cons.mp hnodup
    rw [restSteps, List.append_assoc] at h
    obtain ⟨ids, s₁, hw₁, hput, h⟩ := put_before hf hw h
    have hjoined : carryOut f ⟨segment.members ++ ids ++ [c], segment.chainCells + 1⟩
        (restSteps f nl c rest ++ steps) s₁ = .ok segments s' := h
    obtain ⟨ids', s₂, others, hw₂, hput', hsegments, hothers⟩ := ih hw₁
      (fun i hi => hput.isSome (hrest i hi)) hnodup hjoined
    refine ⟨ids ++ c :: ids', s₂, others, hw₂, ?_, ?_, hothers⟩
    · exact hput.around hc hput' cells_placesBefore (by rwa [cells_placesAfter])
        (by rwa [cells_placesAfter])
    · rw [hsegments, List.length_cons]
      simp only [List.append_assoc, List.singleton_append, Nat.add_assoc, Nat.add_comm 1]

/-- The steps of a block make a segment with the places of the block. -/
theorem put_block (hf : f.Declared) (hw : s.netlist.WellFormed) (hne : block ≠ [])
    (hlive : ∀ c ∈ block, (s.netlist.bare c).isSome) (hnodup : block.Nodup)
    (h : carryOut f .empty (blockSteps f nl block ++ steps) s = .ok segments s') :
    ∃ ids s₁ others, s₁.netlist.WellFormed ∧ Put s.netlist s₁.netlist (places f nl block) ids ∧
      segments = ⟨ids, block.length⟩ :: others ∧ carryOut f .empty steps s₁ = .ok others s' := by
  obtain ⟨head, rest, rfl⟩ := List.exists_cons_of_ne_nil hne
  obtain ⟨hhead, hrest⟩ := List.forall_mem_cons.mp hlive
  obtain ⟨hnew, hnodup⟩ := List.nodup_cons.mp hnodup
  rw [blockSteps, List.append_assoc] at h
  obtain ⟨ids, s₁, hw₁, hput, h⟩ := put_before hf hw h
  have hstarted : carryOut f ⟨ids ++ [head], 1⟩ (restSteps f nl head rest ++ steps) s₁ =
      .ok segments s' := h
  obtain ⟨ids', s₂, others, hw₂, hput', hsegments, hothers⟩ := put_rest hf hw₁
    (fun i hi => hput.isSome (hrest i hi)) hnodup hstarted
  refine ⟨ids ++ head :: ids', s₂, others, hw₂, ?_, ?_, hothers⟩
  · exact hput.around hhead hput' cells_placesBefore (by rwa [cells_placesAfter])
      (by rwa [cells_placesAfter])
  · rw [hsegments, List.length_cons, Nat.add_comm rest.length]
    simp only [List.append_assoc, List.singleton_append]

/-- The steps of some blocks make a segment of each. -/
theorem put_blocks {blocks : List (List CellId)} (hf : f.Declared) (hw : s.netlist.WellFormed)
    (hne : ∀ block ∈ blocks, block ≠ [])
    (hlive : ∀ c ∈ blocks.flatten, (s.netlist.bare c).isSome) (hnodup : blocks.flatten.Nodup)
    (h : carryOut f .empty (blocks.flatMap (blockSteps f nl)) s = .ok segments s') :
    Put s.netlist s'.netlist (blocks.flatMap (places f nl)) (segments.flatMap (·.members)) ∧
      List.Forall₂ (fun block t => t.chainCells = block.length ∧
        List.Forall₂ (StandsAt s.netlist s'.netlist) (places f nl block) t.members) blocks segments := by
  induction blocks generalizing segments s with
  | nil =>
    obtain ⟨rfl, rfl⟩ := pure_ok.mp h
    exact ⟨.nil, .nil⟩
  | cons block blocks ih =>
    obtain ⟨hblock, hblocks⟩ := List.forall_mem_cons.mp hne
    rw [List.flatten_cons] at hlive hnodup
    obtain ⟨hfirst, hlater⟩ := List.forall_mem_append.mp hlive
    obtain ⟨hblocknodup, hlaternodup, hdisjoint⟩ := List.nodup_append'.mp hnodup
    rw [List.flatMap_cons] at h
    obtain ⟨ids, s₁, others, hw₁, hput, rfl, hothers⟩ :=
      put_block hf hw hblock hfirst hblocknodup h
    obtain ⟨hputs, hothers⟩ := ih hw₁ hblocks (fun c hc => hput.isSome (hlater c hc)) hlaternodup
      hothers
    have hcells : (blocks.flatMap (places f nl)).filterMap Place.cell? = blocks.flatten := by
      rw [List.filterMap_flatMap, ← List.flatMap_id]
      exact List.flatMap_congr fun _ _ => cells_places
    refine ⟨?_, .cons ⟨rfl, ?_⟩ (hothers.imp fun _ _ ht => ⟨ht.1, ht.2.imp fun _ _ hstands => ?_⟩)⟩
    · rw [List.flatMap_cons, List.flatMap_cons]
      refine hput.append hputs (by rwa [hcells]) ?_
      rwa [cells_places, hcells]
    · exact hput.stands.imp fun _ _ hstands => hstands.mono (fun _ hi => hi) hputs.kept
    · exact hstands.mono (fun _ hi => hput.isSome hi) fun _ _ hc => hc

/-! ## Legalization -/

/-- The cells of a segment that are cells of the chain: those that were there before. -/
def Segment.own (nl : Netlist) (t : Segment) : List CellId :=
  t.members.filter fun id => (nl.cell? id).isSome

/-- The segment fits on the fabric, and its boundary cells are those that its cells of the chain need
on the netlist before legalization. -/
structure Segment.Fitting (f : Fabric) (nl nl' : Netlist) (t : Segment) : Prop where
  counted : t.chainCells = (t.own nl).length
  nonempty : 1 ≤ t.chainCells
  capacity : t.chainCells ≤ f.tileCapacity
  compatible : f.compatible nl (t.own nl) = true
  length : t.members.length ≤ f.maxChainLength
  shape : List.Forall₂ (StandsAt nl nl') (places f nl (t.own nl)) t.members

/-- The members that were there before are the cells of the places. -/
theorem filter_of_stands {places : List Place} (h : List.Forall₂ (StandsAt nl nl') places ids)
    (hlive : ∀ c ∈ places.filterMap Place.cell?, (nl.cell? c).isSome) :
    ids.filter (fun id => (nl.cell? id).isSome) = places.filterMap Place.cell? := by
  induction h with
  | nil => rfl
  | @cons place id places ids hstands _ ih =>
    rw [List.filter_cons]
    cases place with
    | cell c =>
      obtain rfl : id = c := hstands
      obtain ⟨hid, hrest⟩ := List.forall_mem_cons.mp hlive
      rw [if_pos hid, ih hrest]
      rfl
    | boundary role =>
      rw [if_neg (by simp [hstands.1]), ih hlive]
      rfl

/-- A segment with the places of a block that fits. -/
theorem fitting_of_stands {t : Segment} (hne : block ≠ []) (hfits : FitsTile f nl block)
    (hlive : ∀ c ∈ block, (nl.cell? c).isSome) (hcount : t.chainCells = block.length)
    (hstands : List.Forall₂ (StandsAt nl nl') (places f nl block) t.members) :
    t.own nl = block ∧ t.Fitting f nl nl' := by
  have hown : t.own nl = block :=
    (filter_of_stands hstands (by rwa [cells_places])).trans cells_places
  have hlength := hstands.length_eq
  rw [length_places hne] at hlength
  refine ⟨hown, ?_, ?_, ?_, ?_, ?_, ?_⟩
  · rw [hown, hcount]
  · rw [hcount]
    exact List.length_pos_iff.mpr hne
  · exact hcount ▸ hfits.capacity
  · rw [hown]
    exact (compatible_iff hne).mpr hfits.compatible
  · exact hlength ▸ hfits.length
  · rwa [hown]

theorem fitting_of_blocks {blocks : List (List CellId)}
    (hblocks : ∀ block ∈ blocks, block ≠ [] ∧ FitsTile f nl block)
    (hlive : ∀ c ∈ blocks.flatten, (nl.cell? c).isSome)
    (h : List.Forall₂ (fun block t => t.chainCells = block.length ∧
      List.Forall₂ (StandsAt nl nl') (places f nl block) t.members) blocks segments) :
    segments.flatMap (Segment.own nl) = blocks.flatten ∧ ∀ t ∈ segments, t.Fitting f nl nl' := by
  induction h with
  | nil => exact ⟨rfl, nofun⟩
  | @cons block t blocks segments ht _ ih =>
    obtain ⟨⟨hne, hfits⟩, hblocks⟩ := List.forall_mem_cons.mp hblocks
    obtain ⟨hfirst, hlater⟩ := List.forall_mem_append.mp hlive
    obtain ⟨hown, hfitting⟩ := fitting_of_stands hne hfits hfirst ht.1 ht.2
    obtain ⟨howns, hfittings⟩ := ih hblocks hlater
    refine ⟨?_, List.forall_mem_cons.mpr ⟨hfitting, hfittings⟩⟩
    rw [List.flatMap_cons, List.flatten_cons, hown, howns]

/-- A legalized chain is cut into segments that fit on the fabric and have the boundary cells that
they need, and no other cell is created or removed. -/
theorem legalize_segments {config : Config} {names names' : Names}
    (hf : Fabric.ofConfig config names = (.ok f, names')) (hw : s.netlist.WellFormed)
    (hnodup : chain.Nodup) (hlive : ∀ id ∈ chain, (s.netlist.cell? id).isSome)
    (hreads : ∀ id ∈ chain, s.netlist.dir ⟨id, f.chainIn⟩ ≠ some .output)
    (h : legalize f chain s = .ok segments s') :
    segments.flatMap (Segment.own s.netlist) = chain ∧
      (∀ t ∈ segments, t.Fitting f s.netlist s'.netlist) ∧
      (segments.flatMap (·.members)).Nodup ∧
      ∀ id, (s'.netlist.cell? id).isSome ↔
        (s.netlist.cell? id).isSome ∨ ∃ t ∈ segments, id ∈ t.members := by
  obtain ⟨steps, s₁, s₂, hprepare, hcarry, hnoted⟩ := carryOut_of_legalize h
  obtain ⟨hlinks, houtcome, hsame⟩ := plan_of_prepare hprepare
  obtain ⟨blocks, hcut, rfl⟩ := blocks_of_plan hw (isChain_of_checkLinks hlinks) hreads houtcome
  have hbare : ∀ c ∈ blocks.flatten, (s₁.netlist.bare c).isSome := by
    intro c hc
    rw [hsame, Netlist.bare_isSome]
    exact hlive c (hcut.joined ▸ hc)
  obtain ⟨hput, hsegments⟩ := put_blocks (Fabric.declared_of_config hf) (hsame ▸ hw)
    (fun block hblock => (hcut.block block hblock).1) hbare (hcut.joined ▸ hnodup) hcarry
  rw [← hnoted, hsame] at hput hsegments
  obtain ⟨hown, hfitting⟩ := fitting_of_blocks hcut.block (hcut.joined ▸ hlive) hsegments
  refine ⟨hown.trans hcut.joined, hfitting, hput.added.nodup, fun id => ?_⟩
  rw [← Netlist.bare_isSome, ← Netlist.bare_isSome, hput.live, List.mem_flatMap]

/-- The two carry cells become one segment with a boundary cell of each role. -/
theorem adder_segments : ∃ s', legalize Adder.fabric [⟨1⟩, ⟨2⟩] Adder.session =
      .ok [⟨[⟨4⟩, ⟨1⟩, ⟨5⟩, ⟨2⟩, ⟨6⟩], 2⟩] s' ∧
    Segment.Fitting Adder.fabric Adder.session.netlist s'.netlist
      ⟨[⟨4⟩, ⟨1⟩, ⟨5⟩, ⟨2⟩, ⟨6⟩], 2⟩ := by
  have hlive : ∀ id ∈ [⟨1⟩, ⟨2⟩], (Adder.session.netlist.cell? id).isSome := by decide +kernel
  have hreads : ∀ id ∈ [⟨1⟩, ⟨2⟩],
      Adder.session.netlist.dir ⟨id, Adder.fabric.chainIn⟩ ≠ some .output := by decide +kernel
  obtain ⟨s', h⟩ : ∃ s', legalize Adder.fabric [⟨1⟩, ⟨2⟩] Adder.session =
      .ok [⟨[⟨4⟩, ⟨1⟩, ⟨5⟩, ⟨2⟩, ⟨6⟩], 2⟩] s' :=
    exists_ok_of_returned (by decide +kernel)
  obtain ⟨-, hfitting, -⟩ := legalize_segments Adder.ofConfig_config Adder.packable.wellFormed
    (by decide) hlive hreads h
  exact ⟨s', h, hfitting _ List.mem_cons_self⟩

end Chain
end FpgaPacking
