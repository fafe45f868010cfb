import FpgaPacking.Proofs.Chain.Answers

/-!
# Edits behind the scan

When a chain is scanned and edited together, what has been edited lies behind the
scan: no port of a cell that is still to come has been moved, nor the chain output
of the last cell in the open segment.  So the edited netlist gives the answers of
the original one.  Cells of the open segment may have lost their nets, but only on
chain inputs, which do not matter for a tile, and on chain outputs, where two cells
never agree unless neither is connected.
-/

namespace FpgaPacking
namespace Chain

open Netlist

variable {f : Fabric} {nl₀ nl nl' : Netlist} {id p : CellId} {chain rest window : List CellId}
  {moved moved' : List PortRef} {open₁ : OpenSegment}

/-! ## Cells that may share a tile -/

/-- Two outputs are on one net only if they are on none, before edits and after them. -/
theorem Edited.same_output_iff (he : Edited moved nl nl') (hw : nl.WellFormed) {a b : CellId}
    (ha : ChainCell f nl a) (hb : ChainCell f nl b) :
    nl'.netOf a f.chainOut = nl'.netOf b f.chainOut ↔
      nl.netOf a f.chainOut = nl.netOf b f.chainOut := by
  by_cases hab : a = b
  · simp [hab]
  have hapart : ∀ {nl : Netlist}, nl.WellFormed → ChainCell f nl a → ChainCell f nl b →
      (nl.netOf a f.chainOut = nl.netOf b f.chainOut ↔
        nl.netOf a f.chainOut = none ∧ nl.netOf b f.chainOut = none) := by
    intro nl hw ha hb
    refine ⟨fun hsame => ?_, fun ⟨hna, hnb⟩ => hna.trans hnb.symm⟩
    cases hk : nl.netOf a f.chainOut with
    | none => exact ⟨rfl, hsame.symm.trans hk⟩
    | some k =>
      have hka : nl.wire ⟨a, f.chainOut⟩ = some k := hk
      have hkb : nl.wire ⟨b, f.chainOut⟩ = some k := hsame.symm.trans hk
      have hports := Origin.driver_unique hw hka (ha.dir_chainOut hka) hkb (hb.dir_chainOut hkb)
      exact absurd (congrArg PortRef.cell hports) hab
  have hnone : ∀ {c : CellId}, ChainCell f nl c →
      (nl'.netOf c f.chainOut = none ↔ nl.netOf c f.chainOut = none) := by
    intro c hc
    by_cases hm : (⟨c, f.chainOut⟩ : PortRef) ∈ moved
    · obtain ⟨k, hk, -⟩ := he.moved_to _ hm
      obtain ⟨k₀, hk₀⟩ := Option.isSome_iff_exists.mp (he.moved_from _ hm)
      have hafter : nl'.netOf c f.chainOut = some k := hk
      have hbefore : nl.netOf c f.chainOut = some k₀ := hk₀
      rw [hafter, hbefore]
      simp
    · rw [he.netOf_eq hc.live hm]
  rw [hapart hw ha hb, hapart he.wellFormed (ha.edited he) (hb.edited he), hnone ha, hnone hb]

/-- Moved chain ports do not matter for a tile if the chain input is not among the ports that do. -/
theorem Edited.compatible_eq (he : Edited moved nl nl') (hw : nl.WellFormed)
    (hports : ∀ r ∈ moved, r.port = f.chainIn ∨ r.port = f.chainOut)
    (hin : f.chainIn ∉ f.compatPorts) {cells : List CellId}
    (hcells : ∀ c ∈ cells, ChainCell f nl c) : f.compatible nl' cells = f.compatible nl cells := by
  cases cells with
  | nil => rfl
  | cons first rest =>
    simp only [Fabric.compatible]
    rw [Bool.eq_iff_iff]
    simp only [List.all_eq_true, decide_eq_true_eq]
    have hfirst := hcells first List.mem_cons_self
    refine forall₂_congr fun port hport => forall₂_congr fun a ha => ?_
    have hmem := hcells a (List.mem_cons_of_mem _ ha)
    by_cases hout : port = f.chainOut
    · rw [hout]
      exact he.same_output_iff hw hmem hfirst
    · have hstays : ∀ c : CellId, (⟨c, port⟩ : PortRef) ∉ moved := by
        intro c hm
        rcases hports _ hm with hci | hco
        · exact hin (hci ▸ hport)
        · exact hout hco
      rw [he.netOf_eq hmem.live (hstays a), he.netOf_eq hfirst.live (hstays first)]

/-! ## The netlist while a chain is scanned -/

/-- The netlist `nl` has come from `nl₀` by edits behind the scan, which has reached the cells `rest`
and has the cells `window` in the open segment. -/
structure Behind (f : Fabric) (nl₀ nl : Netlist) (window rest : List CellId) (moved : List PortRef) :
    Prop where
  before : nl₀.WellFormed
  edited : Edited moved nl₀ nl
  ports : ∀ r ∈ moved, r.port = f.chainIn ∨ r.port = f.chainOut
  cells : ∀ c ∈ window ++ rest, ChainCell f nl₀ c
  nodup : (window ++ rest).Nodup
  linked : (window ++ rest).IsChain (Together f nl₀)
  /-- Nothing of a cell to come has been moved. -/
  ahead : ∀ c ∈ rest, ∀ port, (⟨c, port⟩ : PortRef) ∉ moved
  /-- The chain output of the last cell has not been moved. -/
  output : ∀ p, window.getLast? = some p → (⟨p, f.chainOut⟩ : PortRef) ∉ moved

namespace Behind

/-- At the start nothing has been edited. -/
theorem start (hw : nl₀.WellFormed) (hchain : Intact f nl₀ chain) : Behind f nl₀ nl₀ [] chain [] where
  before := hw
  edited := .refl hw
  ports := nofun
  cells := hchain.cells
  nodup := hchain.nodup
  linked := hchain.linked
  ahead _ _ _ := List.not_mem_nil
  output := nofun

variable (h : Behind f nl₀ nl window (id :: rest) moved)
include h

theorem cell_id : ChainCell f nl₀ id := h.cells id (by simp)

theorem together (hp : window.getLast? = some p) : Together f nl₀ p id := by
  obtain ⟨before, rfl⟩ := List.getLast?_eq_some_iff.mp hp
  have hlinked := h.linked
  rw [List.append_assoc, List.singleton_append] at hlinked
  exact (List.isChain_cons_cons.mp (List.isChain_append.mp hlinked).2.1).1

theorem ne_id (hp : p ∈ window) : p ≠ id := by
  rintro rfl
  exact (List.disjoint_of_nodup_append h.nodup) hp List.mem_cons_self

theorem notMem_rest {c : CellId} (hc : c ∈ window ∨ c = id) : c ∉ rest := by
  intro hmem
  rcases hc with hc | rfl
  · exact (List.disjoint_of_nodup_append h.nodup) hc (List.mem_cons_of_mem id hmem)
  · exact (List.nodup_cons.mp (List.nodup_append.mp h.nodup).2.1).1 hmem

/-- The edited netlist gives the same answers about the next cell. -/
theorem extend_eq (hin : f.chainIn ∉ f.compatPorts) (hwindow : open₁.cells = window) :
    extend nl f open₁ id = extend nl₀ f open₁ id := by
  subst hwindow
  refine extend_congr (boundaryBefore_congr (fun _ => ?_) fun p hp => ?_) ?_ ?_
  · exact h.edited.needsFeedIn_eq h.before h.cell_id (h.ahead id List.mem_cons_self _)
  · have hcell := h.cells p (List.mem_append_left _ (List.mem_of_getLast? hp))
    exact h.edited.fansOut_eq h.before hcell h.cell_id (h.output p hp)
      (h.ahead id List.mem_cons_self _)
  · exact h.edited.outputUsed_eq h.before h.cell_id (h.ahead id List.mem_cons_self _)
  · refine h.edited.compatible_eq h.before h.ports hin fun c hc => h.cells c ?_
    rcases List.mem_append.mp hc with hc | hc
    · exact List.mem_append_left _ hc
    · simp [List.mem_singleton.mp hc]

/-- The scan goes on to the next cell, whose input may have been moved, and the output of the cell
before it. -/
theorem next (he : Edited moved' nl nl')
    (hmoved : ∀ r ∈ moved', r = ⟨id, f.chainIn⟩ ∨ ∃ p, window.getLast? = some p ∧
      r = ⟨p, f.chainOut⟩) :
    Behind f nl₀ nl' (window ++ [id]) rest (moved ++ moved') where
  before := h.before
  edited := by
    refine h.edited.trans he fun r hr => ?_
    rcases hmoved r hr with rfl | ⟨p, hp, rfl⟩
    · exact h.cell_id.live
    · exact (h.cells p (List.mem_append_left _ (List.mem_of_getLast? hp))).live
  ports r hr := by
    rcases List.mem_append.mp hr with hr | hr
    · exact h.ports r hr
    · rcases hmoved r hr with rfl | ⟨p, -, rfl⟩
      · exact Or.inl rfl
      · exact Or.inr rfl
  cells c hc := h.cells c (by simpa [or_assoc] using hc)
  nodup := by simpa using h.nodup
  linked := by simpa using h.linked
  ahead c hc port hm := by
    rcases List.mem_append.mp hm with hm | hm
    · exact h.ahead c (List.mem_cons_of_mem id hc) port hm
    · rcases hmoved _ hm with hsame | ⟨p, hp, hsame⟩
      · exact h.notMem_rest (Or.inr (congrArg PortRef.cell hsame)) hc
      · obtain rfl : c = p := congrArg PortRef.cell hsame
        exact h.notMem_rest (Or.inl (List.mem_of_getLast? hp)) hc
  output q hq hm := by
    obtain rfl : id = q := by simpa using hq
    rcases List.mem_append.mp hm with hm | hm
    · exact h.ahead id List.mem_cons_self _ hm
    · rcases hmoved _ hm with hsame | ⟨p, hp, hsame⟩
      · have hwired := he.moved_from _ hm
        rw [hsame, h.edited.still _ (h.ahead id List.mem_cons_self _) h.cell_id.live] at hwired
        exact h.cell_id.ports_ne hwired hsame
      · exact h.ne_id (List.mem_of_getLast? hp) (congrArg PortRef.cell hsame).symm

/-- The open segment ends before the next cell, and the output of its last cell has been moved. -/
theorem split (he : Edited [⟨p, f.chainOut⟩] nl nl') (hp : window.getLast? = some p) :
    Behind f nl₀ nl' [] (id :: rest) (moved ++ [⟨p, f.chainOut⟩]) where
  before := h.before
  edited := h.edited.trans he fun r hr => by
    obtain rfl := List.mem_singleton.mp hr
    exact (h.cells p (List.mem_append_left _ (List.mem_of_getLast? hp))).live
  ports r hr := by
    rcases List.mem_append.mp hr with hr | hr
    · exact h.ports r hr
    · exact Or.inr (congrArg PortRef.port (List.mem_singleton.mp hr))
  cells c hc := h.cells c (List.mem_append_right _ hc)
  nodup := (List.nodup_append.mp h.nodup).2.1
  linked := (List.isChain_append.mp h.linked).2.1
  ahead c hc port hm := by
    rcases List.mem_append.mp hm with hm | hm
    · exact h.ahead c hc port hm
    · obtain rfl : c = p := congrArg PortRef.cell (List.mem_singleton.mp hm)
      exact (List.disjoint_of_nodup_append h.nodup) (List.mem_of_getLast? hp) hc
  output := nofun

end Behind

end Chain
end FpgaPacking
