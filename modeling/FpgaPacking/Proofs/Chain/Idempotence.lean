import FpgaPacking.Proofs.Chain.Discovered

/-!
# Packing twice

After a run of chain packing the cells of the chains it found are in clusters and
so not eligible any more, and new cells never are.  Of the other eligible cells
each leads to the same cell as before: the first of the readers it had is in its
own component, so it was not packed, it is still on the net and still the first.
Their components have not grown, so they are too small for a second run.
-/

namespace FpgaPacking
namespace Chain

open Netlist
open Relation (EqvGen)

variable {f : Fabric} {nl nl' : Netlist} {s s' : Session} {segments : List Segment}
  {moved : List PortRef} {chains : List (List CellId)} {id d c : CellId}

/-! ## Eligible cells -/

/-- Edits change neither what is a chain cell nor make one. -/
theorem Edited.isChainCell_iff (he : Edited moved nl nl') :
    (∃ c, nl'.bare id = some c ∧ f.isChainCell c = true) ↔
      ∃ c, nl.bare id = some c ∧ f.isChainCell c = true := by
  constructor
  · rintro ⟨c, hc, hchain⟩
    cases hb : nl.bare id with
    | none =>
      have hrole := of_decide_eq_true (Bool.and_eq_true_iff.mp hchain).1
      exact absurd hrole (he.created id c hb hc)
    | some b =>
      obtain ⟨m, hm⟩ := he.cells id b hb
      obtain rfl := Option.some.inj (hc.symm.trans hm)
      exact ⟨b, rfl, hchain⟩
  · rintro ⟨c, hc, hchain⟩
    obtain ⟨m, hm⟩ := he.cells id c hc
    exact ⟨_, hm, hchain⟩

theorem Directed.edited (h : Directed f nl) (he : Edited moved nl nl') : Directed f nl' := by
  have hold : ∀ id c p port, nl'.cell? id = some c → f.isChainCell c → c.port? port = some p →
      ∃ d q, nl.cell? id = some d ∧ f.isChainCell d ∧ d.port? port = some q ∧
        q.direction = p.direction := by
    intro id c p port hc hchain hp
    obtain ⟨b, hb, hchainb⟩ := he.isChainCell_iff.mp ⟨c.unwired, bare_of_cell? hc, hchain⟩
    obtain ⟨d, hd, rfl⟩ := Option.map_eq_some_iff.mp hb
    have hdir := he.dir (r := ⟨id, port⟩) (by simp [hb])
    simp only [dir, port?, hc, hd, Option.bind_some, hp, Option.map_some] at hdir
    obtain ⟨q, hq, hqp⟩ := Option.map_eq_some_iff.mp hdir.symm
    exact ⟨d, q, hd, hchainb, hq, hqp⟩
  refine ⟨he.wellFormed, fun id c p hc hchain hp => ?_, fun id c p hc hchain hp => ?_⟩
  · obtain ⟨d, q, hd, hchaind, hq, hqp⟩ := hold id c p _ hc hchain hp
    exact hqp.symm.trans (h.chain_in id d q hd hchaind hq)
  · obtain ⟨d, q, hd, hchaind, hq, hqp⟩ := hold id c p _ hc hchain hp
    exact hqp.symm.trans (h.chain_out id d q hd hchaind hq)

namespace Packed

section Eligible

variable (h : Packed f nl nl' chains moved segments)
include h

theorem not_eligible_of_mem (hid : id ∈ chains.flatten) :
    ¬Satisfies nl' (Pack.isEligible f) id := by
  intro heligible
  have hmem := (h.added.mem_iff (h.added.isSome hid)).mpr hid
  obtain ⟨t, ht, hidt⟩ := List.mem_flatMap.mp hmem
  obtain ⟨m, hm, -, hroot⟩ := (h.fills t ht).clustered hidt
  obtain ⟨-, n, hn, hfree⟩ := satisfies_isEligible.mp heligible
  obtain rfl := Option.some.inj (hm.symm.trans hn)
  simp [hfree] at hroot

theorem eligible_before (hid : Satisfies nl' (Pack.isEligible f) id) :
    Satisfies nl (Pack.isEligible f) id := by
  obtain ⟨hchain, m, hm, hfree⟩ := satisfies_isEligible.mp hid
  have hchain' := h.edited.isChainCell_iff.mp hchain
  refine satisfies_isEligible.mpr ⟨hchain', ?_⟩
  obtain ⟨b, hb, -⟩ := hchain'
  obtain ⟨cell, hcell, -⟩ := Option.map_eq_some_iff.mp hb
  refine ⟨cell.cluster, membership_of_cell? hcell, ?_⟩
  by_contra hroot
  have hkept := h.kept id _ (Option.isSome_iff_ne_none.mpr hroot) (membership_of_cell? hcell)
  obtain rfl := Option.some.inj (hm.symm.trans hkept)
  exact hroot hfree

theorem eligible_after (hid : Satisfies nl (Pack.isEligible f) id) (hout : id ∉ chains.flatten) :
    Satisfies nl' (Pack.isEligible f) id := by
  obtain ⟨hchain, m, hm, hfree⟩ := satisfies_isEligible.mp hid
  refine satisfies_isEligible.mpr ⟨h.edited.isChainCell_iff.mpr hchain, m, ?_, hfree⟩
  have hlive : (nl.bare id).isSome := by
    obtain ⟨b, hb, -⟩ := hchain
    simp [hb]
  rw [h.elsewhere id (by simp [hm]) fun hmem => hout ((h.added.mem_iff hlive).mp hmem)]
  exact hm

theorem cell_mem_of_moved {r : PortRef} (hr : r ∈ moved) : r.cell ∈ chains.flatten := by
  obtain ⟨chain, hchain, hmovable⟩ := h.movable r hr
  exact List.mem_flatten.mpr ⟨chain, hchain, hmovable.cell.resolve_right nofun⟩

end Eligible

end Packed

/-! ## Where eligible cells lead -/

/-- A cell with a reader that satisfies `p` leads to that one or to one before it. -/
theorem exists_leads {chainIn chainOut : Ident} {p : Cell → Bool} {k : NetId} {n : Net}
    (hd : Satisfies nl p d) (hk : nl.netOf d chainOut = some k) (hn : nl.net? k = some n)
    (hc : Satisfies nl p c) (hmem : ⟨c, chainIn⟩ ∈ n.sinks) :
    ∃ z before after, Leads nl chainIn chainOut p d z ∧ n.sinks = before ++ ⟨z, chainIn⟩ :: after ∧
      (z = c ∨ ⟨c, chainIn⟩ ∈ after) := by
  have hfound : (n.sinks.find? fun s => s.port = chainIn && (nl.cell? s.cell).any p).isSome :=
    List.find?_isSome.mpr ⟨_, hmem, by simp [any_eq_true.mpr hc]⟩
  obtain ⟨r, hr⟩ := Option.isSome_iff_exists.mp hfound
  have hreader : nl.firstReader k p chainIn = some r.cell := by
    unfold Netlist.firstReader
    simp [hn, hr]
  obtain ⟨m, before, after, hm, hsinks, hz, hfirst⟩ := firstReader_eq_some.mp hreader
  obtain rfl := Option.some.inj (hn.symm.trans hm)
  refine ⟨r.cell, before, after, ⟨hd, k, n, before, after, hk, hn, hsinks, hz, hfirst⟩, hsinks, ?_⟩
  rw [hsinks, List.mem_append, List.mem_cons] at hmem
  rcases hmem with hbefore | hsame | hafter
  · exact absurd hc (hfirst c hbefore)
  · exact Or.inl (congrArg PortRef.cell hsame).symm
  · exact Or.inr hafter

/-- A cell that leads into a chain is in the chain. -/
theorem Directed.mem_of_leads (hs : Directed f nl)
    (hleads : Leads nl f.chainIn f.chainOut (Pack.isEligible f) d c)
    (hc : c ∈ (foundChains f nl).flatten) : d ∈ (foundChains f nl).flatten := by
  obtain ⟨chain, hchain, hmem⟩ := List.mem_flatten.mp hc
  obtain ⟨x, -, hcomponent⟩ := hs.exact.component chain hchain
  refine List.mem_flatten.mpr ⟨chain, hchain, (hcomponent d).mpr ?_⟩
  exact .trans _ _ _ ((hcomponent c).mp hmem) (.symm _ _ (.rel _ _ hleads))

variable (hs : Directed f nl) (h : Packed f nl nl' (foundChains f nl) moved segments)
include hs h

/-- Where a cell leads after packing it led before. -/
theorem Packed.leads_before (hleads : Leads nl' f.chainIn f.chainOut (Pack.isEligible f) d c) :
    Leads nl f.chainIn f.chainOut (Pack.isEligible f) d c := by
  obtain ⟨hd, k, n', before', after', hk', hn', hsinks', hc, hfirst⟩ := hleads
  have hw := hs.wellFormed
  have hw' := h.edited.wellFormed
  -- Ports of cells outside the chains are where they were.
  have hunmoved : ∀ x port, x ∉ (foundChains f nl).flatten → (⟨x, port⟩ : PortRef) ∉ moved :=
    fun x port hx hm => hx (h.cell_mem_of_moved hm)
  have hstill : ∀ x port, Satisfies nl' (Pack.isEligible f) x →
      nl'.wire ⟨x, port⟩ = nl.wire ⟨x, port⟩ := by
    intro x port hx
    obtain ⟨⟨b, hb, -⟩, -⟩ := satisfies_isEligible.mp (h.eligible_before hx)
    exact h.edited.still _ (hunmoved x port fun hmem => h.not_eligible_of_mem hmem hx) (by simp [hb])
  have hdout : d ∉ (foundChains f nl).flatten := fun hmem => h.not_eligible_of_mem hmem hd
  have hcout : c ∉ (foundChains f nl).flatten := fun hmem => h.not_eligible_of_mem hmem hc
  have hk : nl.wire ⟨d, f.chainOut⟩ = some k := (hstill d _ hd).symm.trans hk'
  obtain ⟨n, hn⟩ := Option.isSome_iff_exists.mp (hw.wired.wire_live _ k hk)
  have hreads : (⟨c, f.chainIn⟩ : PortRef) ∈ n.sinks := by
    obtain ⟨hwire, hdir⟩ := (hw'.wired.sink_iff k n' _ hn').mp
      (hsinks' ▸ List.mem_append_right before' List.mem_cons_self)
    rw [hstill c _ hc] at hwire
    rw [h.edited.dir (bare_isSome_of_wire hwire)] at hdir
    exact (hw.wired.sink_iff k n _ hn).mpr ⟨hwire, hdir⟩
  obtain ⟨z, before, after, hz, hsinks, rfl | hafter⟩ :=
    exists_leads (h.eligible_before hd) hk hn (h.eligible_before hc) hreads
  · exact hz
  · -- The first reader is outside the chains as `d` is, so it still comes before `c`.
    have hzout : z ∉ (foundChains f nl).flatten := fun hmem => hdout (hs.mem_of_leads hz hmem)
    obtain ⟨-, -, -, -, -, -, -, -, heligible, -⟩ := hz
    obtain ⟨second, third, rfl⟩ := List.mem_iff_append.mp hafter
    have hbefore := h.edited.order.before hn hn' (hw'.sinks_nodup k n' hn') hsinks
      (hunmoved z _ hzout) (hunmoved c _ hcout) hsinks'
    exact absurd (h.eligible_after heligible hzout) (hfirst z hbefore)

/-- Packing leaves no chain behind. -/
theorem Packed.foundChains_eq_nil : foundChains f nl' = [] := by
  refine List.eq_nil_iff_forall_not_mem.mpr fun chain hchain => ?_
  have hexact := (hs.edited h.edited).exact
  obtain ⟨x, hx, hcomponent⟩ := hexact.component chain hchain
  have hlong := hexact.long chain hchain
  have hsize := encard_eq_length (hexact.nodup chain hchain) hcomponent
  have hgrown : Component (Leads nl' f.chainIn f.chainOut (Pack.isEligible f)) x ⊆
      Component (Leads nl f.chainIn f.chainOut (Pack.isEligible f)) x :=
    fun _ hy => hy.mono fun _ _ hab => h.leads_before hs hab
  have hlarge : (f.minLength : ENat) ≤
      (Component (Leads nl f.chainIn f.chainOut (Pack.isEligible f)) x).encard := by
    refine le_trans ?_ (Set.encard_le_encard hgrown)
    rw [hsize, Nat.cast_le]
    omega
  obtain ⟨other, ⟨hother, hmem⟩, -⟩ := hs.exact.complete x (h.eligible_before hx) hlarge
  exact h.not_eligible_of_mem (List.mem_flatten.mpr ⟨other, hother, hmem⟩) hx

omit hs h

/-- A run that finds no chain does nothing. -/
theorem packChains_of_foundChains (hnone : foundChains f s.netlist = []) :
    packChains f s = .ok [] s := by
  have hdiscover : discover (Pack.isEligible f) (Pack.navigation f) f.minLength s = .ok [] s := by
    refine bind_ok.mpr ⟨s.netlist, s, rfl, ?_⟩
    have hfound : find s.netlist (Pack.isEligible f) (Pack.navigation f s.netlist) f.minLength = [] :=
      hnone
    rw [hfound]
    rfl
  exact bind_ok.mpr ⟨[], s, hdiscover, rfl⟩

/-- A second run of chain packing finds nothing to pack, says nothing and changes nothing. -/
theorem packChains_idempotent {config : Config} {names names' : Names}
    (hf : Fabric.ofConfig config names = (.ok f, names')) (hs : Directed f s.netlist)
    (h : packChains f s = .ok segments s') : packChains f s' = .ok [] s' := by
  obtain ⟨moved, hpacked⟩ := packed_of_packChains (Fabric.declared_of_config hf) hs h
  exact packChains_of_foundChains (hpacked.foundChains_eq_nil hs)

theorem adder_packed_once : ∃ segments s', packChains Adder.fabric Adder.session = .ok segments s' ∧
    segments ≠ [] ∧ packChains Adder.fabric s' = .ok [] s' := by
  obtain ⟨s', h⟩ := Adder.packs
  exact ⟨_, s', h, nofun, packChains_idempotent Adder.ofConfig_config Adder.packable.directed h⟩

end Chain
end FpgaPacking
