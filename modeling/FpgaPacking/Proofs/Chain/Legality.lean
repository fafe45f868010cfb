import FpgaPacking.Proofs.Chain.Packed

/-!
# Legal segments

The fabric joins neighbours of a segment by wires of its own, which reach nothing
but the next cell.  So a net between neighbours may have no other reader, a chain
cell that starts a segment may not wait for a signal on its chain input, and the
chain output of one that ends a segment may not be read.
-/

namespace FpgaPacking
namespace Chain

open Netlist

variable {f : Fabric} {nl : Netlist} {s s' : Session} {segments : List Segment}

/-- The members of a segment can be placed next to each other. -/
structure Legal (f : Fabric) (nl : Netlist) (members : List CellId) : Prop where
  live : ∀ id ∈ members, (nl.cell? id).isSome
  /-- The net between neighbours goes from one to the other and nowhere else. -/
  exclusive : ∀ a b, [a, b] <:+: members → ∃ ca cb output input k n,
    nl.cell? a = some ca ∧ nl.cell? b = some cb ∧
      chainSideOutput f ca.role = some output ∧ chainSideInput f cb.role = some input ∧
      nl.netOf a output = some k ∧ nl.net? k = some n ∧
      n.driver = some ⟨a, output⟩ ∧ n.sinks = [⟨b, input⟩]
  /-- A chain cell at the head reads a constant or nothing on its chain input. -/
  head : ∀ id c k n, members.head? = some id → nl.cell? id = some c → c.role = .normal →
    nl.netOf id f.chainIn = some k → nl.net? k = some n → n.driver = none
  /-- The chain output of a chain cell at the end is not read. -/
  last : ∀ id c k n, members.getLast? = some id → nl.cell? id = some c → c.role = .normal →
    nl.netOf id f.chainOut = some k → nl.net? k = some n → n.sinks = []

theorem Linked.net (hw : nl.WellFormed) {r t : PortRef} (h : Linked nl r t) :
    ∃ k n, nl.wire r = some k ∧ nl.net? k = some n ∧ n.driver = some r ∧ n.sinks = [t] := by
  obtain ⟨k, hr, hdr, ht, hdt, honly⟩ := h
  obtain ⟨n, hn⟩ := Option.isSome_iff_exists.mp (hw.wired.wire_live r k hr)
  refine ⟨k, n, hr, hn, (hw.wired.driver_iff k n r hn).mpr ⟨hr, hdr⟩, ?_⟩
  have hmem : ∀ q, q ∈ n.sinks ↔ q = t := by
    intro q
    rw [hw.wired.sink_iff k n q hn]
    constructor
    · rintro ⟨hq, hd⟩
      exact honly q hq hd
    · rintro rfl
      exact ⟨ht, hdt⟩
  have hperm : n.sinks.Perm [t] :=
    (List.perm_ext_iff_of_nodup (hw.sinks_nodup k n hn) (List.nodup_singleton t)).mpr fun q => by
      rw [hmem, List.mem_singleton]
  exact List.perm_singleton.mp hperm

theorem Sound.legal {chain members : List CellId} (hw : nl.WellFormed)
    (h : Sound f nl chain members) : Legal f nl members := by
  have hbare : ∀ id c, nl.cell? id = some c → nl.bare id = some c.unwired :=
    fun _ _ hc => congrArg (Option.map Cell.unwired) hc
  refine ⟨fun id hid => bare_isSome ▸ h.live id hid, ?_, ?_, ?_⟩
  · intro a b hab
    obtain ⟨before, after, rfl⟩ := hab
    have hjoined : Joined f nl a b := by
      have hchain := h.joined
      rw [List.append_assoc] at hchain
      exact (List.isChain_cons_cons.mp hchain.right_of_append).1
    obtain ⟨ca, cb, output, input, hca, hcb, hout, hin, hlinked⟩ := hjoined
    obtain ⟨da, hda, rfl⟩ := Option.map_eq_some_iff.mp hca
    obtain ⟨db, hdb, rfl⟩ := Option.map_eq_some_iff.mp hcb
    obtain ⟨k, n, hk, hn, hdriver, hsinks⟩ := hlinked.net hw
    exact ⟨da, db, output, input, k, n, hda, hdb, hout, hin, hk, hn, hdriver, hsinks⟩
  · intro id c k n hid hc hrole hk hn
    have hunfed := h.head id c.unwired hid (hbare id c hc) hrole
    cases hdriver : n.driver with
    | none => rfl
    | some q =>
      obtain ⟨hq, hd⟩ := (hw.wired.driver_iff k n q hn).mp hdriver
      exact absurd hd (hunfed k q hk hq)
  · intro id c k n hid hc hrole hk hn
    have hunread := h.last id c.unwired hid (hbare id c hc) hrole
    refine List.eq_nil_iff_forall_not_mem.mpr fun q hq => ?_
    obtain ⟨hqk, hd⟩ := (hw.wired.sink_iff k n q hn).mp hq
    exact hd (hunread k q hk hqk)

/-- Chain packing makes legal segments. -/
theorem packChains_segments_legal {config : Config} {names names' : Names}
    (hf : Fabric.ofConfig config names = (.ok f, names')) (hs : Packable f s.netlist)
    (h : packChains f s = .ok segments s') : ∀ t ∈ segments, Legal f s'.netlist t.members := by
  obtain ⟨chains, moved, hpacked, -⟩ := packChains_ok (Fabric.declared_of_config hf) hs h
  intro t ht
  obtain ⟨chain, -, hsound⟩ := hpacked.sound t ht
  exact hsound.legal hpacked.edited.wellFormed

theorem adder_segments_legal : ∃ segments s', packChains Adder.fabric Adder.session = .ok segments s' ∧
    ∀ t ∈ segments, Legal Adder.fabric s'.netlist t.members := by
  obtain ⟨s', h⟩ := Adder.packs
  exact ⟨_, s', h, packChains_segments_legal Adder.ofConfig_config Adder.packable h⟩

end Chain
end FpgaPacking
