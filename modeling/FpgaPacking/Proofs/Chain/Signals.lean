import FpgaPacking.Proofs.Chain.Packed

/-!
# Signals after chain packing

Chain packing puts boundary cells into the netlist and redraws the nets around
them.  What the netlist computes stays: all cells and nets are still there, only
chain inputs of chain cells change their net, and every reader reads what it read
before.  Whoever follows a signal back through boundary cells comes to its origin
after finitely many of them.
-/

namespace FpgaPacking
namespace Chain

open Netlist

variable {f : Fabric} {nl nl' : Netlist} {s s' : Session} {segments : List Segment}

/-- The second cell is the first up to its connections and its cluster. -/
structure SameDevice (c c' : Cell) : Prop where
  name : c'.name = c.name
  cellType : c'.cellType = c.cellType
  ports : c'.ports.map (fun p => (p.name, p.direction)) = c.ports.map fun p => (p.name, p.direction)
  params : c'.params = c.params
  attrs : c'.attrs = c.attrs
  bel : c'.bel = c.bel
  role : c'.role = c.role

theorem SameDevice.of_unwired {c c' : Cell} {m : Membership}
    (h : c'.unwired = { c.unwired with cluster := m }) : SameDevice c c' := by
  have hfield : ∀ {α : Type} (g : Cell → α), g c'.unwired = g { c.unwired with cluster := m } :=
    fun g => congrArg g h
  refine ⟨hfield (·.name), hfield (·.cellType), ?_, hfield (·.params), hfield (·.attrs),
    hfield (·.bel), hfield (·.role)⟩
  rw [← Cell.declared_unwired, ← Cell.declared_unwired (c := c)]
  exact hfield fun d => d.ports.map fun p => (p.name, p.direction)

/-- The second netlist computes what the first does. -/
structure SignalsKept (f : Fabric) (nl nl' : Netlist) : Prop where
  cells : ∀ id c, nl.cell? id = some c → ∃ c', nl'.cell? id = some c' ∧ SameDevice c c'
  nets : ∀ k n, nl.net? k = some n →
    ∃ n', nl'.net? k = some n' ∧ n'.name = n.name ∧ n'.constant = n.constant
  /-- Only the chain inputs of chain cells are taken off their nets. -/
  inputs : ∀ id c p, nl.cell? id = some c → p ∈ c.ports → p.direction ≠ .output →
    ¬(f.isChainCell c ∧ p.name = f.chainIn) → nl'.netOf id p.name = p.net
  /-- Every reader is still connected and reads from the same origin. -/
  origins : ∀ id c p k, nl.cell? id = some c → p ∈ c.ports → p.direction ≠ .output →
    p.net = some k → ∃ k', nl'.netOf id p.name = some k' ∧ ∀ o, Origin f nl k o ↔ Origin f nl' k' o
  /-- The way back to the origin ends. -/
  rooted : ∀ k n, nl'.net? k = some n → ∃! o, Origin f nl' k o

/-- Every cell that packing has moved a reader of is a chain cell, and the reader
is its chain input. -/
theorem Packed.not_moved {chains : List (List CellId)} {moved : List PortRef}
    (h : Packed f nl nl' chains moved segments)
    (hcells : ∀ chain ∈ chains, ∀ id ∈ chain, ∃ c, nl.cell? id = some c ∧ f.isChainCell c)
    {r : PortRef} {c : Cell} (hc : nl.cell? r.cell = some c) (hd : nl.dir r ≠ some .output)
    (hr : ¬(f.isChainCell c ∧ r.port = f.chainIn)) : r ∉ moved := by
  intro hm
  obtain ⟨chain, hchain, ⟨hport, hmem⟩ | ⟨-, hout, -⟩⟩ := h.movable r hm
  · obtain ⟨d, hd', hchaincell⟩ := hcells chain hchain r.cell hmem
    obtain rfl := Option.some.inj (hc.symm.trans hd')
    exact hr ⟨hchaincell, hport⟩
  · exact hd hout

/-- Chain packing keeps all signals. -/
theorem packChains_keeps_signals {config : Config} {names names' : Names}
    (hf : Fabric.ofConfig config names = (.ok f, names')) (hs : Packable f s.netlist)
    (h : packChains f s = .ok segments s') : SignalsKept f s.netlist s'.netlist := by
  obtain ⟨chains, moved, hpacked, hcells⟩ := packChains_ok (Fabric.declared_of_config hf) hs h
  have hw := hs.wellFormed
  have hw' := hpacked.edited.wellFormed
  have hroot : Rooted f s'.netlist := hpacked.origins.rooted (rooted_of_normal hw hs.normal)
  have hbare : ∀ id c, s.netlist.cell? id = some c → s.netlist.bare id = some c.unwired :=
    fun _ _ hc => congrArg (Option.map Cell.unwired) hc
  refine ⟨?_, ?_, ?_, ?_, ?_⟩
  · intro id c hc
    obtain ⟨m, hm⟩ := hpacked.edited.cells id _ (hbare id c hc)
    obtain ⟨c', hc', hunwired⟩ := Option.map_eq_some_iff.mp hm
    exact ⟨c', hc', .of_unwired hunwired⟩
  · intro k n hn
    have htag : s.netlist.tag k = some (n.name, n.constant) := by simp [tag, hn]
    obtain ⟨n', hn', hsame⟩ := Option.map_eq_some_iff.mp (hpacked.edited.nets k _ htag)
    exact ⟨n', hn', congrArg Prod.fst hsame, congrArg Prod.snd hsame⟩
  · intro id c p hc hp hd hchain
    obtain ⟨hwire, hdir⟩ := hw.port_of_mem hc hp
    have hstill := hpacked.edited.still ⟨id, p.name⟩
      (hpacked.not_moved hcells hc (by simp [hdir, hd]) hchain) (by simp [hbare id c hc])
    exact hstill.trans hwire
  · intro id c p k hc hp hd hk
    obtain ⟨hwire, hdir⟩ := hw.port_of_mem hc hp
    obtain ⟨o, ho⟩ := rooted_of_normal hw hs.normal k (hw.wired.tag_isSome_of_wire (hwire.trans hk))
    obtain ⟨k', hk', ho'⟩ := hpacked.origins.readers ⟨id, p.name⟩ k o (hwire.trans hk)
      (by simp [hdir, hd]) ho
    refine ⟨k', hk', fun o₁ => ?_⟩
    constructor
    · intro h₁
      rw [h₁.unique ho]
      exact ho'
    · intro h₁
      rw [h₁.unique ho']
      exact ho
  · intro k n hn
    obtain ⟨o, ho⟩ := hroot k (by simp [tag, hn])
    exact ⟨o, ho, fun o' ho' => ho'.unique ho⟩

theorem adder_keeps_signals : ∃ segments s', packChains Adder.fabric Adder.session = .ok segments s' ∧
    SignalsKept Adder.fabric Adder.session.netlist s'.netlist := by
  obtain ⟨s', h⟩ := Adder.packs
  exact ⟨_, s', h, packChains_keeps_signals Adder.ofConfig_config Adder.packable h⟩

end Chain
end FpgaPacking
