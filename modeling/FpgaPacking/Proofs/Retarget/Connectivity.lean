import FpgaPacking.Proofs.Retarget.Outcome

/-!
# Retargeting keeps connectivity

A net that has been connected to a port of a retargeted cell is connected to the
ports in its place, and to no other port of the cell.  Other cells, the names and
constants of nets and the order of their other readers stay.
-/

namespace FpgaPacking
namespace Retarget

open Netlist

variable {rule : RetargetRule} {names : Names} {id : CellId} {c : Cell} {nl m : Netlist}
  {r r' : PortRef} {k : NetId}

/-- The ports in the place of a port: the new ones if it is a port of the cell. -/
def newRefs (rule : RetargetRule) (names : Names) (id : CellId) (r : PortRef) : List PortRef :=
  if r.cell = id then (newNames rule names r.port).map fun new => ⟨id, new⟩ else [r]

/-- A net has in the place of each of its ports the ports that this has become. -/
structure Rewired (rule : RetargetRule) (names : Names) (id : CellId) (n n' : Net) : Prop where
  driver : n'.driver.toList = n.driver.toList.flatMap (newRefs rule names id)
  sinks : n'.sinks.Perm (n.sinks.flatMap (newRefs rule names id))

theorem newRefs_other (h : r.cell ≠ id) : newRefs rule names id r = [r] := if_neg h

theorem mem_newRefs {old new : Ident} :
    (⟨id, new⟩ : PortRef) ∈ newRefs rule names id ⟨id, old⟩ ↔ new ∈ newNames rule names old := by
  rw [newRefs, if_pos rfl]
  simp

theorem cell_newRefs (h : r' ∈ newRefs rule names id r) : r'.cell = r.cell := by
  unfold newRefs at h
  split at h
  · next hcell =>
    obtain ⟨new, -, rfl⟩ := List.mem_map.mp h
    exact hcell.symm
  · rw [List.mem_singleton.mp h]

/-! ## Ports -/

section

variable (hw : nl.WellFormed) (hc : nl.cell? id = some c)
  (hported : Ported nl id (c.ports.flatMap (newPorts rule names)) m)
include hw hc hported

/-- The ports of a net are those in the place of its former ports, with their directions. -/
theorem wire_iff_of_ported (P : Option Direction → Prop) : m.wire r' = some k ∧ P (m.dir r') ↔
    ∃ r, (nl.wire r = some k ∧ P (nl.dir r)) ∧ r' ∈ newRefs rule names id r := by
  obtain ⟨cell, new⟩ := r'
  by_cases hcell : cell = id
  · -- A port of the cell is a new port, and stands in the place of an old one.
    subst hcell
    obtain ⟨e, he, hports⟩ := hported.ports
    constructor
    · rintro ⟨hwire, hdir⟩
      obtain ⟨q, hq, rfl, hnet, hqdir⟩ := exists_port_of_wire he hwire
      rw [hports] at hq
      obtain ⟨p, hp, hq⟩ := List.mem_flatMap.mp hq
      obtain ⟨new, hnew, rfl⟩ := List.mem_map.mp hq
      obtain ⟨hpwire, hpdir⟩ := hw.port_of_mem hc hp
      refine ⟨⟨cell, p.name⟩, ⟨hpwire.trans hnet, ?_⟩, mem_newRefs.mpr hnew⟩
      rwa [hpdir, ← hqdir]
    · rintro ⟨⟨other, old⟩, ⟨hwire, hdir⟩, hmem⟩
      obtain rfl : cell = other := cell_newRefs hmem
      obtain ⟨p, hp, rfl, hnet, hpdir⟩ := exists_port_of_wire hc hwire
      have hq : { p with name := new } ∈ e.ports := hports ▸
        List.mem_flatMap.mpr ⟨p, hp, List.mem_map_of_mem (mem_newRefs.mp hmem)⟩
      obtain ⟨hqwire, hqdir⟩ := hported.wellFormed.port_of_mem he hq
      exact ⟨hqwire.trans hnet, by rwa [hqdir, ← hpdir]⟩
  · -- Other cells have the ports that they had.
    have hsame := hported.others cell hcell
    have hwire : m.wire ⟨cell, new⟩ = nl.wire ⟨cell, new⟩ := by simp [wire, netOf, hsame]
    have hdir : m.dir ⟨cell, new⟩ = nl.dir ⟨cell, new⟩ := by simp [dir, port?, hsame]
    rw [hwire, hdir]
    constructor
    · intro h
      exact ⟨⟨cell, new⟩, h, by rw [newRefs_other hcell]; exact List.mem_cons_self⟩
    · rintro ⟨r, h, hmem⟩
      have hother : r.cell ≠ id := fun hr => hcell ((cell_newRefs hmem).trans hr)
      rw [newRefs_other hother] at hmem
      exact List.mem_singleton.mp hmem ▸ h

omit hw in
theorem newRefs_inj {k' : NetId} {q : PortRef} (hr : nl.wire r = some k) (hq : nl.wire q = some k')
    (hnewr : r' ∈ newRefs rule names id r) (hnewq : r' ∈ newRefs rule names id q) : r = q := by
  obtain ⟨cell, old⟩ := r
  obtain ⟨cell', old'⟩ := q
  obtain rfl : cell = cell' := (cell_newRefs hnewr).symm.trans (cell_newRefs hnewq)
  by_cases hcell : cell = id
  · subst hcell
    obtain ⟨p, hp, rfl, -⟩ := exists_port_of_wire hc hr
    obtain ⟨p', hp', rfl, -⟩ := exists_port_of_wire hc hq
    obtain ⟨cell', new⟩ := r'
    obtain rfl : cell' = cell := cell_newRefs hnewr
    have hg : (p, new) ∈ replacements rule names c := mem_replacements.mpr ⟨hp, mem_newRefs.mp hnewr⟩
    have hg' : (p', new) ∈ replacements rule names c := mem_replacements.mpr ⟨hp', mem_newRefs.mp hnewq⟩
    obtain ⟨rfl, -⟩ := Prod.mk.inj (List.inj_on_of_nodup_map (nodup_of_ported hported) hg hg' rfl)
    rfl
  · rw [newRefs_other hcell] at hnewr hnewq
    exact (List.mem_singleton.mp hnewr).symm.trans (List.mem_singleton.mp hnewq)

omit hw in
theorem nodup_newRefs {l : List PortRef} (hl : l.Nodup) (hwires : ∀ r ∈ l, nl.wire r = some k) :
    (l.flatMap (newRefs rule names id)).Nodup := by
  refine List.nodup_flatMap.mpr ⟨fun r hr => ?_, hl.imp_of_mem fun {r q} hr hq hne r' hnewr hnewq => ?_⟩
  · obtain ⟨cell, old⟩ := r
    by_cases hcell : cell = id
    · subst hcell
      obtain ⟨p, hp, rfl, -⟩ := exists_port_of_wire hc (hwires _ hr)
      have hnodup := nodup_of_ported hported
      rw [newNames_replacements] at hnodup
      rw [newRefs, if_pos rfl]
      exact ((List.nodup_flatMap.mp hnodup).1 p hp).map fun a b hab => congrArg PortRef.port hab
    · rw [newRefs_other hcell]
      exact List.nodup_singleton _
  · exact hne (newRefs_inj hc hported (hwires r hr) (hwires q hq) hnewr hnewq)

/-! ## Nets -/

/-- Ports that are on a net with some directions become those that are on it with these directions. -/
theorem perm_newRefs {l l' : List PortRef} (P : Option Direction → Prop) (hl : l.Nodup) (hl' : l'.Nodup)
    (hbefore : ∀ r, r ∈ l ↔ nl.wire r = some k ∧ P (nl.dir r))
    (hafter : ∀ r, r ∈ l' ↔ m.wire r = some k ∧ P (m.dir r)) :
    l'.Perm (l.flatMap (newRefs rule names id)) := by
  have hnodup := nodup_newRefs hc hported hl fun r hr => ((hbefore r).mp hr).1
  refine (List.perm_ext_iff_of_nodup hl' hnodup).mpr fun r' => ?_
  rw [hafter, wire_iff_of_ported hw hc hported, List.mem_flatMap]
  exact exists_congr fun r => and_congr_left fun _ => (hbefore r).symm

theorem rewired_of_ported {n : Net} (hn : nl.net? k = some n) :
    ∃ n', m.net? k = some n' ∧ Rewired rule names id n n' := by
  obtain ⟨n', hn'⟩ : ∃ n', m.net? k = some n' := Option.isSome_iff_exists.mp (by
    rw [← tag_isSome, hported.tag, tag_isSome, hn]
    rfl)
  have hbefore := hw.wired
  have hafter := hported.wellFormed.wired
  have hsingle : ∀ driver : Option PortRef, driver.toList.Nodup := fun driver => by cases driver <;> simp
  refine ⟨n', hn', ?_, ?_⟩
  · -- A list with at most one element is known up to order.
    have hperm := perm_newRefs hw hc hported (· = some .output) (hsingle n.driver) (hsingle n'.driver)
      (fun r => Option.mem_toList.trans (hbefore.driver_iff k n r hn))
      (fun r => Option.mem_toList.trans (hafter.driver_iff k n' r hn'))
    cases hdriver : n'.driver with
    | none =>
      rw [hdriver] at hperm
      exact (List.nil_perm.mp hperm).symm
    | some r =>
      rw [hdriver] at hperm
      exact List.singleton_perm.mp hperm
  · exact perm_newRefs hw hc hported (· ≠ some .output) (hbefore.sinks_nodup k n hn)
      (hafter.sinks_nodup k n' hn') (fun r => hbefore.sink_iff k n r hn)
      (fun r => hafter.sink_iff k n' r hn')

end

/-! ## The whole netlist -/

/-- A cell has been retargeted: its new ports are where the old ones have been, its attributes note
what it was, and nothing else has changed. -/
structure Retargeted (rule : RetargetRule) (id : CellId) (c : Cell) (s t : Session) : Prop where
  grows : s.names.Grows t.names
  /-- The new names are those that the rule gives. -/
  texts : ∀ p ∈ c.ports,
    (newNames rule t.names p.name).map t.names.resolve = newTexts rule s.names p.name
  cell : ∃ attrs, Noted rule t.names c attrs ∧ t.netlist.cell? id = some { c with
    cellType := rule.newType
    ports := c.ports.flatMap (newPorts rule t.names)
    params := newParams rule c.params
    attrs := attrs }
  others : ∀ other, other ≠ id → t.netlist.cell? other = s.netlist.cell? other
  /-- The same nets are live, with their names and constants. -/
  tag : t.netlist.tag = s.netlist.tag
  nets : ∀ k n, s.netlist.net? k = some n →
    ∃ n', t.netlist.net? k = some n' ∧ Rewired rule t.names id n n'
  beside : Beside id s.netlist t.netlist

/-- A cell is retargeted exactly if all its new names are distinct and no output that drives a net gets
several, and then it is connected as before. -/
theorem retargetCell_keeps_connectivity {config : Config} {start configured : Names} {rules : RuleSet}
    {source : Ident} {s : Session} (hrules : RuleSet.ofConfig config start = (rules, configured))
    (hrule : rules.find? source = some rule) (hgrows : configured.Grows s.names)
    (hw : s.netlist.WellFormed) (hc : s.netlist.cell? id = some c) (hknown : c.Known s.names) :
    ((∃ t, retargetCell rule id s = .ok () t) ↔ Fits rule s.names c) ∧
      ∀ t, retargetCell rule id s = .ok () t → Retargeted rule id c s t := by
  have hrule := (RuleSet.known_ofConfig hrules hrule).grows hgrows
  refine ⟨retargetCell_ok_iff hw hc hrule hknown, fun t h => ?_⟩
  obtain ⟨hsettled, hported, hcell⟩ := cell_of_retargetCell hw hc hrule hknown h
  exact {
    grows := hsettled.grows
    texts := fun p hp => hsettled.texts hrule hknown.ports hp
    cell := hcell
    others := hported.others
    tag := hported.tag
    nets := fun k n hn => rewired_of_ported hw hc hported hn
    beside := (retargeting_beside rule id s.netlist).keeps_retargetCell.of_ok h (.refl id s.netlist) }

namespace Crossing

/-- A rule that exchanges two names, gives two names to one port and sets the note of the former type. -/
def config : Config where
  chain := none
  boundary := ⟨none, none, none⟩
  lut := .empty
  normalize := ⟨[], [], []⟩
  rules := .ofList [("ADD", ⟨"SLICE", .ofList [("A", "B"), ("B", "A")], .ofList [("CI", ["X", "Y"])],
    .empty, .ofList [("X_ORIG_TYPE", .text "adder")], .empty, .empty⟩)]

def ruleNames : Names where
  entered := #["ADD", "SLICE", "A", "B", "CI", "X", "Y", "X_ORIG_TYPE"]
  nodup := by decide +kernel

def exchange : RetargetRule where
  newType := ⟨1⟩
  portRename := .ofList [(⟨2⟩, ⟨3⟩), (⟨3⟩, ⟨2⟩)]
  portFanoutRename := .ofList [(⟨4⟩, [⟨5⟩, ⟨6⟩])]
  paramRename := .empty
  fixedAttrs := .ofList [(⟨7⟩, .text "adder")]
  fixedParams := .empty
  defaultParams := .empty

theorem ofConfig_config : RuleSet.ofConfig config .empty = (.ofList [(⟨0⟩, exchange)], ruleNames) :=
  Prod.ext (by decide +kernel) (by decide +kernel)

/-- The name of the output has brackets, and another cell reads what it drives. -/
def session : Session := (Session.start ruleNames).after [
  .enterName "S[0]", .createCell ⟨0⟩ "add", .createCell ⟨0⟩ "next",
  .createNet "a", .createNet "b", .createNet "sum",
  .addPort ⟨0⟩ ⟨2⟩ .input, .addPort ⟨0⟩ ⟨3⟩ .input, .addPort ⟨0⟩ ⟨4⟩ .input, .addPort ⟨0⟩ ⟨8⟩ .output,
  .addPort ⟨1⟩ ⟨2⟩ .input, .connect ⟨0⟩ ⟨2⟩ ⟨0⟩, .connect ⟨0⟩ ⟨3⟩ ⟨1⟩, .connect ⟨0⟩ ⟨4⟩ ⟨1⟩,
  .connect ⟨0⟩ ⟨8⟩ ⟨2⟩, .connect ⟨1⟩ ⟨2⟩ ⟨2⟩]

def cell : Cell := { Cell.create ⟨0⟩ "add" with
  ports := [⟨⟨2⟩, .input, some ⟨0⟩⟩, ⟨⟨3⟩, .input, some ⟨1⟩⟩, ⟨⟨4⟩, .input, some ⟨1⟩⟩,
    ⟨⟨8⟩, .output, some ⟨2⟩⟩] }

theorem exchange_keeps_connectivity :
    RuleSet.ofConfig config .empty = (.ofList [(⟨0⟩, exchange)], ruleNames) ∧
      ruleNames.Grows session.names ∧ session.netlist.WellFormed ∧
      session.netlist.cell? ⟨0⟩ = some cell ∧ cell.Known session.names ∧
      ∃ t, retargetCell exchange ⟨0⟩ session = .ok () t ∧ Retargeted exchange ⟨0⟩ cell session t := by
  have hrule : (Table.ofList [((⟨0⟩ : Ident), exchange)]).find? ⟨0⟩ = some exchange := by decide +kernel
  have hgrows : ruleNames.Grows session.names := by
    unfold Names.Grows
    decide +kernel
  have hw : session.netlist.WellFormed := Session.wellFormed_after_of_wellFormed Wired.empty.wellFormed _
  have hc : session.netlist.cell? ⟨0⟩ = some cell := by decide +kernel
  have hknown : cell.Known session.names := by
    constructor <;> unfold Names.Knows <;> decide +kernel
  obtain ⟨hreturns, hretargeted⟩ :=
    retargetCell_keeps_connectivity ofConfig_config hrule hgrows hw hc hknown
  obtain ⟨t, h⟩ := hreturns.mpr ⟨by decide +kernel, by decide +kernel⟩
  exact ⟨ofConfig_config, hgrows, hw, hc, hknown, t, h, hretargeted t h⟩

end Crossing
end Retarget
end FpgaPacking
