import FpgaPacking.Fabric.Template
import FpgaPacking.Proofs.Netlist.Preservation

/-!
# Regular runs of operations, seen through the views

What an operation that ends regularly does to the wires, the bare cells and the
tags of a well-formed netlist.  Connecting and disconnecting change one wire;
creation adds one cell or one tag and connects nothing.
-/

namespace FpgaPacking
namespace Netlist

variable {nl : Netlist} {r : PortRef} {k : NetId} {id : CellId}

/-! ## Views of what is not there -/

theorem bare_eq_none : nl.bare id = none ↔ nl.cell? id = none := by simp [bare]

theorem tag_eq_none : nl.tag k = none ↔ nl.net? k = none := by simp [tag]

theorem bare_nextCell : nl.bare nl.nextCell = none := bare_eq_none.mpr cell?_nextCell

theorem tag_nextNet : nl.tag nl.nextNet = none := tag_eq_none.mpr net?_nextNet

theorem wire_eq_none_of_bare (h : nl.bare r.cell = none) : nl.wire r = none := by
  rw [wire_eq, port?, bare_eq_none.mp h]
  rfl

theorem dir_eq_none_of_bare (h : nl.bare r.cell = none) : nl.dir r = none := by
  rw [dir, port?, bare_eq_none.mp h]
  rfl

theorem dir_isSome_of_wire (h : nl.wire r = some k) : (nl.dir r).isSome := by
  obtain ⟨p, hp, -⟩ := wire_eq_some.mp h
  simp [dir, hp]

theorem bare_isSome_of_wire (h : nl.wire r = some k) : (nl.bare r.cell).isSome := by
  cases hb : nl.bare r.cell with
  | some c => rfl
  | none =>
    rw [wire_eq_none_of_bare hb] at h
    cases h

theorem Wired.tag_isSome_of_wire (hw : nl.Wired) (h : nl.wire r = some k) : (nl.tag k).isSome := by
  rw [tag_isSome]
  exact hw.wire_live r k h

theorem Wired.wire_ne_of_tag (hw : nl.Wired) (h : nl.tag k = none) : nl.wire r ≠ some k := by
  intro hr
  have := hw.tag_isSome_of_wire hr
  simp [h] at this

/-! ## Creation -/

theorem bare_addCell {c : Cell} :
    (nl.addCell c).bare = Function.update nl.bare nl.nextCell (some c.unwired) := by
  funext id
  unfold bare
  rw [cell?_addCell]
  by_cases h : id = nl.nextCell
  · subst h
    rw [if_pos rfl, Function.update_self]
    rfl
  · rw [if_neg h, Function.update_of_ne h]

theorem tag_addNet {n : Net} :
    (nl.addNet n).tag = Function.update nl.tag nl.nextNet (some (n.name, n.constant)) := by
  funext k
  unfold tag
  rw [net?_addNet]
  by_cases h : k = nl.nextNet
  · subst h
    rw [if_pos rfl, Function.update_self]
    rfl
  · rw [if_neg h, Function.update_of_ne h]

theorem wire_addCell {c : Cell} (hc : c.ports = []) : (nl.addCell c).wire = nl.wire := by
  funext r
  rw [wire_eq, wire_eq, port?, port?, cell?_addCell]
  by_cases h : r.cell = nl.nextCell
  · rw [if_pos h, h, cell?_nextCell]
    simp [Cell.port?, hc]
  · rw [if_neg h]

end Netlist

namespace Edit

open Netlist

variable {names : Names} {nl nl' : Netlist} {id : CellId} {port : Ident} {k : NetId}

/-- An edit keeps an invariant on regular runs in particular. -/
theorem Keeps.of_ok {α : Type} {I : Netlist → Prop} {x : Edit α} {a : α} (hx : Keeps I x)
    (h : x names nl = .ok a nl') (hI : I nl) : I nl' :=
  (hx names).of_ok h hI

/-! ## Lookups and names -/

theorem cell_ok {c : Cell} (h : cell id names nl = .ok c nl') : nl.cell? id = some c ∧ nl' = nl := by
  rcases cell_cases names with ⟨e, -, hrun⟩ | ⟨d, hd, hrun⟩
  · rw [hrun] at h
    cases h
  · rw [hrun] at h
    cases h
    exact ⟨hd, rfl⟩

theorem cellChecked_ok {c : Cell} (h : cellChecked id names nl = .ok c nl') :
    nl.cell? id = some c ∧ nl' = nl := by
  rcases cellChecked_cases names with ⟨e, -, hrun⟩ | ⟨d, hd, hrun⟩
  · rw [hrun] at h
    cases h
  · rw [hrun] at h
    cases h
    exact ⟨hd, rfl⟩

theorem net_ok {n : Net} (h : net k names nl = .ok n nl') : nl.net? k = some n ∧ nl' = nl := by
  rcases net_cases names with ⟨e, -, hrun⟩ | ⟨m, hm, hrun⟩
  · rw [hrun] at h
    cases h
  · rw [hrun] at h
    cases h
    exact ⟨hm, rfl⟩

/-- A fresh name changes nothing but the counter. -/
theorem uniqueName_ok {base name : String} (h : uniqueName base names nl = .ok name nl') :
    nl'.wire = nl.wire ∧ nl'.bare = nl.bare ∧ nl'.tag = nl.tag := by
  cases h
  exact ⟨rfl, rfl, rfl⟩

/-! ## Connections -/

/-- Connecting puts the port on the net.  It was on no net, or on that one. -/
theorem connect_ok {u : Unit} (hw : nl.WellFormed) (h : connect id port k names nl = .ok u nl') :
    nl'.WellFormed ∧ nl'.wire = Function.update nl.wire ⟨id, port⟩ (some k) ∧
      nl'.bare = nl.bare ∧ nl'.tag = nl.tag ∧
      (nl.wire ⟨id, port⟩ = none ∨ nl.wire ⟨id, port⟩ = some k) := by
  have hkept : nl'.WellFormed := keeps_connect.of_ok h hw
  rcases connect_cases names with ⟨e, hrun⟩ |
    ⟨p, hp, ⟨hnet, hrun⟩ | ⟨hnet, n, hn, -, hrun⟩⟩
  · rw [hrun] at h
    cases h
  · rw [hrun] at h
    cases h
    have hwire : nl.wire ⟨id, port⟩ = some k := wire_eq_some.mpr ⟨p, hp, hnet⟩
    exact ⟨hkept, (Function.update_eq_self_iff.mpr hwire.symm).symm, rfl, rfl, Or.inr hwire⟩
  · rw [hrun] at h
    cases h
    have hwire : nl.wire ⟨id, port⟩ = none := by simp [wire_eq, hp, hnet]
    exact ⟨hkept, wire_attach (by simp [hp]), bare_attach, tag_attach, Or.inl hwire⟩

/-- Disconnecting returns the net the port was on. -/
theorem disconnect_ok {onNet : Option NetId} (hw : nl.WellFormed)
    (h : disconnect id port names nl = .ok onNet nl') :
    nl'.WellFormed ∧ nl'.wire = Function.update nl.wire ⟨id, port⟩ none ∧
      nl'.bare = nl.bare ∧ nl'.tag = nl.tag ∧ nl.wire ⟨id, port⟩ = onNet := by
  have hkept : nl'.WellFormed := keeps_disconnect.of_ok h hw
  rcases disconnect_cases names with ⟨e, hrun⟩ |
    ⟨p, hp, ⟨hnet, hrun⟩ | ⟨k, n, hnet, hn, hrun⟩⟩
  · rw [hrun] at h
    cases h
  · rw [hrun] at h
    cases h
    have hwire : nl.wire ⟨id, port⟩ = none := by simp [wire_eq, hp, hnet]
    exact ⟨hkept, (Function.update_eq_self_iff.mpr hwire.symm).symm, rfl, rfl, hwire⟩
  · rw [hrun] at h
    cases h
    have hwire : nl.wire ⟨id, port⟩ = some k := wire_eq_some.mpr ⟨p, hp, hnet⟩
    exact ⟨hkept, wire_detach (by simp [hp]), bare_detach, tag_detach, hwire⟩

/-- Connections leave the queue and the handles alone. -/
theorem connect_frame {u : Unit} (h : connect id port k names nl = .ok u nl') :
    nl'.queue = nl.queue ∧ nl'.nextNet = nl.nextNet := by
  rcases connect_cases names with ⟨e, hrun⟩ | ⟨p, -, ⟨-, hrun⟩ | ⟨-, n, -, -, hrun⟩⟩
  · rw [hrun] at h
    cases h
  · rw [hrun] at h
    cases h
    exact ⟨rfl, rfl⟩
  · rw [hrun] at h
    cases h
    exact ⟨rfl, nextNet_mapNet⟩

theorem disconnect_frame {onNet : Option NetId}
    (h : disconnect id port names nl = .ok onNet nl') :
    nl'.queue = nl.queue ∧ nl'.nextNet = nl.nextNet := by
  rcases disconnect_cases names with ⟨e, hrun⟩ | ⟨p, -, ⟨-, hrun⟩ | ⟨k, n, -, -, hrun⟩⟩
  · rw [hrun] at h
    cases h
  · rw [hrun] at h
    cases h
    exact ⟨rfl, rfl⟩
  · rw [hrun] at h
    cases h
    exact ⟨rfl, nextNet_mapNet⟩

theorem updateCell_frame {f : Cell → Cell} {u : Unit}
    (h : updateCell id f names nl = .ok u nl') :
    nl'.queue = nl.queue ∧ nl'.nextNet = nl.nextNet := by
  rcases updateCell_cases names with ⟨e, hrun⟩ | ⟨c, -, hrun⟩
  · rw [hrun] at h
    cases h
  · rw [hrun] at h
    cases h
    exact ⟨rfl, rfl⟩

/-! ## Constant nets and removal -/

/-- The constant net of a value is there afterwards; if it is new, so is its handle. -/
theorem constantNet_ok {v : ConstValue} (hw : nl.WellFormed)
    (h : constantNet v names nl = .ok k nl') :
    nl'.WellFormed ∧ nl'.wire = nl.wire ∧ nl'.bare = nl.bare ∧ nl'.queue = nl.queue ∧
      nl.nextNet.index ≤ nl'.nextNet.index ∧ nl'.constValue k = some v ∧
      (nl' = nl ∨ k = nl.nextNet ∧ nl'.tag = Function.update nl.tag k (some (v.netName, some v))) := by
  have hkept : nl'.WellFormed := (keeps_constantNet v).of_ok h hw
  rcases constantNet_cases names with ⟨k', hv, hrun⟩ | ⟨hv, hrun⟩
  · rw [hrun] at h
    cases h
    exact ⟨hkept, rfl, rfl, rfl, Nat.le_refl _, (hw.constant_recorded v k).mpr hv, Or.inl rfl⟩
  · rw [hrun] at h
    cases h
    have htag : ((nl.addNet (.createConstant v)).recordConstant v nl.nextNet).tag =
        Function.update nl.tag nl.nextNet (some (v.netName, some v)) := by
      cases v <;> exact tag_addNet
    refine ⟨hkept, ?_, ?_, ?_, ?_, ?_, Or.inr ⟨rfl, htag⟩⟩
    · cases v <;> rfl
    · cases v <;> rfl
    · cases v <;> rfl
    · rw [nextNet_recordConstant, nextNet_addNet]
      exact Nat.le_succ _
    · rw [constValue_eq, htag, Function.update_self]
      rfl

/-- Only a net that no port is on is removed. -/
theorem removeNet_ok {n : Net} (hw : nl.WellFormed) (h : removeNet k names nl = .ok n nl') :
    nl'.WellFormed ∧ nl'.wire = nl.wire ∧ nl'.bare = nl.bare ∧ nl'.queue = nl.queue ∧
      nl'.nextNet = nl.nextNet ∧ nl'.tag = Function.update nl.tag k none := by
  have hkept : nl'.WellFormed := keeps_removeNet.of_ok h hw
  rcases removeNet_cases names with ⟨e, hrun⟩ | ⟨m, hm, hdriver, hsinks, hrun⟩
  · rw [hrun] at h
    cases h
  · rw [hrun] at h
    cases h
    refine ⟨hkept, rfl, rfl, rfl, nextNet_dropNet, ?_⟩
    funext k'
    unfold tag
    rw [net?_dropNet]
    by_cases hk : k' = k
    · rw [if_pos hk, hk, Function.update_self]
      rfl
    · rw [if_neg hk, Function.update_of_ne hk]

/-- Only a cell without connections is removed. -/
theorem removeCell_ok {c : Cell} (hw : nl.WellFormed) (h : removeCell id names nl = .ok c nl') :
    nl'.WellFormed ∧ nl'.wire = nl.wire ∧ nl'.bare = Function.update nl.bare id none ∧
      nl'.tag = nl.tag ∧ nl'.queue = nl.queue.erase id ∧ nl'.nextNet = nl.nextNet := by
  have hkept : nl'.WellFormed := keeps_removeCell.of_ok h hw
  rcases removeCell_cases names with ⟨e, hrun⟩ | ⟨d, hd, hfree, -, hrun⟩
  · rw [hrun] at h
    cases h
  · rw [hrun] at h
    cases h
    refine ⟨hkept, ?_, ?_, rfl, rfl, rfl⟩
    · funext r
      rw [wire_eq, wire_eq, port?, port?, cell?_dropCell]
      by_cases hr : r.cell = id
      · rw [if_pos hr, hr, hd]
        show none = (c.port? r.port).bind (·.net)
        cases hp : c.port? r.port with
        | none => rfl
        | some p => exact (hfree p (Cell.mem_ports_of_port? hp)).symm
      · rw [if_neg hr]
    · funext other
      unfold bare
      rw [cell?_dropCell]
      by_cases ho : other = id
      · rw [if_pos ho, ho, Function.update_self]
        rfl
      · rw [if_neg ho, Function.update_of_ne ho]

/-- Queueing a cell changes the queue only, and takes nothing out of it.  A live cell is queued. -/
theorem markForRemoval_ok {u : Unit} (hw : nl.WellFormed)
    (h : markForRemoval id names nl = .ok u nl') :
    nl'.WellFormed ∧ nl'.wire = nl.wire ∧ nl'.bare = nl.bare ∧ nl'.tag = nl.tag ∧
      nl'.nextNet = nl.nextNet ∧
      (∀ other, nl'.isMarked other = true → nl.isMarked other = true ∨ other = id) ∧
      (∀ other, nl.isMarked other = true → nl'.isMarked other = true) ∧
      ((nl.bare id).isSome → nl'.isMarked id = true) := by
  have hkept : nl'.WellFormed := keeps_markForRemoval.of_ok h hw
  have hrun : nl' = if nl.cells.contains id then { nl with queue := nl.queue.add id } else nl := by
    cases h
    rfl
  rw [hrun] at hkept ⊢
  split at hkept
  · next hlive =>
    have hmarked : ∀ other, ({ nl with queue := nl.queue.add id } : Netlist).isMarked other =
        (other == id || nl.isMarked other) := by
      intro other
      unfold isMarked Keys.add Table.contains
      rw [Table.find?_insert]
      cases other == id <;> rfl
    rw [if_pos hlive]
    refine ⟨hkept, rfl, rfl, rfl, rfl, fun other hother => ?_, fun other hother => ?_, fun _ => ?_⟩
    · rw [hmarked, Bool.or_eq_true, beq_iff_eq] at hother
      exact hother.symm
    · rw [hmarked, hother, Bool.or_true]
    · rw [hmarked, beq_self_eq_true, Bool.true_or]
  · next hlive =>
    rw [if_neg hlive]
    refine ⟨hkept, rfl, rfl, rfl, rfl, fun _ hother => Or.inl hother, fun _ hother => hother, ?_⟩
    intro hsome
    rw [bare_isSome] at hsome
    exact absurd hsome hlive

/-! ## Instances of templates -/

theorem createCell_ok {cellType : Ident} {name : String}
    (h : createCell cellType name names nl = .ok id nl') :
    id = nl.nextCell ∧ nl' = nl.addCell (.create cellType name) := by
  cases h
  exact ⟨rfl, rfl⟩

theorem createNet_ok {name : String} (hw : nl.WellFormed) (h : createNet name names nl = .ok k nl') :
    nl'.WellFormed ∧ nl'.wire = nl.wire ∧ nl'.bare = nl.bare ∧ k = nl.nextNet ∧
      nl'.tag = Function.update nl.tag k (some (name, none)) := by
  have hkept : nl'.WellFormed := (keeps_createNet name).of_ok h hw
  cases h
  exact ⟨hkept, rfl, rfl, rfl, tag_addNet⟩

/-- Adding a port connects nothing, and the port is there afterwards with its direction. -/
theorem addPort_ok {direction : Direction} {u : Unit} (hw : nl.WellFormed)
    (h : addPort id port direction names nl = .ok u nl') :
    nl'.WellFormed ∧ nl'.wire = nl.wire ∧ nl'.tag = nl.tag ∧
      (∃ c c', nl.bare id = some c ∧ nl'.bare = Function.update nl.bare id (some c') ∧
        c'.role = c.role ∧
        (c'.port? port).map (·.direction) = some direction ∧
        ∀ name d, (c.port? name).map (·.direction) = some d →
          (c'.port? name).map (·.direction) = some d) := by
  have hkept : nl'.WellFormed := (keeps_addPort direction).of_ok h hw
  rcases addPort_cases names with
    ⟨e, hrun⟩ | ⟨c, hc, ⟨⟨p, hp, hd⟩, hrun⟩ | ⟨hnew, hrun⟩⟩
  · rw [hrun] at h
    cases h
  · rw [hrun] at h
    cases h
    have hbare : nl.bare id = some c.unwired := by simp [bare, hc]
    refine ⟨hkept, rfl, rfl, c.unwired, c.unwired, hbare,
      (Function.update_eq_self_iff.mpr hbare.symm).symm, rfl, ?_, fun _ _ hname => hname⟩
    rw [Cell.port?_unwired, hp]
    exact congrArg some hd
  · rw [hrun] at h
    cases h
    have hbare : nl.bare id = some c.unwired := by simp [bare, hc]
    refine ⟨hkept, ?_, rfl, c.unwired, (c.addPort ⟨port, direction, none⟩).unwired, hbare, ?_, rfl, ?_, ?_⟩
    · funext r
      rw [wire_eq, wire_eq, port?_mapCell]
      split
      · next hr =>
        rw [hc, port?, hr, hc]
        show ((c.addPort _).port? r.port).bind _ = (c.port? r.port).bind _
        rw [Cell.port?_addPort hnew]
        split
        · next hport => rw [hport, hnew]; rfl
        · rfl
      · rfl
    · funext other
      unfold bare
      rw [cell?_mapCell]
      by_cases ho : other = id
      · subst ho
        rw [if_pos rfl, Function.update_self, hc]
        rfl
      · rw [if_neg ho, Function.update_of_ne ho]
    · rw [Cell.port?_unwired, Cell.port?_addPort hnew, if_pos rfl]
      rfl
    · intro name d hname
      rw [Cell.port?_unwired] at hname ⊢
      have hne : name ≠ port := by
        rintro rfl
        simp [hnew] at hname
      rw [Cell.port?_addPort hnew, if_neg hne]
      exact hname

/-- A change of a cell that leaves its ports alone. -/
theorem updateCell_ok {f : Cell → Cell} {u : Unit} (hw : nl.WellFormed)
    (h : updateCell id f names nl = .ok u nl') (hf : ∀ c, (f c).ports = c.ports) :
    nl'.WellFormed ∧ nl'.wire = nl.wire ∧ nl'.tag = nl.tag ∧
      ∃ c, nl.cell? id = some c ∧ nl'.bare = Function.update nl.bare id (some (f c).unwired) := by
  have hkept : nl'.WellFormed := (keeps_updateCell hf).of_ok h hw
  rcases updateCell_cases names with ⟨e, hrun⟩ | ⟨c, hc, hrun⟩
  · rw [hrun] at h
    cases h
  · rw [hrun] at h
    cases h
    refine ⟨hkept, ?_, rfl, c, hc, ?_⟩
    · funext r
      rw [wire_eq, wire_eq, port?_mapCell]
      split
      · next hr =>
        rw [port?, hr, hc]
        show ((f c).ports.find? _).bind _ = (c.ports.find? _).bind _
        rw [hf]
      · rfl
    · funext other
      unfold bare
      rw [cell?_mapCell]
      by_cases ho : other = id
      · rw [if_pos ho, ho, Function.update_self, hc]
        rfl
      · rw [if_neg ho, Function.update_of_ne ho]

/-- While a new cell gets its ports: those that are not left have been added. -/
structure PortsAdded (nl : Netlist) (ports rest : List (Ident × Direction)) (m : Netlist) :
    Prop where
  wellFormed : m.WellFormed
  wire : m.wire = nl.wire
  tag : m.tag = nl.tag
  added : ∃ c, m.bare = Function.update nl.bare nl.nextCell (some c) ∧
    ∀ p ∈ ports, p ∈ rest ∨ (c.port? p.1).map (·.direction) = some p.2

theorem PortsAdded.step {ports rest : List (Ident × Direction)} {p : Ident × Direction}
    {m m' : Netlist} {u : Unit} (h : PortsAdded nl ports (p :: rest) m)
    (hadd : addPort nl.nextCell p.1 p.2 names m = .ok u m') : PortsAdded nl ports rest m' := by
  obtain ⟨c, hbare, hdone⟩ := h.added
  obtain ⟨hw', hwire', htag', d, d', hd, hbare', -, hnew, hold⟩ := addPort_ok h.wellFormed hadd
  have hcd : c = d := by
    have hself : m.bare nl.nextCell = some c := by rw [hbare, Function.update_self]
    exact Option.some.inj (hself.symm.trans hd)
  subst hcd
  refine ⟨hw', hwire'.trans h.wire, htag'.trans h.tag, d', ?_, ?_⟩
  · rw [hbare', hbare]
    exact Function.update_idem _ _ _
  · intro q hq
    rcases hdone q hq with hmem | hdir
    · rcases List.mem_cons.mp hmem with rfl | hmem
      · exact Or.inr hnew
      · exact Or.inl hmem
    · exact Or.inr (hold _ _ hdir)

/-- An instance is a new cell with the ports of its template. -/
theorem instantiate_ok {t : CellTemplate} {name : String} (hw : nl.WellFormed)
    (h : t.instantiate name names nl = .ok id nl') :
    nl'.WellFormed ∧ nl'.wire = nl.wire ∧ nl'.tag = nl.tag ∧ id = nl.nextCell ∧
      ∃ c, nl'.bare = Function.update nl.bare id (some c) ∧
        ∀ p ∈ t.ports, (c.port? p.1).map (·.direction) = some p.2 := by
  unfold CellTemplate.instantiate at h
  obtain ⟨new, nl₁, hcreate, h⟩ := bind_ok.mp h
  obtain ⟨_, nl₂, hports, h⟩ := bind_ok.mp h
  obtain ⟨_, nl₃, hparams, h⟩ := bind_ok.mp h
  obtain ⟨rfl, rfl⟩ := pure_ok.mp h
  have hw₁ : nl₁.WellFormed := (keeps_createCell t.cellType name).of_ok hcreate hw
  obtain ⟨rfl, rfl⟩ := createCell_ok hcreate
  have hstart : PortsAdded nl t.ports t.ports (nl.addCell (.create t.cellType name)) :=
    ⟨hw₁, wire_addCell rfl, rfl, _, bare_addCell, fun p hp => Or.inl hp⟩
  have hend : PortsAdded nl t.ports [] nl₂ :=
    forM_ok (PortsAdded nl t.ports) (fun _ _ _ _ _ hpart hadd => hpart.step hadd) hstart hports
  obtain ⟨c, hbare₂, hdone⟩ := hend.added
  obtain ⟨hw₃, hwire₃, htag₃, c', hc', hbare₃⟩ := updateCell_ok hend.wellFormed hparams fun _ => rfl
  refine ⟨hw₃, hwire₃.trans hend.wire, htag₃.trans hend.tag, rfl,
    ({ c' with params := t.params } : Cell).unwired, ?_, ?_⟩
  · rw [hbare₃, hbare₂]
    exact Function.update_idem _ _ _
  · intro p hp
    have hc : c'.unwired = c := by
      have hself : nl₂.bare nl.nextCell = some c := by rw [hbare₂, Function.update_self]
      have hbare : nl₂.bare nl.nextCell = some c'.unwired := bare_of_cell? hc'
      exact Option.some.inj (hbare.symm.trans hself)
    rcases hdone p hp with hmem | hdir
    · cases hmem
    · rw [← hc] at hdir
      exact hdir

end Edit
end FpgaPacking
