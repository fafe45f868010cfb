import FpgaPacking.Proofs.Failures
import FpgaPacking.Proofs.Netlist.Progress
import FpgaPacking.Proofs.Structural

/-!
# Replacing the ports of a cell

Retargeting takes all ports off a cell and then adds the new ones.  `Ported` says
which ports the cell has in the middle of this, and that nothing else but the nets
has changed.  No port can fail to be taken off.  A new port can be added unless its
name is taken, and it can be put on the net of the old one unless it drives a net
that another of the new ports drives already: what other cells do on the net they
did before.
-/

namespace FpgaPacking

/-- The ports do not both drive one net. -/
def Port.Apart (p q : Port) : Prop :=
  ∀ k, p.net = some k → q.net = some k → p.direction = .output → q.direction ≠ .output

namespace Retarget

open Netlist

variable {nl m : Netlist} {id : CellId} {c : Cell} {p : Port} {ports done rest : List Port}
  {names : Names} {k : NetId} {s : Session} {new : Ident}

/-- The cell has the given ports.  Other cells, and the names and constants of nets, are those of the
first netlist. -/
structure Ported (nl : Netlist) (id : CellId) (ports : List Port) (m : Netlist) : Prop where
  wellFormed : m.WellFormed
  ports : ∃ c, m.cell? id = some c ∧ c.ports = ports
  others : ∀ other, other ≠ id → m.cell? other = nl.cell? other
  tag : m.tag = nl.tag

namespace Ported

theorem refl (hw : nl.WellFormed) (hc : nl.cell? id = some c) : Ported nl id c.ports nl where
  wellFormed := hw
  ports := ⟨c, hc, rfl⟩
  others _ _ := rfl
  tag := rfl

theorem live (h : Ported nl id ports m) : (m.bare id).isSome := by
  obtain ⟨c, hc, -⟩ := h.ports
  rw [bare_of_cell? hc]
  rfl

theorem nodup (h : Ported nl id ports m) : (ports.map (·.name)).Nodup := by
  obtain ⟨c, hc, rfl⟩ := h.ports
  exact h.wellFormed.port_names id c hc

/-- A port of the cell is found under its name. -/
theorem port?_eq (h : Ported nl id ports m) (hp : p ∈ ports) :
    ∃ c, m.cell? id = some c ∧ c.ports = ports ∧ c.port? p.name = some p := by
  obtain ⟨c, hc, rfl⟩ := h.ports
  exact ⟨c, hc, rfl, Cell.port?_of_mem h.nodup hp⟩

/-- Writes that leave the ports of the cell alone. -/
theorem write (names : Names) (h : Ported nl id ports m) {f : Cell → Cell}
    (hf : ∀ c, (f c).ports = c.ports) :
    ∃ m', Edit.updateCell id f names m = .ok () m' ∧ Ported nl id ports m' := by
  obtain ⟨c, hc, hports⟩ := h.ports
  rcases @Edit.updateCell_cases names m id f with ⟨e, herror⟩ | ⟨d, hd, hrun⟩
  · obtain ⟨u, m', hok⟩ := Edit.returns_updateCell names (f := f) h.live
    rw [hok] at herror
    cases herror
  refine ⟨_, hrun, (Edit.keeps_updateCell hf).of_ok hrun h.wellFormed, ?_, ?_, h.tag⟩
  · exact ⟨f c, by rw [cell?_mapCell, if_pos rfl, hc]; rfl, (hf c).trans hports⟩
  · intro other hother
    rw [cell?_mapCell, if_neg hother]
    exact h.others other hother

/-! ## Taking ports off -/

theorem takePort (names : Names) (h : Ported nl id (p :: rest) m) :
    ∃ m', Retarget.takePort id p names m = .ok () m' ∧ Ported nl id rest m' := by
  obtain ⟨c, hc, hports, hp⟩ := h.port?_eq List.mem_cons_self
  have hport : m.port? ⟨id, p.name⟩ = some p := by simp [port?, hc, hp]
  have hdetached : ∃ onNet m₁ d, Edit.disconnect id p.name names m = .ok onNet m₁ ∧
      m₁.cell? id = some d ∧ d.ports = { p with net := none } :: rest ∧
      (∀ other, other ≠ id → m₁.cell? other = m.cell? other) ∧ m₁.tag = m.tag := by
    rcases @Edit.disconnect_cases names m id p.name with ⟨e, herror⟩ | ⟨q, hq, hfree | hwired⟩
    · have hdir : (m.dir ⟨id, p.name⟩).isSome := by simp [dir, hport]
      obtain ⟨onNet, m₁, hok⟩ := Edit.returns_disconnect names h.wellFormed hdir
      rw [hok] at herror
      cases herror
    · obtain rfl := Option.some.inj (hport.symm.trans hq)
      obtain ⟨hnone, hrun⟩ := hfree
      refine ⟨none, m, c, hrun, hc, ?_, fun _ _ => rfl, rfl⟩
      rw [hports, ← hnone]
    · obtain ⟨k, n, -, -, hrun⟩ := hwired
      refine ⟨some k, _, c.setNet p.name none, hrun, ?_, ?_, fun other hother => ?_, tag_detach⟩
      · show ((m.mapNet k _).setWire ⟨id, p.name⟩ none).cell? id = _
        rw [cell?_setWire, if_pos rfl]
        exact congrArg (Option.map _) hc
      · show Port.modifyFirst p.name _ c.ports = _
        rw [hports]
        simp [Port.modifyFirst]
      · show ((m.mapNet k _).setWire ⟨id, p.name⟩ none).cell? other = _
        rw [cell?_setWire, if_neg hother]
        rfl
  obtain ⟨onNet, m₁, d, hdisconnect, hd, hdports, hothers, htag⟩ := hdetached
  have hw₁ : m₁.WellFormed := Edit.keeps_disconnect.of_ok hdisconnect h.wellFormed
  have hdp : d.port? p.name = some { p with net := none } := by simp [Cell.port?, hdports]
  have hremove := Edit.removePort_of_free names hd hdp rfl
  refine ⟨_, bind_ok.mpr ⟨onNet, m₁, hdisconnect, hremove⟩,
    Edit.keeps_removePort.of_ok hremove hw₁, ?_, fun other hother => ?_, htag.trans h.tag⟩
  · refine ⟨d.dropPort p.name, by rw [cell?_mapCell, if_pos rfl, hd]; rfl, ?_⟩
    have hdistinct : ∀ q ∈ rest, q.name ≠ p.name := fun q hq heq =>
      (List.nodup_cons.mp h.nodup).1 (List.mem_map.mpr ⟨q, hq, heq⟩)
    show d.ports.filter (fun q => q.name ≠ p.name) = rest
    rw [hdports, List.filter_cons_of_neg (by simp)]
    exact List.filter_eq_self.mpr fun q hq => decide_eq_true (hdistinct q hq)
  · rw [cell?_mapCell, if_neg hother, hothers other hother]
    exact h.others other hother

/-- All ports of a cell can be taken off. -/
theorem takePorts (h : Ported nl id ports s.netlist) :
    ∃ t, (ports.forM fun p => Retarget.takePort id p : Packing PUnit) s = .ok ⟨⟩ t ∧
      Ported nl id [] t.netlist := by
  induction ports generalizing s with
  | nil => exact ⟨s, rfl, h⟩
  | cons p ports ih =>
    obtain ⟨m', htake, hrest⟩ := h.takePort s.names
    obtain ⟨t, hmore, hend⟩ := ih (s := { s with netlist := m' }) hrest
    exact ⟨t, bind_ok.mpr ⟨_, _, Packing.edit_ok.mpr ⟨m', htake, rfl⟩, hmore⟩, hend⟩

/-! ## Adding ports -/

/-- A net that an output of the cell was on has no driver as long as no output is on it again. -/
theorem undriven (h : Ported nl id done m) (hw : nl.WellFormed) (hc : nl.cell? id = some c)
    (hp : p ∈ c.ports) (hout : p.direction = .output) (hk : p.net = some k)
    (hdone : ∀ d ∈ done, d.direction = .output → d.net ≠ some k) : m.Undriven k := by
  obtain ⟨hwire, hdir⟩ := hw.port_of_mem hc hp
  rw [hk] at hwire
  rw [hout] at hdir
  obtain ⟨n, hn⟩ := Option.isSome_iff_exists.mp (hw.wired.wire_live _ k hwire)
  have hdriver : n.driver = some ⟨id, p.name⟩ := (hw.wired.driver_iff k n _ hn).mpr ⟨hwire, hdir⟩
  have hconstant : n.constant = none := by
    refine Option.not_isSome_iff_eq_none.mp fun hsome => ?_
    rw [hw.constant_undriven k n hn hsome] at hdriver
    cases hdriver
  have htag : nl.tag k = some (n.name, none) := by simp [Netlist.tag, hn, hconstant]
  refine ⟨n.name, h.tag ▸ htag, ?_⟩
  rintro ⟨cell, port⟩ hr hrout
  by_cases hcell : cell = id
  · obtain ⟨d, hd, rfl⟩ := h.ports
    obtain ⟨q, hq, -, hqnet, hqdir⟩ := exists_port_of_wire (hcell ▸ hd) hr
    exact hdone q hq (Option.some.inj (hqdir.symm.trans hrout)) hqnet
  · have hsame := h.others cell hcell
    have hwire' : nl.wire ⟨cell, port⟩ = some k := by
      rw [← hr]
      simp [wire, netOf, hsame]
    have hdir' : nl.dir ⟨cell, port⟩ = some .output := by
      rw [← hrout]
      simp [dir, port?, hsame]
    have hother := hdriver.symm.trans ((hw.wired.driver_iff k n _ hn).mpr ⟨hwire', hdir'⟩)
    exact hcell (congrArg PortRef.cell (Option.some.inj hother)).symm

theorem addPort (names : Names) (direction : Direction) (h : Ported nl id done m)
    (hnew : ∀ q ∈ done, q.name ≠ new) :
    ∃ m', Edit.addPort id new direction names m = .ok () m' ∧
      Ported nl id (done ++ [⟨new, direction, none⟩]) m' := by
  obtain ⟨c, hc, rfl⟩ := h.ports
  have hnone : c.port? new = none := List.find?_eq_none.mpr fun q hq =>
    (decide_eq_true_iff (p := q.name = new)).not.mpr (hnew q hq)
  have hadd := Edit.addPort_of_none names (d := direction) hc hnone
  refine ⟨_, hadd, (Edit.keeps_addPort direction).of_ok hadd h.wellFormed,
    ⟨_, by rw [cell?_mapCell, if_pos rfl, hc]; rfl, rfl⟩, fun other hother => ?_, h.tag⟩
  rw [cell?_mapCell, if_neg hother]
  exact h.others other hother

theorem connect (names : Names) {direction : Direction} (hnet : (m.tag k).isSome)
    (hdrive : direction = .output → m.Undriven k)
    (h : Ported nl id (done ++ [⟨new, direction, none⟩]) m) :
    ∃ m', Edit.connect id new k names m = .ok () m' ∧
      Ported nl id (done ++ [⟨new, direction, some k⟩]) m' := by
  obtain ⟨c, hc, hports, hp⟩ := h.port?_eq (List.mem_append_right _ List.mem_cons_self)
  have hport : m.port? ⟨id, new⟩ = some ⟨new, direction, none⟩ := by
    simp only [port?, hc]
    exact hp
  rcases @Edit.connect_cases names m id new k with ⟨e, herror⟩ | ⟨q, hq, hsame | hfree⟩
  · have hdir : m.dir ⟨id, new⟩ = some direction := by simp [dir, hport]
    have hwire : m.wire ⟨id, new⟩ = none := by simp [wire_eq, hport]
    obtain ⟨u, m', hok⟩ := Edit.returns_connect names h.wellFormed hdir hwire hnet hdrive
    rw [hok] at herror
    cases herror
  · obtain rfl := Option.some.inj (hport.symm.trans hq)
    cases hsame.1
  · obtain rfl := Option.some.inj (hport.symm.trans hq)
    obtain ⟨-, n, -, -, hrun⟩ := hfree
    refine ⟨_, hrun, Edit.keeps_connect.of_ok hrun h.wellFormed,
      ⟨c.setNet new (some k), ?_, ?_⟩, fun other hother => ?_, tag_attach.trans h.tag⟩
    · show ((m.mapNet k _).setWire ⟨id, new⟩ (some k)).cell? id = _
      rw [cell?_setWire, if_pos rfl]
      exact congrArg (Option.map _) hc
    · have hfirst : ∀ q ∈ done, q.name ≠ new := fun q hq heq => by
        have hnodup := h.nodup
        rw [List.map_append, List.nodup_append] at hnodup
        exact hnodup.2.2 q.name (List.mem_map_of_mem hq) new (by simp) heq
      show Port.modifyFirst new _ c.ports = _
      rw [hports]
      clear hports h
      induction done with
      | nil => simp [Port.modifyFirst]
      | cons q done ih =>
        obtain ⟨hq, hdone⟩ := List.forall_mem_cons.mp hfirst
        rw [List.cons_append, List.cons_append, Port.modifyFirst, if_neg hq, ih hdone]
    · show ((m.mapNet k _).setWire ⟨id, new⟩ (some k)).cell? other = _
      rw [cell?_setWire, if_neg hother]
      exact h.others other hother

/-- Noting the former name of a port changes attributes only. -/
theorem notePort (h : Ported nl id ports s.netlist) (old new : Ident) :
    ∃ t, noteFormer id old new s = .ok () t ∧ Ported nl id ports t.netlist := by
  unfold noteFormer
  split
  · obtain ⟨key, s₁, hkey, hs₁⟩ : ∃ key s₁, (liftM (naming (formerPortKey (s.names.resolve new))) :
        Packing Ident) s = .ok key s₁ ∧ s₁.netlist = s.netlist := ⟨_, _, rfl, rfl⟩
    obtain ⟨m', hwrite, hend⟩ := (hs₁ ▸ h).write s₁.names
      (f := fun c => { c with attrs := c.attrs.insert key (.text (s₁.names.resolve old)) })
      fun _ => rfl
    have hedit := Packing.edit_ok.mpr ⟨m', hwrite, rfl⟩
    exact ⟨_, bind_ok.mpr ⟨_, s, rfl, bind_ok.mpr ⟨key, s₁, hkey,
      bind_ok.mpr ⟨_, s₁, rfl, hedit⟩⟩⟩, hend⟩
  · exact ⟨s, rfl, h⟩

/-- A new port takes the place of an old one unless its name is taken or it would be the second to
drive the net. -/
theorem givePort (h : Ported nl id done s.netlist) (hw : nl.WellFormed)
    (hc : nl.cell? id = some c) (hp : p ∈ c.ports) (hnew : ∀ q ∈ done, q.name ≠ new)
    (hdrive : ∀ q ∈ done, q.Apart p) :
    ∃ t, Retarget.givePort id p new s = .ok () t ∧
      Ported nl id (done ++ [{ p with name := new }]) t.netlist := by
  obtain ⟨m₁, hadd, hadded⟩ := h.addPort s.names p.direction hnew
  have haddrun : (liftM (Edit.addPort id new p.direction) : Packing Unit) s =
      .ok () { s with netlist := m₁ } := Packing.edit_ok.mpr ⟨m₁, hadd, rfl⟩
  unfold Retarget.givePort
  cases hnet : p.net with
  | none =>
    obtain ⟨t, hrun, hend⟩ := notePort (s := { s with netlist := m₁ }) hadded p.name new
    exact ⟨t, bind_ok.mpr ⟨_, _, haddrun, hrun⟩, hend⟩
  | some k =>
    have hwire := (hw.port_of_mem hc hp).1.trans hnet
    have hlive : (m₁.tag k).isSome := hadded.tag ▸ hw.wired.tag_isSome_of_wire hwire
    have hundriven : p.direction = .output → m₁.Undriven k := by
      intro hout
      refine hadded.undriven hw hc hp hout hnet fun q hq hqout hqnet => ?_
      rcases List.mem_append.mp hq with hq | hq
      · exact hdrive q hq k hqnet hnet hqout hout
      · obtain rfl := List.mem_singleton.mp hq
        cases hqnet
    obtain ⟨m₂, hconnect, hconnected⟩ := hadded.connect s.names hlive hundriven
    obtain ⟨t, hrun, hend⟩ := notePort (s := { s with netlist := m₂ }) hconnected p.name new
    have hconnectrun : (liftM (Edit.connect id new k) : Packing Unit) { s with netlist := m₁ } =
        .ok () { s with netlist := m₂ } := Packing.edit_ok.mpr ⟨m₂, hconnect, rfl⟩
    exact ⟨t, bind_ok.mpr ⟨_, _, haddrun, bind_ok.mpr ⟨_, _, hconnectrun, hrun⟩⟩, hend⟩

/-- An output cannot be put on a net that one of the new ports drives. -/
theorem givePort_refused (h : Ported nl id done s.netlist) (hnew : ∀ q ∈ done, q.name ≠ new)
    {q : Port} (hq : q ∈ done) (hclash : ¬q.Apart p) :
    ∃ cell port net t, Retarget.givePort id p new s =
      .error (.violation (.secondDriver cell port net)) t := by
  unfold Port.Apart at hclash
  push Not at hclash
  obtain ⟨k, hqk, hpk, hqout, hpout⟩ := hclash
  obtain ⟨m₁, hadd, hadded⟩ := h.addPort s.names p.direction hnew
  obtain ⟨d, hd, hdports, hdp⟩ := hadded.port?_eq (List.mem_append_right _ List.mem_cons_self)
  obtain ⟨hqwire, hqdir⟩ := hadded.wellFormed.port_of_mem hd
    (hdports ▸ List.mem_append_left _ hq)
  rw [hqk] at hqwire
  rw [hqout] at hqdir
  obtain ⟨n, hn⟩ := Option.isSome_iff_exists.mp (hadded.wellFormed.wired.wire_live _ k hqwire)
  have hdriver := (hadded.wellFormed.wired.driver_iff k n _ hn).mpr ⟨hqwire, hqdir⟩
  have hconstant : n.constant.isSome = false := by
    refine Bool.not_eq_true _ ▸ fun hsome => ?_
    rw [hadded.wellFormed.constant_undriven k n hn hsome] at hdriver
    cases hdriver
  have hconnect : Edit.connect id new k s.names m₁ =
      .error (.violation (.secondDriver d.name (s.names.resolve new) n.name)) m₁ := by
    unfold Edit.connect
    rw [Edit.run_bind_of_ok (Edit.portChecked_of_some s.names hd hdp)]
    dsimp only
    rw [Edit.run_bind_of_ok (Edit.netChecked_of_some s.names hn)]
    simp only [hpout, hconstant, hdriver]
    rfl
  have haddrun : (liftM (Edit.addPort id new p.direction) : Packing Unit) s =
      .ok () { s with netlist := m₁ } := Packing.edit_ok.mpr ⟨m₁, hadd, rfl⟩
  have hconnectrun := Packing.edit_error (s := { s with netlist := m₁ }) |>.mpr ⟨m₁, hconnect, rfl⟩
  unfold Retarget.givePort
  rw [hpk]
  exact ⟨_, _, _, _, bind_error.mpr (Or.inr ⟨(), _, haddrun, bind_error.mpr (Or.inl hconnectrun)⟩)⟩

/-- All new ports can be added unless two of them would drive one net. -/
theorem givePorts {gives : List (Port × Ident)} (h : Ported nl id done s.netlist)
    (hw : nl.WellFormed) (hc : nl.cell? id = some c) (hports : ∀ g ∈ gives, g.1 ∈ c.ports)
    (hnames : (done.map (·.name) ++ gives.map (·.2)).Nodup) :
    (∃ t, (gives.forM fun g => Retarget.givePort id g.1 g.2 : Packing PUnit) s = .ok ⟨⟩ t ∧
      Ported nl id (done ++ gives.map fun g => { g.1 with name := g.2 }) t.netlist) ∨
    ¬(done ++ gives.map (·.1)).Pairwise Port.Apart ∧
      ∃ cell port net t, (gives.forM fun g => Retarget.givePort id g.1 g.2 : Packing PUnit) s =
        .error (.violation (.secondDriver cell port net)) t := by
  induction gives generalizing done s with
  | nil => exact Or.inl ⟨s, rfl, by simpa using h⟩
  | cons g gives ih =>
    obtain ⟨hg, hports⟩ := List.forall_mem_cons.mp hports
    have hnew : ∀ q ∈ done, q.name ≠ g.2 := fun q hq =>
      (List.nodup_append.mp hnames).2.2 q.name (List.mem_map_of_mem hq) g.2 List.mem_cons_self
    by_cases hdrive : ∀ q ∈ done, q.Apart g.1
    · obtain ⟨s₁, hgive, hgiven⟩ := h.givePort hw hc hg hnew hdrive
      rcases ih hgiven hports (by simpa using hnames) with ⟨t, hmore, hend⟩ | ⟨hclash, hmore⟩
      · exact Or.inl ⟨t, bind_ok.mpr ⟨_, s₁, hgive, hmore⟩, by simpa using hend⟩
      · obtain ⟨cell, port, net, t, hmore⟩ := hmore
        refine Or.inr ⟨fun hapart => hclash ?_, cell, port, net, t,
          bind_error.mpr (Or.inr ⟨_, s₁, hgive, hmore⟩)⟩
        obtain ⟨hdone, hgives, hcross⟩ := List.pairwise_append.mp hapart
        obtain ⟨hfirst, hgives⟩ := List.pairwise_cons.mp hgives
        refine List.pairwise_append.mpr ⟨List.pairwise_append.mpr
          ⟨hdone, List.pairwise_singleton _ _, fun q hq r hr => ?_⟩, hgives, fun q hq r hr => ?_⟩
        · obtain rfl := List.mem_singleton.mp hr
          exact hcross q hq g.1 List.mem_cons_self
        · rcases List.mem_append.mp hq with hq | hq
          · exact hcross q hq r (List.mem_cons_of_mem _ hr)
          · obtain rfl := List.mem_singleton.mp hq
            exact hfirst r hr
    · push Not at hdrive
      obtain ⟨q, hq, hclash⟩ := hdrive
      obtain ⟨cell, port, net, t, hrefused⟩ := h.givePort_refused hnew hq hclash
      exact Or.inr ⟨fun hapart => hclash
        ((List.pairwise_append.mp hapart).2.2 q hq g.1 List.mem_cons_self), cell, port, net, t,
          bind_error.mpr (Or.inl hrefused)⟩

end Ported
end Retarget
end FpgaPacking
