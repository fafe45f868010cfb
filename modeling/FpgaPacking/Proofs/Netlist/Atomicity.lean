import FpgaPacking.Proofs.Failures
import FpgaPacking.Proofs.Netlist.Progress
import FpgaPacking.Proofs.Reachable

/-!
# Single operations are atomic, and some can be taken back

An operation that fails leaves the netlist exactly as it was.  For all operations
but one this is so because everything is checked before anything is changed.  The
renaming of a port changes the cell and looks up the net afterwards; in a
well-formed netlist the net is there.

Connecting a free port and renaming a port are taken back by the opposite
operation.  The net gives back exactly what it got, since it had no entry for the
free port, or for the new name, that would go as well.
-/

namespace FpgaPacking

/-! ## Changes that are taken back -/

namespace Port

variable {name old new : Ident} {f g : Port → Port}

theorem modifyFirst_modifyFirst (hf : ∀ p, (f p).name = p.name) (ports : List Port) :
    modifyFirst name g (modifyFirst name f ports) = modifyFirst name (g ∘ f) ports := by
  induction ports with
  | nil => rfl
  | cons p rest ih =>
    by_cases hp : p.name = name
    · simp [modifyFirst, hp, hf]
    · simp [modifyFirst, hp, ih]

theorem modifyFirst_eq_self {ports : List Port}
    (h : ∀ p, ports.find? (fun p => p.name = name) = some p → f p = p) :
    modifyFirst name f ports = ports := by
  induction ports with
  | nil => rfl
  | cons p rest ih =>
    by_cases hp : p.name = name
    · simp [modifyFirst, hp, h]
    · simp only [modifyFirst, if_neg hp]
      rw [ih fun q hq => h q (by simpa [hp] using hq)]

theorem modifyFirst_rename {ports : List Port} (hnew : ∀ p ∈ ports, p.name ≠ new) :
    modifyFirst new (fun p => { p with name := old })
      (modifyFirst old (fun p => { p with name := new }) ports) = ports := by
  induction ports with
  | nil => rfl
  | cons p rest ih =>
    by_cases hp : p.name = old
    · subst hp
      simp [modifyFirst]
    · have hpnew : p.name ≠ new := hnew p List.mem_cons_self
      simp [modifyFirst, hp, hpnew, ih fun q hq => hnew q (List.mem_cons_of_mem p hq)]

end Port

namespace Cell

variable {c : Cell} {p : Port} {name old new : Ident} {net : Option NetId}

theorem setNet_setNet (hp : c.port? name = some p) (hfree : p.net = none) :
    (c.setNet name net).setNet name none = c := by
  have hports : Port.modifyFirst name (fun p => { p with net := none })
      (Port.modifyFirst name (fun p => { p with net }) c.ports) = c.ports := by
    rw [Port.modifyFirst_modifyFirst (f := fun p => { p with net }) fun _ => rfl]
    refine Port.modifyFirst_eq_self fun q hq => ?_
    obtain rfl : p = q := Option.some.inj (hp.symm.trans hq)
    show ({ p with net := none } : Port) = p
    rw [← hfree]
  exact congrArg (fun ports => { c with ports }) hports

theorem renamePort_renamePort (hnew : c.port? new = none) :
    (c.renamePort old new).renamePort new old = c := by
  have hports : Port.modifyFirst new (fun p => { p with name := old })
      (Port.modifyFirst old (fun p => { p with name := new }) c.ports) = c.ports := by
    refine Port.modifyFirst_rename fun p hp hname => ?_
    have hother := List.find?_eq_none.mp hnew p hp
    simp [hname] at hother
  exact congrArg (fun ports => { c with ports }) hports

end Cell

namespace Net

variable {n : Net} {r old new : PortRef}

/-- A port that has been put on a net is all that is taken off it again. -/
theorem detach_hold {d : Direction} (hr : r ∉ n.ports) (hd : d = .output → n.driver = none) :
    (n.hold r d).detach r = n := by
  have hdriver : n.driver ≠ some r := fun h => hr (mem_ports.mpr (Or.inl h))
  have hsinks : n.sinks.filter (fun s => s ≠ r) = n.sinks :=
    List.filter_eq_self.mpr fun s hs => by
      have hne : s ≠ r := fun e => hr (mem_ports.mpr (Or.inr (e ▸ hs)))
      simpa using hne
  have hsink : (n.addSink r).detach r = n := by
    unfold addSink detach
    rw [if_neg hdriver, List.filter_append, hsinks]
    simp
  cases d with
  | output =>
    unfold hold drive detach
    rw [if_pos rfl, hsinks, ← hd rfl]
  | input => exact hsink
  | inout => exact hsink

theorem replace_replace (hnew : new ∉ n.ports) : (n.replace old new).replace new old = n := by
  have hdriver : n.driver ≠ some new := fun h => hnew (mem_ports.mpr (Or.inl h))
  have hsinks : (n.sinks.map fun s => if s = old then new else s).map
      (fun s => if s = new then old else s) = n.sinks := by
    rw [List.map_map]
    refine (List.map_congr_left fun s hs => ?_).trans (List.map_id' n.sinks)
    have hs : s ≠ new := fun e => hnew (mem_ports.mpr (Or.inr (e ▸ hs)))
    by_cases hold : s = old <;> simp [hold, hs]
  unfold replace
  rw [hsinks]
  by_cases hold : n.driver = some old
  · simp [← hold]
  · simp [hold, hdriver]

end Net

namespace Netlist

variable {nl : Netlist} {id : CellId} {k : NetId} {r : PortRef}

/-- The netlist with a port under another name, at the cell and at its net. -/
def renamed (nl : Netlist) (id : CellId) (old new : Ident) (onNet : Option NetId) : Netlist :=
  { nl with
    cells := nl.cells.modify id fun c => c.renamePort old new
    nets := onNet.elim nl.nets fun k => nl.nets.modify k fun n => n.replace ⟨id, old⟩ ⟨id, new⟩ }

theorem detach_attach {p : Port} (hw : nl.WellFormed) (hp : nl.port? r = some p)
    (hfree : p.net = none) (hd : ∀ n, nl.net? k = some n → p.direction = .output → n.driver = none) :
    (nl.attach r p.direction k).detach r k = nl := by
  have hwire : nl.wire r = none := by simp [wire_eq, hp, hfree]
  have hcells : ((nl.attach r p.direction k).detach r k).cells = nl.cells := by
    refine Arena.modify_modify.trans (Arena.modify_eq_self fun c hc => Cell.setNet_setNet ?_ hfree)
    have hcell : nl.cell? r.cell = some c := hc
    simpa [port?, hcell] using hp
  have hnets : ((nl.attach r p.direction k).detach r k).nets = nl.nets := by
    refine Arena.modify_modify.trans (Arena.modify_eq_self fun n hn => ?_)
    refine Net.detach_hold (fun hr => ?_) (hd n hn)
    rw [hw.mem_ports hn, hwire] at hr
    cases hr
  calc (nl.attach r p.direction k).detach r k
      = { nl with
          cells := ((nl.attach r p.direction k).detach r k).cells
          nets := ((nl.attach r p.direction k).detach r k).nets } := rfl
    _ = nl := by rw [hcells, hnets]

theorem renamed_renamed {old new : Ident} {c : Cell} {onNet : Option NetId} (hw : nl.WellFormed)
    (hc : nl.cell? id = some c) (hnew : c.port? new = none) :
    (nl.renamed id old new onNet).renamed id new old onNet = nl := by
  have hwire : nl.wire ⟨id, new⟩ = none := by simp [wire_eq, port?, hc, hnew]
  have hcells : ((nl.renamed id old new onNet).renamed id new old onNet).cells = nl.cells := by
    refine Arena.modify_modify.trans (Arena.modify_eq_self fun d hd => ?_)
    obtain rfl : c = d := Option.some.inj (hc.symm.trans hd)
    exact Cell.renamePort_renamePort hnew
  have hnets : ((nl.renamed id old new onNet).renamed id new old onNet).nets = nl.nets := by
    cases onNet with
    | none => rfl
    | some k =>
      refine Arena.modify_modify.trans (Arena.modify_eq_self fun n hn => ?_)
      refine Net.replace_replace fun hr => ?_
      rw [hw.mem_ports hn, hwire] at hr
      cases hr
  calc (nl.renamed id old new onNet).renamed id new old onNet
      = { nl with
          cells := ((nl.renamed id old new onNet).renamed id new old onNet).cells
          nets := ((nl.renamed id old new onNet).renamed id new old onNet).nets } := rfl
    _ = nl := by rw [hcells, hnets]

end Netlist

namespace Edit

open Netlist

variable {names : Names} {nl nl' : Netlist} {id : CellId} {port old new : Ident} {k : NetId}

/-! ## Atomicity -/

/-- From this netlist, the operation fails without a change or succeeds. -/
def Atomic {α : Type} (x : Edit α) (nl : Netlist) : Prop :=
  ∀ names e nl', x names nl = .error e nl' → nl' = nl

theorem Atomic.of_cases {α : Type} {x : Edit α}
    (h : ∀ names, (∃ e, x names nl = .error e nl) ∨ ∃ a nl', x names nl = .ok a nl') :
    Atomic x nl := by
  intro names e nl' herror
  rcases h names with ⟨e', hrun⟩ | ⟨a, nl₁, hrun⟩
  · rw [hrun] at herror
    cases herror
    rfl
  · rw [hrun] at herror
    cases herror

theorem atomic_addPort (direction : Direction) : Atomic (addPort id port direction) nl :=
  .of_cases fun names => (addPort_cases names).imp_right fun ⟨_, _, h⟩ =>
    h.elim (fun h => ⟨_, _, h.2⟩) fun h => ⟨_, _, h.2⟩

theorem atomic_removePort : Atomic (removePort id port) nl :=
  .of_cases fun names => (removePort_cases names).imp_right fun ⟨_, _, _, h⟩ => ⟨_, _, h⟩

theorem atomic_connect : Atomic (connect id port k) nl :=
  .of_cases fun names => (connect_cases names).imp_right fun ⟨_, _, h⟩ =>
    h.elim (fun h => ⟨_, _, h.2⟩) fun ⟨_, _, _, _, h⟩ => ⟨_, _, h⟩

theorem atomic_disconnect : Atomic (disconnect id port) nl :=
  .of_cases fun names => (disconnect_cases names).imp_right fun ⟨_, _, h⟩ =>
    h.elim (fun h => ⟨_, _, h.2⟩) fun ⟨_, _, _, _, h⟩ => ⟨_, _, h⟩

theorem atomic_removeCell : Atomic (removeCell id) nl :=
  .of_cases fun names => (removeCell_cases names).imp_right fun ⟨_, _, _, _, h⟩ => ⟨_, _, h⟩

theorem atomic_removeNet : Atomic (removeNet k) nl :=
  .of_cases fun names => (removeNet_cases names).imp_right fun ⟨_, _, _, _, h⟩ => ⟨_, _, h⟩

theorem atomic_renamePort (hw : nl.WellFormed) : Atomic (renamePort id old new) nl := by
  refine .of_cases fun names => (renamePort_cases names).imp_right ?_
  rintro ⟨c, p, hc, hp, ⟨-, hrun⟩ | ⟨-, -, ⟨-, hrun⟩ | ⟨k, hnet, hmissing | hrun⟩⟩⟩
  · exact ⟨_, _, hrun⟩
  · exact ⟨_, _, hrun⟩
  · -- The net of a port is live, so this renaming does not fail halfway.
    have hwire : nl.wire ⟨id, old⟩ = some k := by simp [wire_eq, port?, hc, hp, hnet]
    have hlive := hw.wired.wire_live _ _ hwire
    rw [hmissing] at hlive
    cases hlive
  · exact ⟨_, _, hrun⟩

/-! ## Operations that are taken back -/

theorem disconnect_of_some {c : Cell} {p : Port} {n : Net} (names : Names)
    (hc : nl.cell? id = some c) (hp : c.port? port = some p) (hnet : p.net = some k)
    (hn : nl.net? k = some n) :
    disconnect id port names nl = .ok (some k) (nl.detach ⟨id, port⟩ k) := by
  unfold disconnect
  rw [run_bind_of_ok (portChecked_of_some names hc hp)]
  simp only [hnet]
  rw [run_bind_of_ok (netChecked_of_some names hn)]
  rfl

theorem disconnect_connect {u : Unit} (hw : nl.WellFormed) (hfree : nl.netOf id port = none)
    (h : connect id port k names nl = .ok u nl') (names' : Names) :
    disconnect id port names' nl' = .ok (some k) nl := by
  have hwire : nl.wire ⟨id, port⟩ = none := hfree
  rcases connect_cases names with ⟨e, hrun⟩ | ⟨p, hp, ⟨hnet, hrun⟩ | ⟨hnet, n, hn, hout, hrun⟩⟩
  · rw [hrun] at h
    cases h
  · rw [wire_eq_some.mpr ⟨p, hp, hnet⟩] at hwire
    cases hwire
  · rw [hrun] at h
    cases h
    obtain ⟨c, hc, hpc⟩ := Option.bind_eq_some_iff.mp hp
    have hc' : (nl.attach ⟨id, port⟩ p.direction k).cell? id = some (c.setNet port (some k)) := by
      show ((nl.mapNet k _).setWire ⟨id, port⟩ (some k)).cell? id = _
      rw [cell?_setWire, if_pos rfl]
      exact congrArg (Option.map _) hc
    have hp' : (c.setNet port (some k)).port? port = some { p with net := some k } := by
      rw [Cell.port?_setNet, if_pos rfl, hpc]
      rfl
    have hn' : (nl.attach ⟨id, port⟩ p.direction k).net? k = some (n.hold ⟨id, port⟩ p.direction) := by
      rw [net?_attach, if_pos rfl, hn]
      rfl
    have hundone : (nl.attach ⟨id, port⟩ p.direction k).detach ⟨id, port⟩ k = nl :=
      detach_attach hw hp hnet fun m hm hd => by
        obtain rfl : n = m := Option.some.inj (hn.symm.trans hm)
        exact (hout hd).2
    rw [disconnect_of_some names' hc' hp' rfl hn', hundone]

/-- Where a port is renamed, it is renamed at its net too. -/
theorem renamePort_of_free {c : Cell} {p : Port} (names : Names) (hc : nl.cell? id = some c)
    (hp : c.port? old = some p) (hne : old ≠ new) (hnew : c.port? new = none)
    (hnet : ∀ k, p.net = some k → (nl.net? k).isSome) :
    renamePort id old new names nl = .ok () (nl.renamed id old new p.net) := by
  unfold renamePort
  rw [run_bind_of_ok (portChecked_of_some names hc hp)]
  simp only [hne, hnew, if_false, Option.isSome_none, Bool.false_eq_true]
  cases hk : p.net with
  | none => rfl
  | some k =>
    obtain ⟨n, hn⟩ := Option.isSome_iff_exists.mp (hnet k hk)
    show (netChecked k >>= fun _ =>
      modifyNet k fun n => n.replace ⟨id, old⟩ ⟨id, new⟩ : Edit Unit) names
      (nl.mapCell id fun c => c.renamePort old new) = _
    have hchecked : netChecked k names (nl.mapCell id fun c => c.renamePort old new) =
        .ok n (nl.mapCell id fun c => c.renamePort old new) := netChecked_of_some names hn
    rw [run_bind_of_ok hchecked]
    rfl

theorem renamePort_self {c : Cell} {p : Port} (names : Names) (hc : nl.cell? id = some c)
    (hp : c.port? port = some p) : renamePort id port port names nl = .ok () nl := by
  unfold renamePort
  rw [run_bind_of_ok (portChecked_of_some names hc hp)]
  simp only [if_true]
  rfl

theorem renamePort_renamePort {u : Unit} (hw : nl.WellFormed)
    (h : renamePort id old new names nl = .ok u nl') (names' : Names) :
    renamePort id new old names' nl' = .ok () nl := by
  rcases @renamePort_cases names nl id old new with ⟨e, hrun⟩ |
    ⟨c, p, hc, hp, ⟨rfl, hrun⟩ | ⟨hnew, hne, -⟩⟩
  · rw [hrun] at h
    cases h
  · rw [hrun] at h
    cases h
    exact renamePort_self names' hc hp
  · have hlive : ∀ k, p.net = some k → (nl.net? k).isSome := fun k hk =>
      hw.wired.wire_live ⟨id, old⟩ k (by simp [wire_eq, port?, hc, hp, hk])
    rw [renamePort_of_free names hc hp hne hnew hlive] at h
    cases h
    have hc' : (nl.renamed id old new p.net).cell? id = some (c.renamePort old new) := by
      show (nl.cells.modify id _).get? id = _
      rw [Arena.get?_modify, if_pos rfl]
      exact congrArg (Option.map _) hc
    have hnodup := hw.port_names id c hc
    have hp' : (c.renamePort old new).port? new = some { p with name := new } := by
      rw [Cell.port?_renamePort hnodup hnew, if_pos rfl, hp]
      rfl
    have hold : (c.renamePort old new).port? old = none := by
      rw [Cell.port?_renamePort hnodup hnew, if_neg hne, if_pos rfl]
    have hlive' : ∀ k, p.net = some k → ((nl.renamed id old new p.net).net? k).isSome := by
      intro k hk
      show ((p.net.elim nl.nets fun k => nl.nets.modify k _).get? k).isSome
      rw [hk]
      show ((nl.nets.modify k _).get? k).isSome
      rw [Arena.get?_modify, if_pos rfl, Option.isSome_map]
      exact hlive k hk
    rw [renamePort_of_free names' hc' hp' hne.symm hold hlive']
    exact congrArg (EStateM.Result.ok ()) (renamed_renamed hw hc hnew)

/-! ## All single operations -/

/-- Operations that fail change nothing, and a free port that was connected and a port that was
renamed can be put back. -/
structure Transactional (nl : Netlist) : Prop where
  addPort : ∀ id port direction, Atomic (addPort id port direction) nl
  removePort : ∀ id port, Atomic (removePort id port) nl
  renamePort : ∀ id old new, Atomic (renamePort id old new) nl
  connect : ∀ id port k, Atomic (connect id port k) nl
  disconnect : ∀ id port, Atomic (disconnect id port) nl
  removeCell : ∀ id, Atomic (removeCell id) nl
  removeNet : ∀ k, Atomic (removeNet k) nl
  disconnect_connect : ∀ id port k names nl', nl.netOf id port = none →
    Edit.connect id port k names nl = .ok () nl' →
      ∀ names', Edit.disconnect id port names' nl' = .ok (some k) nl
  renamePort_renamePort : ∀ id old new names nl',
    Edit.renamePort id old new names nl = .ok () nl' →
      ∀ names', Edit.renamePort id new old names' nl' = .ok () nl

theorem transactional_of_wellFormed (hw : nl.WellFormed) : Transactional nl where
  addPort _ _ direction := atomic_addPort direction
  removePort _ _ := atomic_removePort
  renamePort _ _ _ := atomic_renamePort hw
  connect _ _ _ := atomic_connect
  disconnect _ _ := atomic_disconnect
  removeCell _ := atomic_removeCell
  removeNet _ := atomic_removeNet
  disconnect_connect _ _ _ _ _ hfree h := Edit.disconnect_connect hw hfree h
  renamePort_renamePort _ _ _ _ _ h := Edit.renamePort_renamePort hw h

namespace Queued

def portNames : Names where
  entered := #["CELL", "A", "B", "Y", "Z"]
  nodup := by decide +kernel

/-- A queued cell with a free port between two ports that are on nets. -/
def session : Session := (Session.start portNames).after [
  .createCell ⟨0⟩ "cell", .createNet "wire", .constantNet .one,
  .addPort ⟨0⟩ ⟨1⟩ .input, .addPort ⟨0⟩ ⟨2⟩ .input, .addPort ⟨0⟩ ⟨3⟩ .output,
  .connect ⟨0⟩ ⟨1⟩ ⟨1⟩, .connect ⟨0⟩ ⟨3⟩ ⟨0⟩, .markForRemoval ⟨0⟩]

theorem queued_transactional : session.netlist.WellFormed ∧
    (∃ e, connect ⟨0⟩ ⟨3⟩ ⟨1⟩ session.names session.netlist = .error e session.netlist) ∧
    (∃ nl', connect ⟨0⟩ ⟨2⟩ ⟨1⟩ session.names session.netlist = .ok () nl' ∧
      disconnect ⟨0⟩ ⟨2⟩ session.names nl' = .ok (some ⟨1⟩) session.netlist) ∧
    ∃ nl', renamePort ⟨0⟩ ⟨1⟩ ⟨4⟩ session.names session.netlist = .ok () nl' ∧
      renamePort ⟨0⟩ ⟨4⟩ ⟨1⟩ session.names nl' = .ok () session.netlist := by
  have hw : session.netlist.WellFormed := Session.wellFormed_after_of_wellFormed Wired.empty.wellFormed _
  have hall := transactional_of_wellFormed hw
  have hfails : (failure? (connect ⟨0⟩ ⟨3⟩ ⟨1⟩ session.names session.netlist)).isSome := by
    decide +kernel
  obtain ⟨e, he⟩ := Option.isSome_iff_exists.mp hfails
  obtain ⟨nl₁, herror⟩ := exists_error_of_failure he
  have hunchanged := hall.connect _ _ _ _ _ _ herror
  have hconnects : returned? (connect ⟨0⟩ ⟨2⟩ ⟨1⟩ session.names session.netlist) = some () := by
    decide +kernel
  obtain ⟨nl₂, hconnect⟩ := exists_ok_of_returned hconnects
  have hrenames : returned? (renamePort ⟨0⟩ ⟨1⟩ ⟨4⟩ session.names session.netlist) = some () := by
    decide +kernel
  obtain ⟨nl₃, hrename⟩ := exists_ok_of_returned hrenames
  exact ⟨hw, ⟨e, hunchanged ▸ herror⟩,
    ⟨nl₂, hconnect, hall.disconnect_connect _ _ _ _ _ (by decide +kernel) hconnect _⟩,
    ⟨nl₃, hrename, hall.renamePort_renamePort _ _ _ _ _ hrename _⟩⟩

end Queued

end Edit
end FpgaPacking
