import FpgaPacking.Netlist.Edit
import FpgaPacking.Proofs.Arena.Contents
import Mathlib.Data.List.Nodup
import Mathlib.Logic.Function.Basic

/-!
# The wiring of a netlist

Most statements about a netlist speak of three views of it.  `wire` is the net
each port is on, `bare` is each cell without its connections, and `tag` is the
name and the constant of each net.  The driver and the sinks of the nets are not
among them: in a well-formed netlist the wires determine them up to order.

An elementary edit changes one cell, one net or both.  The changes have names
here, and there is a statement of what each of them does to the views.
-/

namespace FpgaPacking

/-! ## Ports of a cell -/

namespace Port

variable {name other : Ident} {f : Port → Port}

theorem find?_modifyFirst_self (hf : ∀ p, (f p).name = p.name) (ports : List Port) :
    (modifyFirst name f ports).find? (fun p => p.name = name) =
      (ports.find? fun p => p.name = name).map f := by
  induction ports with
  | nil => rfl
  | cons p rest ih =>
    unfold modifyFirst
    by_cases hp : p.name = name
    · simp [hp, hf p]
    · simp [hp, ih]

theorem find?_modifyFirst_ne (hf : ∀ p, (f p).name = p.name) (h : other ≠ name)
    (ports : List Port) :
    (modifyFirst name f ports).find? (fun p => p.name = other) =
      ports.find? fun p => p.name = other := by
  induction ports with
  | nil => rfl
  | cons p rest ih =>
    unfold modifyFirst
    by_cases hp : p.name = name
    · have hne : p.name ≠ other := fun e => h (e.symm.trans hp)
      simp [hp, hf p, Ne.symm h]
    · by_cases ho : p.name = other
      · simp [ho, h]
      · simp [hp, ho, ih]

theorem map_modifyFirst {β : Type} {g : Port → β} (hf : ∀ p, g (f p) = g p) (ports : List Port) :
    (modifyFirst name f ports).map g = ports.map g := by
  induction ports with
  | nil => rfl
  | cons p rest ih =>
    unfold modifyFirst
    split
    · simp [hf p]
    · simp [ih]

theorem mem_modifyFirst {p : Port} {ports : List Port} (h : p ∈ modifyFirst name f ports) :
    p ∈ ports ∨ ∃ q ∈ ports, p = f q := by
  induction ports with
  | nil => exact Or.inl h
  | cons q rest ih =>
    unfold modifyFirst at h
    split at h
    · rcases List.mem_cons.mp h with rfl | h
      · exact Or.inr ⟨q, List.mem_cons_self, rfl⟩
      · exact Or.inl (List.mem_cons_of_mem q h)
    · rcases List.mem_cons.mp h with rfl | h
      · exact Or.inl List.mem_cons_self
      · rcases ih h with h | ⟨q', hq', rfl⟩
        · exact Or.inl (List.mem_cons_of_mem q h)
        · exact Or.inr ⟨q', List.mem_cons_of_mem q hq', rfl⟩

end Port

namespace Cell

/-- The cell with none of its ports connected. -/
def unwired (c : Cell) : Cell := { c with ports := c.ports.map fun p => { p with net := none } }

variable {c : Cell} {name other : Ident} {net : Option NetId}

theorem name_of_port? {p : Port} (h : c.port? name = some p) : p.name = name := by
  simpa using List.find?_some h

theorem mem_ports_of_port? {p : Port} (h : c.port? name = some p) : p ∈ c.ports :=
  List.mem_of_find?_eq_some h

/-- With distinct names a port is found under its own name. -/
theorem port?_of_mem (hnodup : (c.ports.map (·.name)).Nodup) {p : Port} (hp : p ∈ c.ports) :
    c.port? p.name = some p := by
  unfold port?
  revert hnodup hp
  generalize c.ports = ports
  intro hnodup hp
  induction ports with
  | nil => cases hp
  | cons q rest ih =>
    obtain ⟨hq, hrest⟩ := List.nodup_cons.mp hnodup
    rcases List.mem_cons.mp hp with rfl | hp
    · simp
    · have hne : q.name ≠ p.name := fun e => hq (List.mem_map.mpr ⟨p, hp, e.symm⟩)
      simpa [hne] using ih hrest hp

theorem port?_setNet :
    (c.setNet name net).port? other =
      if other = name then (c.port? name).map fun p => { p with net } else c.port? other := by
  split
  · next h =>
    subst h
    exact Port.find?_modifyFirst_self (f := fun p => { p with net }) (fun _ => rfl) c.ports
  · next h =>
    exact Port.find?_modifyFirst_ne (f := fun p => { p with net }) (fun _ => rfl) h c.ports

theorem unwired_setNet : (c.setNet name net).unwired = c.unwired := by
  show ({ c with ports := _ } : Cell) = { c with ports := _ }
  congr 1
  exact Port.map_modifyFirst (f := fun p => { p with net }) (fun _ => rfl) c.ports

theorem port?_dropPort :
    (c.dropPort name).port? other = if other = name then none else c.port? other := by
  show (c.ports.filter fun p => p.name ≠ name).find? (fun p => p.name = other) = _
  rw [List.find?_filter]
  split
  · next h =>
    subst h
    exact List.find?_eq_none.mpr fun p _ => by simp
  · next h =>
    show _ = c.ports.find? fun p => p.name = other
    congr 1
    funext p
    by_cases hp : p.name = other
    · simp [hp, h]
    · simp [hp]

theorem port?_addPort {p : Port} (h : c.port? p.name = none) :
    (c.addPort p).port? other = if other = p.name then some p else c.port? other := by
  show (c.ports ++ [p]).find? (fun p => p.name = other) = _
  rw [List.find?_append]
  split
  · next ho =>
    subst ho
    have : c.ports.find? (fun q => q.name = p.name) = none := h
    simp [this]
  · next ho =>
    have : p.name ≠ other := fun e => ho e.symm
    simp [this, port?]

/-- Renaming onto a name that is not taken. -/
theorem port?_renamePort {old new : Ident} (hnodup : (c.ports.map (·.name)).Nodup)
    (hnew : c.port? new = none) :
    (c.renamePort old new).port? other =
      if other = new then (c.port? old).map fun p => { p with name := new }
      else if other = old then none else c.port? other := by
  have hfree : ∀ p ∈ c.ports, p.name ≠ new := by
    intro p hp e
    have := List.find?_eq_none.mp hnew p hp
    simp [e] at this
  show (Port.modifyFirst old _ c.ports).find? (fun p => p.name = other) = _
  unfold port?
  revert hnodup hfree
  generalize c.ports = ports
  intro hnodup hfree
  induction ports with
  | nil => simp [Port.modifyFirst]
  | cons p rest ih =>
    obtain ⟨hp, hrest⟩ := List.nodup_cons.mp hnodup
    have hpnew : p.name ≠ new := hfree p List.mem_cons_self
    have hrestnew : ∀ q ∈ rest, q.name ≠ new := fun q hq => hfree q (List.mem_cons_of_mem p hq)
    unfold Port.modifyFirst
    by_cases hold : p.name = old
    · rw [if_pos hold]
      by_cases ho : other = new
      · subst ho
        simp [hold]
      · have hgone : ∀ q ∈ rest, q.name ≠ old := fun q hq e =>
          hp (List.mem_map.mpr ⟨q, hq, e.trans hold.symm⟩)
        have hskip : rest.find? (fun q => decide (q.name = old)) = none :=
          List.find?_eq_none.mpr fun q hq => by simp [hgone q hq]
        by_cases hoo : other = old
        · subst hoo
          simpa [Ne.symm ho, ho] using hgone
        · simp [Ne.symm ho, ho, hoo, hold, Ne.symm hoo]
    · rw [if_neg hold, List.find?_cons, ih hrest hrestnew]
      by_cases ho : other = new
      · subst ho
        simp [hpnew, hold]
      · by_cases hoo : other = old
        · subst hoo
          simp [hold, ho]
        · by_cases hpo : p.name = other
          · simp [hpo, ho, hoo]
          · simp [hpo, ho, hoo]

theorem names_renamePort {old new : Ident} (c : Cell) (hnodup : (c.ports.map (·.name)).Nodup)
    (hnew : c.port? new = none) : ((c.renamePort old new).ports.map (·.name)).Nodup := by
  have hfree : new ∉ c.ports.map (·.name) := by
    intro hmem
    obtain ⟨p, hp, hname⟩ := List.mem_map.mp hmem
    have := List.find?_eq_none.mp hnew p hp
    simp [hname] at this
  show ((Port.modifyFirst old _ c.ports).map _).Nodup
  revert hnodup hfree
  generalize c.ports = ports
  intro hnodup hfree
  induction ports with
  | nil => exact List.nodup_nil
  | cons p rest ih =>
    obtain ⟨hp, hrest⟩ := List.nodup_cons.mp hnodup
    have hfree' : new ∉ rest.map (·.name) := fun h => hfree (List.mem_cons_of_mem p.name h)
    unfold Port.modifyFirst
    split
    · exact List.nodup_cons.mpr ⟨hfree', hrest⟩
    · refine List.nodup_cons.mpr ⟨fun hmem => ?_, ih hrest hfree'⟩
      obtain ⟨q, hq, hname⟩ := List.mem_map.mp hmem
      rcases Port.mem_modifyFirst hq with hq | ⟨q', hq', rfl⟩
      · exact hp (List.mem_map.mpr ⟨q, hq, hname⟩)
      · have hpnew : new = p.name := hname
        exact hfree (List.mem_cons.mpr (Or.inl hpnew))

theorem declared_unwired : c.unwired.ports.map (fun p => (p.name, p.direction)) =
    c.ports.map fun p => (p.name, p.direction) := by
  show List.map _ (List.map _ _) = _
  rw [List.map_map]
  rfl

theorem hasOutput_unwired : c.unwired.hasOutput = c.hasOutput := by
  show (List.map _ _).any _ = _
  rw [List.any_map]
  rfl

theorem port?_unwired : c.unwired.port? name = (c.port? name).map fun p => { p with net := none } := by
  show (c.ports.map _).find? _ = _
  rw [List.find?_map]
  rfl

end Cell

namespace Net

/-- The net with a port in the place that its direction asks for. -/
def hold (n : Net) (r : PortRef) : Direction → Net
  | .output => n.drive r
  | .input | .inout => n.addSink r

theorem name_hold (n : Net) (r : PortRef) (d : Direction) : (n.hold r d).name = n.name := by
  cases d <;> rfl

theorem constant_hold (n : Net) (r : PortRef) (d : Direction) :
    (n.hold r d).constant = n.constant := by
  cases d <;> rfl

/-! A port that is given a new name takes its place, if the new name had none. -/

section Replace

variable {n : Net} {old new q : PortRef}

theorem driver_replace (hnew : n.driver ≠ some new) :
    (n.replace old new).driver = some q ↔
      if q = new then n.driver = some old else q ≠ old ∧ n.driver = some q := by
  unfold replace
  by_cases hd : n.driver = some old
  · by_cases hq : q = new
    · simp [hd, hq]
    · simp [hd, hq, Ne.symm hq, eq_comm]
  · by_cases hq : q = new
    · simp [hd, hq, hnew]
    · have hold : n.driver = some q → q ≠ old := fun h e => hd (e ▸ h)
      simpa [hd, hq] using hold

theorem mem_sinks_replace (hnew : new ∉ n.sinks) :
    q ∈ (n.replace old new).sinks ↔
      if q = new then old ∈ n.sinks else q ≠ old ∧ q ∈ n.sinks := by
  show q ∈ n.sinks.map _ ↔ _
  rw [List.mem_map]
  by_cases hq : q = new
  · rw [if_pos hq]
    constructor
    · rintro ⟨s, hs, hsq⟩
      by_cases hso : s = old
      · exact hso ▸ hs
      · rw [if_neg hso] at hsq
        rw [hsq, hq] at hs
        exact absurd hs hnew
    · exact fun hs => ⟨old, hs, by rw [if_pos rfl, hq]⟩
  · rw [if_neg hq]
    constructor
    · rintro ⟨s, hs, hsq⟩
      by_cases hso : s = old
      · rw [if_pos hso] at hsq
        exact absurd hsq.symm hq
      · rw [if_neg hso] at hsq
        exact ⟨hsq ▸ hso, hsq ▸ hs⟩
    · exact fun ⟨hqo, hs⟩ => ⟨q, hs, if_neg hqo⟩

theorem nodup_sinks_replace (hnew : new ∉ n.sinks) (h : n.sinks.Nodup) :
    (n.replace old new).sinks.Nodup := by
  refine h.map_on ?_
  intro s hs t ht hst
  have hsnew : s ≠ new := fun e => hnew (e ▸ hs)
  have htnew : t ≠ new := fun e => hnew (e ▸ ht)
  by_cases hso : s = old <;> by_cases hto : t = old
  · rw [hso, hto]
  · rw [if_pos hso, if_neg hto] at hst
    exact absurd hst.symm htnew
  · rw [if_neg hso, if_pos hto] at hst
    exact absurd hst hsnew
  · rwa [if_neg hso, if_neg hto] at hst

end Replace

end Net

/-! ## Views of a netlist -/

namespace Netlist

/-- The port of a reference. -/
def port? (nl : Netlist) (r : PortRef) : Option Port := (nl.cell? r.cell).bind fun c => c.port? r.port

/-- The net a port is on. -/
def wire (nl : Netlist) (r : PortRef) : Option NetId := nl.netOf r.cell r.port

/-- The direction of a port. -/
def dir (nl : Netlist) (r : PortRef) : Option Direction := (nl.port? r).map (·.direction)

/-- A cell without its connections. -/
def bare (nl : Netlist) (id : CellId) : Option Cell := (nl.cell? id).map Cell.unwired

/-- The name and the constant of a net. -/
def tag (nl : Netlist) (k : NetId) : Option (String × Option ConstValue) :=
  (nl.net? k).map fun n => (n.name, n.constant)

variable {nl nl' : Netlist} {r q : PortRef} {k k' : NetId} {id : CellId}

theorem wire_eq : nl.wire r = (nl.port? r).bind (·.net) := by
  show (nl.cell? r.cell).bind _ = _
  unfold port?
  cases nl.cell? r.cell <;> rfl

theorem dir_eq_of_bare :
    nl.dir r = (nl.bare r.cell).bind fun c => (c.port? r.port).map (·.direction) := by
  unfold dir port? bare
  cases nl.cell? r.cell with
  | none => rfl
  | some c =>
    show _ = (c.unwired.port? r.port).map _
    rw [Cell.port?_unwired, Option.map_map]
    rfl

theorem dir_congr (h : nl'.bare r.cell = nl.bare r.cell) : nl'.dir r = nl.dir r := by
  rw [dir_eq_of_bare, dir_eq_of_bare, h]

theorem constValue_eq : nl.constValue k = (nl.tag k).bind (·.2) := by
  unfold constValue tag
  cases nl.net? k <;> rfl

theorem bare_of_cell? {c : Cell} (hc : nl.cell? id = some c) : nl.bare id = some c.unwired := by
  rw [bare, hc, Option.map_some]

theorem bare_isSome : (nl.bare id).isSome = (nl.cell? id).isSome := by simp [bare]

theorem mem_cellIds : id ∈ nl.cellIds ↔ (nl.bare id).isSome := by
  rw [bare_isSome]
  exact nl.cells.mem_ids

theorem live_of_mem_cellIds (h : id ∈ nl.cellIds) : (nl.cell? id).isSome := by
  rw [← bare_isSome]
  exact mem_cellIds.mp h

theorem tag_isSome : (nl.tag k).isSome = (nl.net? k).isSome := by simp [tag]

/-! ## Elementary changes -/

/-- The handle of the next cell. -/
def nextCell (nl : Netlist) : CellId := nl.cells.next

/-- The handle of the next net. -/
def nextNet (nl : Netlist) : NetId := nl.nets.next

/-- Adds a cell. -/
def addCell (nl : Netlist) (c : Cell) : Netlist := { nl with cells := (nl.cells.alloc c).2 }

/-- Adds a net. -/
def addNet (nl : Netlist) (n : Net) : Netlist := { nl with nets := (nl.nets.alloc n).2 }

/-- Changes a cell. -/
def mapCell (nl : Netlist) (id : CellId) (f : Cell → Cell) : Netlist :=
  { nl with cells := nl.cells.modify id f }

/-- Puts a port on a net, or on none, without telling the net. -/
def setWire (nl : Netlist) (r : PortRef) (net : Option NetId) : Netlist :=
  nl.mapCell r.cell fun c => c.setNet r.port net

/-- Changes the record of a net. -/
def mapNet (nl : Netlist) (k : NetId) (g : Net → Net) : Netlist :=
  { nl with nets := nl.nets.modify k g }

/-- Puts a port of the given direction on a net. -/
def attach (nl : Netlist) (r : PortRef) (d : Direction) (k : NetId) : Netlist :=
  (nl.mapNet k fun n => n.hold r d).setWire r (some k)

/-- Takes a port off a net. -/
def detach (nl : Netlist) (r : PortRef) (k : NetId) : Netlist :=
  (nl.mapNet k fun n => n.detach r).setWire r none

/-- Removes a cell, also from the queue. -/
def dropCell (nl : Netlist) (id : CellId) : Netlist :=
  { nl with queue := nl.queue.erase id, cells := (nl.cells.remove id).2 }

/-- Removes a net, also from the record of constant nets. -/
def dropNet (nl : Netlist) (k : NetId) : Netlist :=
  { nl with
    tiedLow := if nl.tiedLow = some k then none else nl.tiedLow
    tiedHigh := if nl.tiedHigh = some k then none else nl.tiedHigh
    nets := (nl.nets.remove k).2 }

/-- Records a net as the constant net of a value. -/
def recordConstant (nl : Netlist) (v : ConstValue) (k : NetId) : Netlist :=
  match v with
  | .zero => { nl with tiedLow := some k }
  | .one => { nl with tiedHigh := some k }

variable {net : Option NetId} {f : Cell → Cell} {g : Net → Net} {other : CellId}

theorem nextNet_addNet {n : Net} : (nl.addNet n).nextNet.index = nl.nextNet.index + 1 :=
  nl.nets.index_next_alloc n

theorem nextNet_mapNet : (nl.mapNet k g).nextNet = nl.nextNet := nl.nets.next_modify

theorem nextNet_dropNet : (nl.dropNet k).nextNet = nl.nextNet := nl.nets.next_remove

theorem nextNet_recordConstant {v : ConstValue} : (nl.recordConstant v k).nextNet = nl.nextNet := by
  cases v <;> rfl

/-- Handles of nets are given out in order. -/
theorem index_lt_nextNet {n : Net} (h : nl.net? k = some n) : k.index < nl.nextNet.index :=
  nl.nets.index_lt_next (Option.isSome_of_eq_some h)

theorem cell?_nextCell : nl.cell? nl.nextCell = none := nl.cells.get?_next

theorem net?_nextNet : nl.net? nl.nextNet = none := nl.nets.get?_next

theorem cell?_addCell {c : Cell} : (nl.addCell c).cell? id =
    if id = nl.nextCell then some c else nl.cell? id :=
  Arena.get?_alloc nl.cells c id

theorem net?_addNet {n : Net} : (nl.addNet n).net? k =
    if k = nl.nextNet then some n else nl.net? k :=
  Arena.get?_alloc nl.nets n k

theorem cell?_mapCell : (nl.mapCell id f).cell? other =
    if other = id then (nl.cell? id).map f else nl.cell? other :=
  Arena.get?_modify nl.cells id f other

theorem cell?_setWire : (nl.setWire r net).cell? id =
    if id = r.cell then (nl.cell? r.cell).map (·.setNet r.port net) else nl.cell? id :=
  cell?_mapCell

theorem cell?_dropCell : (nl.dropCell id).cell? other = if other = id then none else nl.cell? other :=
  Arena.get?_remove nl.cells id other

theorem net?_dropNet : (nl.dropNet k).net? k' = if k' = k then none else nl.net? k' :=
  Arena.get?_remove nl.nets k k'

theorem constantNet?_dropNet {v : ConstValue} : (nl.dropNet k).constantNet? v =
    if nl.constantNet? v = some k then none else nl.constantNet? v := by
  cases v <;> rfl

theorem constantNet?_recordConstant {v w : ConstValue} : (nl.recordConstant v k).constantNet? w =
    if w = v then some k else nl.constantNet? w := by
  cases v <;> cases w <;> rfl

theorem port?_mapCell : (nl.mapCell id f).port? r =
    if r.cell = id then (nl.cell? id).bind fun c => (f c).port? r.port else nl.port? r := by
  unfold port?
  rw [cell?_mapCell]
  split
  · rw [Option.bind_map]
    rfl
  · rfl

theorem net?_mapNet : (nl.mapNet k g).net? k' =
    if k' = k then (nl.net? k).map g else nl.net? k' :=
  Arena.get?_modify nl.nets k g k'

theorem port?_setWire : (nl.setWire r net).port? q =
    if q = r then (nl.port? r).map fun p => { p with net } else nl.port? q := by
  obtain ⟨id, name⟩ := q
  unfold port?
  rw [cell?_setWire]
  by_cases hid : id = r.cell
  · subst hid
    have href : (⟨r.cell, name⟩ : PortRef) = r ↔ name = r.port := by
      constructor
      · exact fun e => congrArg PortRef.port e
      · rintro rfl
        rfl
    rw [if_pos rfl]
    cases nl.cell? r.cell with
    | none => simp
    | some c =>
      show (c.setNet r.port net).port? name = _
      rw [Cell.port?_setNet]
      simp only [href]
      rfl
  · have href : (⟨id, name⟩ : PortRef) ≠ r := fun e => hid (congrArg PortRef.cell e)
    rw [if_neg hid, if_neg href]

theorem bare_setWire : (nl.setWire r net).bare = nl.bare := by
  funext id
  unfold bare
  rw [cell?_setWire]
  split
  · next h =>
    subst h
    rw [Option.map_map]
    congr 1
    funext c
    exact Cell.unwired_setNet
  · rfl

theorem wire_setWire (h : (nl.port? r).isSome) :
    (nl.setWire r net).wire = Function.update nl.wire r net := by
  funext q
  rw [wire_eq, port?_setWire]
  by_cases hq : q = r
  · subst hq
    obtain ⟨p, hp⟩ := Option.isSome_iff_exists.mp h
    simp [hp]
  · rw [if_neg hq, Function.update_of_ne hq, wire_eq]

theorem tag_mapNet (hname : ∀ n, (g n).name = n.name) (hconstant : ∀ n, (g n).constant = n.constant) :
    (nl.mapNet k g).tag = nl.tag := by
  funext k'
  unfold tag
  rw [net?_mapNet]
  split
  · next h =>
    subst h
    rw [Option.map_map]
    congr 1
    funext n
    show ((g n).name, (g n).constant) = _
    rw [hname, hconstant]
  · rfl

theorem net?_attach {d : Direction} : (nl.attach r d k).net? k' =
    if k' = k then (nl.net? k).map fun n => n.hold r d else nl.net? k' :=
  net?_mapNet

theorem net?_detach : (nl.detach r k).net? k' =
    if k' = k then (nl.net? k).map fun n => n.detach r else nl.net? k' :=
  net?_mapNet

theorem bare_attach {d : Direction} : (nl.attach r d k).bare = nl.bare := bare_setWire

theorem bare_detach : (nl.detach r k).bare = nl.bare := bare_setWire

theorem tag_attach {d : Direction} : (nl.attach r d k).tag = nl.tag :=
  tag_mapNet (fun n => n.name_hold r d) fun n => n.constant_hold r d

theorem tag_detach : (nl.detach r k).tag = nl.tag := tag_mapNet (fun _ => rfl) fun _ => rfl

theorem wire_attach {d : Direction} (h : (nl.port? r).isSome) :
    (nl.attach r d k).wire = Function.update nl.wire r (some k) := by
  show ((nl.mapNet k fun n => n.hold r d).setWire r (some k)).wire = _
  exact wire_setWire h

theorem wire_detach (h : (nl.port? r).isSome) :
    (nl.detach r k).wire = Function.update nl.wire r none := by
  show ((nl.mapNet k fun n => n.detach r).setWire r none).wire = _
  exact wire_setWire h

/-! ## What cells show -/

section Shown

variable {γ : Type} {g : Cell → γ}

/-- What `g` shows of each live cell. -/
def shown (g : Cell → γ) (nl : Netlist) : CellId → Option γ := fun id => (nl.cell? id).map g

/-- A change of a cell that `g` does not show. -/
theorem shown_mapCell (hf : ∀ c, g (f c) = g c) : (nl.mapCell id f).shown g = nl.shown g := by
  funext other
  unfold shown
  rw [cell?_mapCell]
  split
  · next h =>
    subst h
    rw [Option.map_map]
    exact congrArg (Option.map · _) (funext hf)
  · rfl

/-- A change of the ports of a cell if `g` does not show ports. -/
theorem shown_mapPorts (hg : ∀ c ports, g { c with ports } = g c)
    (hf : ∀ c, { c with ports := (f c).ports } = f c) : (nl.mapCell id f).shown g = nl.shown g :=
  shown_mapCell fun c => by rw [← hf c, hg]

theorem shown_addCell {c : Cell} :
    (nl.addCell c).shown g = Function.update (nl.shown g) nl.nextCell (some (g c)) := by
  funext other
  unfold shown
  rw [cell?_addCell]
  by_cases ho : other = nl.nextCell
  · subst ho
    simp
  · rw [if_neg ho, Function.update_of_ne ho]

theorem shown_dropCell : (nl.dropCell id).shown g = Function.update (nl.shown g) id none := by
  funext other
  unfold shown
  rw [cell?_dropCell]
  by_cases ho : other = id
  · subst ho
    simp
  · rw [if_neg ho, Function.update_of_ne ho]

end Shown

end Netlist
end FpgaPacking
