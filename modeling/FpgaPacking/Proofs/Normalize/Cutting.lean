import FpgaPacking.Proofs.Netlist.Operations

/-!
# Cutting off inputs

A netlist with some inputs of a cell taken off their nets, as one change of it.
Taking them off one by one leads to the same netlist in any order, slot for slot,
so that what else there is in the netlist need not be listed.
-/

namespace FpgaPacking

/-! ## Arenas -/

namespace Arena

variable {k : Kind} {α : Type} {arena : Arena k α} {id : Id k} {f : α → α}

def map (f : α → α) (arena : Arena k α) : Arena k α :=
  { arena with slots := arena.slots.map (Option.map f) }

theorem get?_map : (arena.map f).get? id = (arena.get? id).map f := by
  unfold map get?
  rw [Array.getElem?_map]
  cases arena.slots[id.index]? with
  | none => rfl
  | some slot => rfl

end Arena

/-! ## Ports and nets -/

namespace Port

variable {name : Ident} {names : List Ident} {p : Port} {f : Port → Port}

/-- The port off its net, if its name is listed. -/
def cutIn (names : List Ident) (p : Port) : Port := if p.name ∈ names then { p with net := none } else p

theorem name_cutIn : (p.cutIn names).name = p.name := by
  unfold cutIn
  split <;> rfl

theorem net_cutIn : (p.cutIn names).net = if p.name ∈ names then none else p.net := by
  unfold cutIn
  split <;> rfl

theorem cutIn_nil : p.cutIn [] = p := if_neg List.not_mem_nil

theorem cutIn_append {more : List Ident} : p.cutIn (names ++ more) = (p.cutIn names).cutIn more := by
  unfold cutIn
  by_cases h : p.name ∈ names
  · simp [h]
  · simp [h]

/-- Where names are distinct, changing the first port of a name is changing every such port. -/
theorem modifyFirst_eq_map {ports : List Port} (h : (ports.map (·.name)).Nodup) :
    modifyFirst name f ports = ports.map fun p => if p.name = name then f p else p := by
  induction ports with
  | nil => rfl
  | cons p rest ih =>
    obtain ⟨hp, hrest⟩ := List.nodup_cons.mp h
    unfold modifyFirst
    rw [List.map_cons]
    by_cases hname : p.name = name
    · rw [if_pos hname, if_pos hname]
      have hsame : rest.map (fun q => if q.name = name then f q else q) = rest.map id :=
        List.map_congr_left fun q hq =>
          if_neg fun e => hp (List.mem_map.mpr ⟨q, hq, e.trans hname.symm⟩)
      rw [hsame, List.map_id]
    · rw [if_neg hname, if_neg hname, ih hrest]

end Port

namespace Cell

variable {c : Cell} {name : Ident} {names : List Ident}

/-- The cell with the ports of the given names off their nets. -/
def cut (c : Cell) (names : List Ident) : Cell := { c with ports := c.ports.map (Port.cutIn names) }

theorem names_cut : (c.cut names).ports.map (·.name) = c.ports.map (·.name) := by
  show (c.ports.map _).map _ = _
  rw [List.map_map]
  exact List.map_congr_left fun p _ => Port.name_cutIn

theorem port?_cut : (c.cut names).port? name = (c.port? name).map (Port.cutIn names) := by
  show (c.ports.map _).find? _ = _
  rw [List.find?_map]
  congr 2
  funext p
  show decide ((p.cutIn names).name = name) = _
  rw [Port.name_cutIn]

theorem netOf_cut : (c.cut names).netOf name = if name ∈ names then none else c.netOf name := by
  unfold netOf
  rw [port?_cut]
  cases hp : c.port? name with
  | none => simp
  | some p =>
    show (p.cutIn names).net = _
    rw [Port.net_cutIn, name_of_port? hp]
    rfl

theorem cut_nil : c.cut [] = c := by
  show ({ c with ports := _ } : Cell) = c
  rw [List.map_congr_left fun p _ => Port.cutIn_nil, List.map_id']

theorem setNet_cut (h : (c.ports.map (·.name)).Nodup) :
    (c.cut names).setNet name none = c.cut (names ++ [name]) := by
  have hports : Port.modifyFirst name (fun p => { p with net := none }) (c.cut names).ports =
      (c.cut (names ++ [name])).ports := by
    rw [Port.modifyFirst_eq_map (by rw [names_cut]; exact h)]
    show (c.ports.map _).map _ = c.ports.map _
    rw [List.map_map]
    refine List.map_congr_left fun p _ => ?_
    show (if (p.cutIn names).name = name then _ else _) = _
    rw [Port.cutIn_append]
    unfold Port.cutIn
    simp
  show ({ c.cut names with ports := _ } : Cell) = _
  rw [hports]
  rfl

end Cell

namespace Net

variable {n : Net} {id : CellId} {names : List Ident} {port : Ident}

/-- The net without the readers of the given names at a cell. -/
def withoutReaders (n : Net) (id : CellId) (names : List Ident) : Net :=
  { n with sinks := n.sinks.filter fun r => ¬(r.cell = id ∧ r.port ∈ names) }

theorem withoutReaders_append : n.withoutReaders id (names ++ [port]) =
    { n with sinks := (n.withoutReaders id names).sinks.filter fun r => r ≠ ⟨id, port⟩ } := by
  have hsinks : (n.sinks.filter fun r => ¬(r.cell = id ∧ r.port ∈ names ++ [port])) =
      (n.sinks.filter fun r => ¬(r.cell = id ∧ r.port ∈ names)).filter fun r => r ≠ ⟨id, port⟩ := by
    rw [List.filter_filter]
    refine List.filter_congr fun r _ => ?_
    obtain ⟨cell, name⟩ := r
    by_cases hcell : cell = id <;> by_cases hname : name = port <;>
      simp [hcell, hname, PortRef.mk.injEq]
  exact congrArg (fun sinks => { n with sinks }) hsinks

theorem detach_withoutReaders (h : n.driver ≠ some ⟨id, port⟩) :
    (n.withoutReaders id names).detach ⟨id, port⟩ = n.withoutReaders id (names ++ [port]) := by
  rw [withoutReaders_append]
  unfold detach
  rw [if_neg (show (n.withoutReaders id names).driver ≠ some ⟨id, port⟩ from h)]
  rfl

theorem withoutReaders_of_not_mem (h : ⟨id, port⟩ ∉ n.sinks) :
    n.withoutReaders id names = n.withoutReaders id (names ++ [port]) := by
  rw [withoutReaders_append]
  have hsinks : (n.withoutReaders id names).sinks.filter (fun r => r ≠ ⟨id, port⟩) =
      (n.withoutReaders id names).sinks := by
    refine List.filter_eq_self.mpr fun r hr => decide_eq_true ?_
    rintro rfl
    exact h (List.mem_filter.mp hr).1
  rw [hsinks]
  rfl

end Net

/-! ## Netlists -/

namespace Netlist

variable {nl : Netlist} {id other : CellId} {c : Cell} {names : List Ident} {port : Ident} {k : NetId}
  {r : PortRef} {f g : Cell → Cell}

/-- The netlist with inputs of a cell taken off their nets. -/
def cutInputs (nl : Netlist) (id : CellId) (names : List Ident) : Netlist :=
  { nl with
    cells := nl.cells.modify id fun c => c.cut names
    nets := nl.nets.map fun n => n.withoutReaders id names }

theorem cell?_cutInputs : (nl.cutInputs id names).cell? other =
    if other = id then (nl.cell? id).map fun c => c.cut names else nl.cell? other :=
  Arena.get?_modify nl.cells id _ other

theorem net?_cutInputs :
    (nl.cutInputs id names).net? k = (nl.net? k).map fun n => n.withoutReaders id names :=
  Arena.get?_map

theorem cutInputs_nil : nl.cutInputs id [] = nl := by
  have hcells : nl.cells.modify id (fun c => c.cut []) = nl.cells :=
    Arena.modify_eq_self fun _ _ => Cell.cut_nil
  have hnets : nl.nets.map (fun n => n.withoutReaders id []) = nl.nets := by
    refine Arena.ext_get? (by simp [Arena.map]) rfl fun k => ?_
    rw [Arena.get?_map]
    simp [Net.withoutReaders]
  unfold cutInputs
  rw [hcells, hnets]

theorem cutInputs_congr {names' : List Ident} (h : ∀ name, name ∈ names ↔ name ∈ names') :
    nl.cutInputs id names = nl.cutInputs id names' := by
  have hport : Port.cutIn names = Port.cutIn names' := by
    funext p
    unfold Port.cutIn
    simp only [h]
  have hnet : (fun n : Net => n.withoutReaders id names) = fun n => n.withoutReaders id names' := by
    funext n
    unfold Net.withoutReaders
    simp only [h]
  unfold cutInputs Cell.cut
  rw [hport, hnet]

theorem constValue_cutInputs : (nl.cutInputs id names).constValue k = nl.constValue k := by
  unfold constValue
  rw [net?_cutInputs]
  cases nl.net? k <;> rfl

theorem netOf_cutInputs : (nl.cutInputs id names).netOf id port =
    if port ∈ names then none else nl.netOf id port := by
  unfold netOf
  rw [cell?_cutInputs, if_pos rfl]
  cases nl.cell? id with
  | none => simp
  | some c => exact Cell.netOf_cut

theorem detach_cutInputs (hw : nl.WellFormed)
    (hk : nl.wire ⟨id, port⟩ = some k) (hd : nl.dir ⟨id, port⟩ = some .input) :
    (nl.cutInputs id names).detach ⟨id, port⟩ k = nl.cutInputs id (names ++ [port]) := by
  have hcells : (nl.cells.modify id fun c => c.cut names).modify id (fun c => c.setNet port none) =
      nl.cells.modify id fun c => c.cut (names ++ [port]) := by
    rw [Arena.modify_modify]
    exact Arena.modify_congr fun c hc => Cell.setNet_cut (hw.port_names id c hc)
  have hnets : (nl.nets.map fun n => n.withoutReaders id names).modify k
      (fun n => n.detach ⟨id, port⟩) = nl.nets.map fun n => n.withoutReaders id (names ++ [port]) := by
    refine Arena.ext_get? (by simp [Arena.map, Arena.modify]) rfl fun k' => ?_
    rw [Arena.get?_modify, Arena.get?_map, Arena.get?_map, Arena.get?_map]
    split
    · next hkk =>
      subst hkk
      rw [Option.map_map]
      refine Option.map_congr fun n hn => Net.detach_withoutReaders fun e => ?_
      rw [((hw.wired.driver_iff k' n _ hn).mp e).2] at hd
      cases hd
    · next hkk =>
      -- The port is on another net, so it is not among the readers of this one.
      refine Option.map_congr fun n hn => Net.withoutReaders_of_not_mem fun hr => ?_
      exact hkk (Option.some.inj (((hw.wired.sink_iff k' n _ hn).mp hr).1.symm.trans hk))
  exact congrArg₂ (fun cells nets => { nl with cells, nets }) hcells hnets

/-- A change of a cell that does not depend on the nets of its ports can be made before the cut. -/
theorem detach_mapCell (hf : ∀ c, (f c).setNet port none = f (c.setNet port none)) :
    (nl.mapCell id f).detach ⟨id, port⟩ k = (nl.detach ⟨id, port⟩ k).mapCell id f := by
  have hcells : (nl.cells.modify id f).modify id (fun c => c.setNet port none) =
      (nl.cells.modify id fun c => c.setNet port none).modify id f := by
    rw [Arena.modify_modify, Arena.modify_modify]
    exact Arena.modify_congr fun c _ => hf c
  exact congrArg (fun cells => { nl.detach ⟨id, port⟩ k with cells }) hcells

theorem mapCell_mapCell : (nl.mapCell id f).mapCell id g = nl.mapCell id (g ∘ f) :=
  congrArg (fun cells => { nl with cells }) Arena.modify_modify

end Netlist
end FpgaPacking
