import FpgaPacking.Proofs.Normalize.Rounds
import FpgaPacking.Proofs.Reachable

/-!
# Normalization preserves the logic

What `Settles` says of the views, said of the netlist itself.  A cell that
survives reads the same signals as before: the nets whose values are not fixed
are the same and have the same drivers, and a net whose value is fixed has given
way to the constant net of that value, or to nothing where a truth table has
absorbed it.  Truth tables select the same values.
-/

namespace FpgaPacking
namespace Normalize

open Netlist

variable {options : NormalizeOptions} {nl nl' : Netlist} {s s' : Session} {report : Report}
  {id : CellId} {c c' : Cell} {k : NetId} {v : ConstValue}

/-- The port is an input that the truth-table shape of its cell lists. -/
def TableInput (options : NormalizeOptions) (c : Cell) (p : Port) : Prop :=
  p.direction = .input ∧
    ∃ shape, options.lutShapes.find? c.cellType = some shape ∧ p.name ∈ shape.inputs

/-- No port that selects the row of the cell's truth table is an output. -/
def ReadsTable (options : NormalizeOptions) (c : Cell) : Prop :=
  ∀ shape, options.lutShapes.find? c.cellType = some shape →
    ∀ p ∈ c.ports, p.name ∈ shape.inputs → p.direction ≠ .output

/-- What normalization leaves of the cell `c`, which is `c'` afterwards. -/
structure KeepsLogic (options : NormalizeOptions) (nl nl' : Netlist) (id : CellId) (c c' : Cell) :
    Prop where
  name : c'.name = c.name
  cellType : c'.cellType = c.cellType
  attrs : c'.attrs = c.attrs
  bel : c'.bel = c.bel
  role : c'.role = c.role
  cluster : c'.cluster = c.cluster
  ports : c'.ports.map (fun p => (p.name, p.direction)) = c.ports.map fun p => (p.name, p.direction)
  /-- Only the truth table may change. -/
  params : ∀ name, (∀ shape, options.lutShapes.find? c.cellType = some shape → name ≠ shape.param) →
    c'.params.find? name = c.params.find? name
  unconnected : ∀ p ∈ c.ports, p.direction ≠ .output → p.net = none → c'.netOf p.name = none
  /-- A reader of a net without a fixed value stays on it, and the net keeps its driver. -/
  free : ∀ p ∈ c.ports, p.direction ≠ .output → ∀ k, p.net = some k →
    (∀ v, ¬Tied options nl k v) → c'.netOf p.name = some k ∧
      ∃ n n', nl.net? k = some n ∧ nl'.net? k = some n' ∧ n'.driver = n.driver
  /-- A table input on a net with a fixed value is disconnected. -/
  absorbed : ∀ p ∈ c.ports, TableInput options c p → ∀ k v, p.net = some k →
    Tied options nl k v → c'.netOf p.name = none
  /-- Any other reader of such a net goes to the constant net of the value. -/
  tied : ∀ p ∈ c.ports, p.direction ≠ .output → ¬TableInput options c p → ∀ k v,
    p.net = some k → Tied options nl k v →
      ∃ k', nl'.constantNet? v = some k' ∧ c'.netOf p.name = some k'
  /-- The truth table gives the same value whatever values the other nets have. -/
  value : ReadsTable options c → ∀ high : NetId → Bool,
    (∀ k v, Tied options nl k v → high k = v.toBool) →
    (∀ k v, nl'.constValue k = some v → high k = v.toBool) →
      selectedValue options high nl' id = selectedValue options high nl id

theorem wire_eq_netOf (hc : nl.cell? id = some c) (name : Ident) :
    nl.wire ⟨id, name⟩ = c.netOf name := by
  show (nl.cell? id).bind _ = _
  rw [hc]
  rfl

theorem foldable_iff (hw : nl.WellFormed) (hc : nl.cell? id = some c) {p : Port}
    (hp : p ∈ c.ports) : Foldable options nl ⟨id, p.name⟩ ↔ TableInput options c p := by
  have hbare : nl.bare id = some c.unwired := bare_of_cell? hc
  unfold Foldable TableInput
  rw [(hw.port_of_mem hc hp).2]
  constructor
  · rintro ⟨hd, d, shape, hd', hshape, hport⟩
    obtain rfl := Option.some.inj (hbare.symm.trans hd')
    exact ⟨Option.some.inj hd, shape, hshape, hport⟩
  · rintro ⟨hd, shape, hshape, hport⟩
    exact ⟨congrArg some hd, c.unwired, shape, hbare, hshape, hport⟩

theorem inputsRead_of_readsTable (hc : nl.cell? id = some c) (h : ReadsTable options c) :
    InputsRead options nl id c.unwired := by
  intro shape hshape port hport hd
  obtain ⟨p, hp, hout⟩ := Option.map_eq_some_iff.mp hd
  have hfound : c.port? port = some p := by simpa [port?, hc] using hp
  refine h shape hshape p (Cell.mem_ports_of_port? hfound) ?_ hout
  rw [Cell.name_of_port? hfound]
  exact hport

/-- Where there is nothing left to merge, only constant nets are tied. -/
theorem Settles.constValue {gone : List CellId} (h : Settles options gone nl nl')
    (ht : Tied options nl' k v) : nl'.constValue k = some v := by
  rcases (tied_iff h.wellFormed).mp ht with hv | ⟨r, c, hr, hd, hc, hv⟩
  · exact hv
  · have hnone := h.merged r k c hr hd hc
    rw [hv] at hnone
    cases hnone

/-- A net that is read before and after has the same driver. -/
theorem Refines.same_driver {gone : List CellId} {r : PortRef} (h : Refines options gone nl nl')
    (hw : nl.WellFormed) (hr : nl.wire r = some k) (hr' : nl'.wire r = some k)
    (hd : nl.dir r ≠ some .output) :
    ∃ n n', nl.net? k = some n ∧ nl'.net? k = some n' ∧ n'.driver = n.driver := by
  have hw' := h.wellFormed
  obtain ⟨n, hn⟩ := Option.isSome_iff_exists.mp (hw.wired.wire_live r k hr)
  obtain ⟨n', hn'⟩ := Option.isSome_iff_exists.mp (hw'.wired.wire_live r k hr')
  refine ⟨n, n', hn, hn', Option.ext fun q => ?_⟩
  have hdriver : n.driver = some q ↔ nl.wire q = some k ∧ nl.dir q = some .output :=
    hw.wired.driver_iff k n q hn
  have hdriver' : n'.driver = some q ↔ nl'.wire q = some k ∧ nl'.dir q = some .output :=
    hw'.wired.driver_iff k n' q hn'
  rw [hdriver, hdriver']
  constructor
  · exact fun ⟨hq, hdq⟩ => h.output hq hdq
  · rintro ⟨hq, hdq⟩
    have hq' := h.drivers r q k hr' (h.dir_ne_output hd) hq hdq
    exact ⟨hq', (h.dir (bare_isSome_of_wire hq')).trans hdq⟩

theorem Settles.keepsLogic {gone : List CellId} (h : Settles options gone nl nl')
    (hw : nl.WellFormed) (hc' : nl'.cell? id = some c') :
    ∃ c, nl.cell? id = some c ∧ KeepsLogic options nl nl' id c c' := by
  have hbare' : nl'.bare id = some c'.unwired := bare_of_cell? hc'
  obtain ⟨d, hd, params, heq, hparams⟩ := h.cells id _ hbare'
  obtain ⟨c, hc, rfl⟩ := Option.map_eq_some_iff.mp hd
  have hgone : id ∉ gone := fun hid => by
    rw [h.dead id hid] at hbare'
    cases hbare'
  have hfield : ∀ {α : Type} (g : Cell → α), g c'.unwired = g { c.unwired with params } :=
    fun g => congrArg g heq
  have hwire : ∀ p ∈ c.ports, nl.wire ⟨id, p.name⟩ = p.net := fun p hp => (hw.port_of_mem hc hp).1
  have hreads : ∀ p ∈ c.ports, p.direction ≠ .output → nl.dir ⟨id, p.name⟩ ≠ some .output := by
    intro p hp hd
    rw [(hw.port_of_mem hc hp).2]
    exact fun e => hd (Option.some.inj e)
  refine ⟨c, hc,
    { name := hfield (·.name)
      cellType := hfield (·.cellType)
      attrs := hfield (·.attrs)
      bel := hfield (·.bel)
      role := hfield (·.role)
      cluster := hfield (·.cluster)
      ports := ?_
      params := fun name hname =>
        (congrArg (·.find? name) (hfield (·.params))).trans (hparams name hname)
      unconnected := fun p hp hd hk => ?_
      free := fun p hp hd k hk hfree => ?_
      absorbed := fun p hp hinput k v hk ht => ?_
      tied := fun p hp hd hinput k v hk ht => ?_
      value := fun hreadsTable high hbefore hafter => ?_ }⟩
  · rw [← Cell.declared_unwired, ← Cell.declared_unwired (c := c)]
    exact hfield fun d => d.ports.map fun p => (p.name, p.direction)
  · rw [← wire_eq_netOf hc']
    exact h.unconnected ⟨id, p.name⟩ hgone (hreads p hp hd) ((hwire p hp).trans hk)
  · have hkept := h.untied ⟨id, p.name⟩ k hgone (hreads p hp hd) ((hwire p hp).trans hk) hfree
    refine ⟨(wire_eq_netOf hc' p.name).symm.trans hkept, ?_⟩
    exact h.same_driver hw ((hwire p hp).trans hk) hkept (hreads p hp hd)
  · have hd : p.direction ≠ .output := by
      rw [hinput.1]
      exact nofun
    have hnet := (hwire p hp).trans hk
    rw [← wire_eq_netOf hc']
    rcases h.tied ⟨id, p.name⟩ k v hgone (hreads p hp hd) hnet ht with ⟨k', hk', ht'⟩ | ⟨hnone, -⟩
    · have hfoldable : Foldable options nl' ⟨id, p.name⟩ :=
        h.foldable (by simp [hbare']) ((foldable_iff hw hc hp).mpr hinput)
      have hfree := h.folded ⟨id, p.name⟩ k' hk' hfoldable
      rw [h.constValue ht'] at hfree
      cases hfree
    · exact hnone
  · have hnet := (hwire p hp).trans hk
    rcases h.tied ⟨id, p.name⟩ k v hgone (hreads p hp hd) hnet ht with ⟨k', hk', ht'⟩ | ⟨-, hfold⟩
    · refine ⟨k', (h.wellFormed.constant_recorded v k').mp (h.constValue ht'), ?_⟩
      exact (wire_eq_netOf hc' p.name).symm.trans hk'
    · exact absurd ((foldable_iff hw hc hp).mp hfold) hinput
  · exact h.values id _ hgone hd (inputsRead_of_readsTable hc hreadsTable) high hbefore
      fun k v ht => hafter k v (h.constValue ht)

/-- Normalization preserves the logic of every cell that survives it. -/
theorem normalize_preserves_logic {config : Config} {names : Names}
    (hvalid : config.validate = .ok ())
    (hoptions : ((NormalizeOptions.ofConfig config).run names).1 = options)
    (hw : s.netlist.WellFormed) (hunmarked : ∀ id, s.netlist.isMarked id = false)
    (h : normalize options s = .ok report s') :
    ∀ id c', s'.netlist.cell? id = some c' → ∃ c, s.netlist.cell? id = some c ∧
      KeepsLogic options s.netlist s'.netlist id c c' := by
  intro id c' hc'
  have hdistinct : options.DistinctInputs := by
    rw [← hoptions]
    exact distinctInputs_of_validate names hvalid
  obtain ⟨gone, hsettled⟩ := normalize_ok hdistinct hw hunmarked h
  exact hsettled.keepsLogic hw hc'

/-! ## A table with a tied input -/

namespace TiedInput

/-- Truth tables with two inputs; pads are kept, and one type of cells ties low. -/
def config : Config where
  chain := none
  boundary := ⟨none, none, none⟩
  lut := .ofList [("LUT2", ⟨"INIT", ["A", "B"]⟩)]
  normalize := ⟨["PAD"], ["GND"], []⟩
  rules := .empty

def names : Names where
  entered := #["INIT", "A", "B", "LUT2", "PAD", "GND", "F"]
  nodup := by decide +kernel

def settings : NormalizeOptions where
  lutShapes := .ofList [(⟨3⟩, ⟨⟨0⟩, [⟨1⟩, ⟨2⟩]⟩)]
  keepTypes := [⟨4⟩]
  gndDriverTypes := [⟨5⟩]
  vccDriverTypes := []

/-- Cell 0 ties the first input of the table in cell 1, which a pad drives and reads. -/
def session : Session := (Session.start names).after [
  .createCell ⟨5⟩ "low", .createCell ⟨3⟩ "table", .createCell ⟨4⟩ "pad",
  .createNet "x", .createNet "y", .createNet "z",
  .addPort ⟨0⟩ ⟨6⟩ .output,
  .addPort ⟨1⟩ ⟨1⟩ .input, .addPort ⟨1⟩ ⟨2⟩ .input, .addPort ⟨1⟩ ⟨6⟩ .output,
  .addPort ⟨2⟩ ⟨6⟩ .output, .addPort ⟨2⟩ ⟨1⟩ .input,
  .write ⟨1⟩ fun c => { c with params := c.params.insert ⟨0⟩ (.int 6) },
  .connect ⟨0⟩ ⟨6⟩ ⟨0⟩, .connect ⟨1⟩ ⟨1⟩ ⟨0⟩,
  .connect ⟨2⟩ ⟨6⟩ ⟨1⟩, .connect ⟨1⟩ ⟨2⟩ ⟨1⟩,
  .connect ⟨1⟩ ⟨6⟩ ⟨2⟩, .connect ⟨2⟩ ⟨1⟩ ⟨2⟩]

theorem unmarked (id : CellId) : session.netlist.isMarked id = false := by
  have hqueue : session.netlist.queue = .empty := by decide +kernel
  unfold isMarked
  rw [hqueue]
  rfl

theorem validate_config : config.validate = .ok () := by
  cases hresult : config.validate with
  | ok u => rfl
  | error e =>
    have hok : config.validate.isOk = true := by decide +kernel
    rw [hresult] at hok
    cases hok

theorem ofConfig_config : ((NormalizeOptions.ofConfig config).run .empty).1 = settings := by
  decide +kernel

theorem wellFormed_session : session.netlist.WellFormed :=
  Session.wellFormed_after_of_wellFormed Wired.empty.wellFormed _

/-- One net is merged, one input folded, and the tie cell removed. -/
theorem normalize_session : ∃ s', normalize settings session = .ok ⟨1, 1, 0, 1⟩ s' :=
  exists_ok_of_returned (by decide +kernel)

end TiedInput

theorem tiedInput_preserves_logic : ∃ s',
    normalize TiedInput.settings TiedInput.session = .ok ⟨1, 1, 0, 1⟩ s' ∧
      ∀ id c', s'.netlist.cell? id = some c' → ∃ c, TiedInput.session.netlist.cell? id = some c ∧
        KeepsLogic TiedInput.settings TiedInput.session.netlist s'.netlist id c c' := by
  obtain ⟨s', h⟩ := TiedInput.normalize_session
  exact ⟨s', h, normalize_preserves_logic TiedInput.validate_config TiedInput.ofConfig_config
    TiedInput.wellFormed_session TiedInput.unmarked h⟩

end Normalize
end FpgaPacking
