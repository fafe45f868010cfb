import FpgaPacking.Proofs.Normalize.Options
import FpgaPacking.Proofs.Normalize.Tables
import FpgaPacking.Proofs.Reachable
import FpgaPacking.Proofs.Retarget.Values

/-!
# Parameters and attributes

The values on a cell come from the caller, from a template or a rule, or from the
folding of a truth table.  If the vectors among those that are brought in have
been built, all vectors in the netlist have, whatever is done in whatever order.
The values of a configuration are built.
-/

namespace FpgaPacking

variable {nl : Netlist} {id : CellId} {c : Cell} {f : Cell → Cell} {value : ParamValue} {key : Ident}

/-! ## Tables of values -/

/-- Each value of the table is built. -/
def Table.Built (table : Table Ident ParamValue) : Prop :=
  ∀ name value, table.find? name = some value → value.Built

namespace Table

variable {table : Table Ident ParamValue}

theorem built_empty : (Table.empty : Table Ident ParamValue).Built := nofun

theorem Built.insert (h : table.Built) (hvalue : value.Built) : (table.insert key value).Built :=
  All.insert h hvalue

end Table

/-- The values that a rule gives are built. -/
structure RetargetRule.Built (rule : RetargetRule) : Prop where
  fixedAttrs : rule.fixedAttrs.Built
  fixedParams : rule.fixedParams.Built
  defaultParams : rule.defaultParams.Built

/-- The values of the boundary cells of the fabric are built. -/
def Fabric.Built (f : Fabric) : Prop :=
  ∀ role t, f.boundary role = some t → t.cell.params.Built

/-! ## Configurations -/

theorem Config.Param.built_value (p : Config.Param) : p.value.Built := by
  cases p with
  | int n => trivial
  | text content => exact ParamValue.built_parse content

theorem Config.built_paramTable (table : Table String Config.Param) (names : Names) :
    ((Config.paramTable table).run names).1.Built := by
  intro name value h
  obtain ⟨⟨given, p⟩, -, names', hentry⟩ := mem_mapM_run (Table.mem_of_find?_ofList h)
  obtain rfl : p.value = value := congrArg Prod.snd hentry
  exact p.built_value

theorem Fabric.built_of_config {config : Config} {names names' : Names} {f : Fabric}
    (h : Fabric.ofConfig config names = (.ok f, names')) : f.Built := by
  intro role t ht
  obtain ⟨b, given, rfl⟩ := Fabric.template_of_config h ht
  exact Config.built_paramTable b.params _

theorem RetargetRule.built_ofConfig (rule : Config.Rule) (names : Names) :
    ((RetargetRule.ofConfig rule).run names).1.Built where
  fixedAttrs := Config.built_paramTable rule.fixedAttrs _
  fixedParams := Config.built_paramTable rule.fixedParams _
  defaultParams := Config.built_paramTable rule.defaultParams _

theorem RuleSet.built_ofConfig (config : Config) (names : Names) {cellType : Ident}
    {rule : RetargetRule}
    (h : ((RuleSet.ofConfig config).run names).1.find? cellType = some rule) : rule.Built := by
  obtain ⟨⟨given, described⟩, -, names', hentry⟩ := mem_mapM_run (Table.mem_of_find?_ofList h)
  obtain rfl : ((RetargetRule.ofConfig described).run (names'.intern given).2).1 = rule :=
    congrArg Prod.snd hentry
  exact RetargetRule.built_ofConfig described _

/-! ## Cells -/

/-- The parameters and the attributes of the cell are built. -/
def Cell.Built (c : Cell) : Prop := c.params.Built ∧ c.attrs.Built

theorem Cell.Built.note (h : c.Built) (former : String) :
    ({ c with attrs := c.attrs.insert key (.text former) } : Cell).Built := ⟨h.1, h.2.insert trivial⟩

namespace Retarget

variable {rule : RetargetRule} {params attrs : Table Ident ParamValue}

theorem built_newParams (hrule : rule.Built) (h : params.Built) : (newParams rule params).Built :=
  all_newParams (fun _ _ _ _ hvalue => hvalue) hrule.defaultParams hrule.fixedParams h

theorem built_newAttrs (hrule : rule.Built) (h : attrs.Built) : (newAttrs rule attrs).Built :=
  all_newAttrs hrule.fixedAttrs h

end Retarget

namespace Netlist

/-- The values on every live cell are built. -/
def BuiltValues (nl : Netlist) : Prop := ∀ id c, nl.cell? id = some c → c.Built

theorem builtValues_iff_shown : nl.BuiltValues ↔ ∀ id p, nl.shown Cell.Built id = some p → p := by
  constructor
  · intro h id p hp
    obtain ⟨c, hc, rfl⟩ := Option.map_eq_some_iff.mp hp
    exact h id c hc
  · intro h id c hc
    exact h id c.Built (Option.map_eq_some_iff.mpr ⟨c, hc, rfl⟩)

theorem BuiltValues.mapCell (h : nl.BuiltValues) (hf : ∀ c, c.Built → (f c).Built) :
    (nl.mapCell id f).BuiltValues := by
  intro other c hc
  rw [cell?_mapCell] at hc
  split at hc
  · obtain ⟨c', hc', rfl⟩ := Option.map_eq_some_iff.mp hc
    exact hf c' (h id c' hc')
  · exact h other c hc

theorem builtValues_empty : empty.BuiltValues := nofun

end Netlist

/-! ## Steps -/

open Netlist Edit

theorem rewiring_builtValues : Rewiring BuiltValues := by
  have hshown : BuiltValues = fun nl => ∀ id p, nl.shown Cell.Built id = some p → p :=
    funext fun _ => propext builtValues_iff_shown
  rw [hshown]
  exact rewiring_of_shown (fun _ _ => rfl) fun shown => ∀ id p, shown id = some p → p

theorem keeps_builtValues_updateCell (hf : ∀ c, c.Built → (f c).Built) :
    Keeps BuiltValues (updateCell id f) := by
  intro names nl h
  rcases updateCell_cases names with ⟨e, hrun⟩ | ⟨c, -, hrun⟩
  · rw [hrun]
    exact h
  · rw [hrun]
    exact h.mapCell hf

theorem keeps_builtValues_createCell (cellType : Ident) (name : String) :
    Keeps BuiltValues (createCell cellType name) := by
  intro names nl h id c hc
  have hcell : (nl.addCell (.create cellType name)).cell? id = some c := hc
  rw [cell?_addCell] at hcell
  split at hcell
  · exact Option.some.inj hcell ▸ ⟨Table.built_empty, Table.built_empty⟩
  · exact h id c hcell

theorem elementary_builtValues : Elementary BuiltValues where
  toRewiring := rewiring_builtValues
  keeps_createCell := keeps_builtValues_createCell
  keeps_removeCell names nl h := by
    rcases removeCell_cases names with ⟨e, hrun⟩ | ⟨c, -, -, -, hrun⟩
    · rw [hrun]
      exact h
    · rw [hrun]
      intro other c hc
      have hcell : (nl.dropCell _).cell? other = some c := hc
      rw [cell?_dropCell] at hcell
      split at hcell
      · cases hcell
      · exact h other c hcell
  keeps_unqueue _ _ h := h
  keeps_build := Cluster.keeps_build_of fun _ _ => keeps_builtValues_updateCell fun _ h => h

theorem keeps_builtValues_instantiate {t : CellTemplate} (ht : t.params.Built) (name : String) :
    Keeps BuiltValues (t.instantiate name) := by
  refine Keeps.bind (keeps_builtValues_createCell t.cellType name) fun id => ?_
  refine Keeps.bind (Keeps.forM (fun p => ?_) t.ports) fun _ => ?_
  · obtain ⟨port, direction⟩ := p
    exact rewiring_builtValues.keeps_addPort direction
  refine Keeps.bind (keeps_builtValues_updateCell fun c h => ?_) fun _ => Keeps.pure id
  exact ⟨ht, h.2⟩

theorem splicing_builtValues {f : Fabric} (hf : f.Built) : Splicing f BuiltValues where
  keeps_boundaryCell role anchor _ := by
    refine Packing.Keeps.bind_check fun t ht => ?_
    have htemplate : f.boundary role = some t := by
      unfold Chain.boundaryTemplate at ht
      split at ht
      · next found hfound => exact Except.ok.inj ht ▸ hfound
      · cases ht
    refine Packing.Keeps.bind (.edit (Keeps.cell anchor)) fun c => ?_
    refine Packing.Keeps.bind (.edit (rewiring_builtValues.keeps_uniqueName _)) fun name => ?_
    refine Packing.Keeps.bind (.edit (keeps_builtValues_instantiate (hf role t htemplate) name))
      fun id => ?_
    refine Packing.Keeps.bind (.name _) fun key => ?_
    refine Packing.Keeps.bind (.edit (keeps_builtValues_updateCell fun c h => ?_)) fun _ => .pure _
    exact h.note role.marker
  keeps_linkNet id := Keeps.bind (Keeps.cell id) fun _ =>
    Keeps.bind (rewiring_builtValues.keeps_uniqueName _) fun name =>
      rewiring_builtValues.keeps_createNet name
  keeps_connect := rewiring_builtValues.keeps_connect
  keeps_disconnect := rewiring_builtValues.keeps_disconnect

theorem retargeting_builtValues {rule : RetargetRule} (hrule : rule.Built) :
    Retargeting rule BuiltValues where
  keeps_addPort := rewiring_builtValues.keeps_addPort
  keeps_removePort := rewiring_builtValues.keeps_removePort
  keeps_connect := rewiring_builtValues.keeps_connect
  keeps_disconnect := rewiring_builtValues.keeps_disconnect
  keeps_retype former := keeps_builtValues_updateCell fun _ h => h.note former
  keeps_note former := keeps_builtValues_updateCell fun _ h => h.note former
  keeps_values := keeps_builtValues_updateCell fun _ h =>
    ⟨Retarget.built_newParams hrule h.1, Retarget.built_newAttrs hrule h.2⟩

/-- A folded table is built, whatever the options. -/
theorem keeps_builtValues_foldInput (options : NormalizeOptions) (id : CellId) (port : Ident) :
    Keeps BuiltValues (Normalize.foldInput options id port) := by
  refine Keeps.bind Keeps.get fun nl => ?_
  cases (nl.netOf id port).bind nl.constValue with
  | none => exact Keeps.pure _
  | some v =>
    refine Keeps.bind (Keeps.cell id) fun c => ?_
    cases options.lutShapes.find? c.cellType with
    | none => exact Keeps.bind (Keeps.resolve _) fun _ => Keeps.throw _
    | some shape =>
      dsimp only
      cases shape.inputs.idxOf? port with
      | none => exact Keeps.pure _
      | some position =>
        refine Keeps.bind (Keeps.resolve _) fun name => ?_
        cases c.params.find? shape.param with
        | none => exact Keeps.throw _
        | some before =>
          refine Keeps.bind (Keeps.lookup _) fun rows => ?_
          cases before.toBits? rows with
          | none => exact Keeps.throw _
          | some table =>
            refine Keeps.bind (Keeps.lookup _) fun mask => ?_
            refine Keeps.bind_lookup fun folded hfolded => ?_
            refine Keeps.bind_lookup fun param hparam => ?_
            have hbuilt : param.Built :=
              Normalize.built_tableParam (Normalize.built_foldTable hfolded) hparam
            refine Keeps.bind (keeps_builtValues_updateCell fun c h => ?_) fun _ => ?_
            · exact ⟨h.1.insert hbuilt, h.2⟩
            · exact Keeps.bind rewiring_builtValues.keeps_disconnect fun _ => Keeps.pure _

/-! ## Operations -/

namespace Operation

/-- What the operation brings in is built.  A write gives built values to a cell with built ones. -/
def Built : Operation → Prop
  | write _ f => ∀ c, c.Built → (f c).Built
  | instantiate t _ => t.params.Built
  | retargetCell rule _ => rule.Built
  | retarget rules => ∀ cellType rule, rules.find? cellType = some rule → rule.Built
  | legalize f _ | packChains f => f.Built
  | _ => True

theorem Built.writesKeep {op : Operation} (h : op.Built) : op.WritesKeep BuiltValues := by
  cases op with
  | write id f => exact keeps_builtValues_updateCell h
  | instantiate t name => exact keeps_builtValues_instantiate h name
  | foldInput options id port => exact keeps_builtValues_foldInput options
  | foldInputs options id => exact keeps_builtValues_foldInput options
  | normalize options => exact keeps_builtValues_foldInput options
  | retargetCell rule id => exact retargeting_builtValues h
  | retarget rules => exact fun cellType rule hrule => retargeting_builtValues (h cellType rule hrule)
  | legalize f chain => exact splicing_builtValues h
  | packChains f => exact splicing_builtValues h
  | _ => trivial

end Operation

/-- All values are built after operations that bring in built ones. -/
theorem builtValues_of_operations (names : Names) {ops : List Operation}
    (hops : ∀ op ∈ ops, op.Built) : ((Session.start names).after ops).netlist.BuiltValues :=
  Session.holds_after (fun op hop => op.keeps_run_of elementary_builtValues (hops op hop).writesKeep)
    builtValues_empty

end FpgaPacking
