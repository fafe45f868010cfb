import FpgaPacking.Proofs.Faults.Chains
import FpgaPacking.Proofs.Faults.Normalize
import FpgaPacking.Proofs.Numbering.Fingerprint
import FpgaPacking.Proofs.Retarget.Atomicity

/-!
# Passes without faults

Operations leave a netlist that is well-formed, whose clusters are consistent and
whose values are built, if those brought in are.  In such a netlist no pass faults,
also where it fails: each lookup of a cell or net finds its object, no bit outside a
vector is read, and no shift or division is out of range.  Identifiers belong to the
session's own table of names, so that resolving one is not among these lookups.
-/

namespace FpgaPacking

open Netlist

variable {s : Session} {id : CellId}

/-! ## Retargeting -/

namespace Retarget

theorem faultless_retargetCell (hw : s.netlist.WellFormed) (rule : RetargetRule)
    (hlive : (s.netlist.cell? id).isSome) : Faultless (retargetCell rule id) s := by
  obtain ⟨c, hc⟩ := Option.isSome_iff_exists.mp hlive
  rcases @retargetCell_cases s rule id c hw hc with hjoins | ⟨-, hseveral⟩ | ⟨t, hrun⟩
  · obtain ⟨cell, first, second, new, t, hrun, -⟩ := hjoins
    exact .of_error hrun (Failure.reported_violation _)
  · obtain ⟨cell, port, net, t, hrun⟩ := hseveral
    exact .of_error hrun (Failure.reported_violation _)
  · exact .of_ok hrun

theorem faultless_retargetIfRuled (hw : s.netlist.WellFormed) (rules : RuleSet) (summary : Summary)
    (hlive : (s.netlist.cell? id).isSome) : Faultless (retargetIfRuled rules summary id) s := by
  obtain ⟨c, hc⟩ := Option.isSome_iff_exists.mp hlive
  refine .bind_of_ok (Packing.edit_ok.mpr ⟨_, Edit.cell_of_some s.names hc, rfl⟩) ?_
  cases rules.find? c.cellType with
  | none => exact .pure _ _
  | some rule =>
    refine .bind (faultless_retargetCell hw rule hlive) fun _ s₁ _ => ?_
    exact .bind_of_ok rfl (.bind_of_ok rfl (.pure _ _))

/-- Retargeting removes no cell. -/
theorem retargeting_live (rule : RetargetRule) (id : CellId) :
    Retargeting rule fun nl => (nl.cell? id).isSome where
  keeps_addPort := (Cluster.rewiring_live id).keeps_addPort
  keeps_removePort := (Cluster.rewiring_live id).keeps_removePort
  keeps_connect := (Cluster.rewiring_live id).keeps_connect
  keeps_disconnect := (Cluster.rewiring_live id).keeps_disconnect
  keeps_retype _ := Cluster.keeps_live_updateCell id _ _
  keeps_note _ := Cluster.keeps_live_updateCell id _ _
  keeps_values := Cluster.keeps_live_updateCell id _ _

theorem faultless_retarget (hw : s.netlist.WellFormed) (rules : RuleSet) :
    Faultless (retarget rules) s := by
  refine .bind_of_ok (a := s.netlist) rfl (.bind ?_ fun summary s₁ _ => ?_)
  · exact Packing.faultless_visits
      (fun summary id s hw hid => faultless_retargetIfRuled hw rules summary hid)
      (keeps_retargetIfRuled fun _ rule _ => structural_wellFormed.retargeting rule)
      (fun other => keeps_retargetIfRuled fun _ rule _ => retargeting_live rule other) _ hw
  · exact .bind (.forM_of_all (fun _ _ => .of_ok rfl) _ _) fun _ _ _ => .pure _ _

end Retarget

/-! ## Fingerprints -/

namespace Netlist

variable {nl : Netlist} (names : Names)

theorem exists_fingerprint (h : nl.BuiltValues) : ∃ digest, nl.fingerprint names = .ok digest := by
  obtain ⟨text, htext⟩ := exists_canonicalText names h
  unfold fingerprint
  rw [htext]
  exact ⟨_, rfl⟩

end Netlist

/-! ## All passes -/

/-- No pass faults in the session, and neither do the parts of passes, the trace of a chain, the
verification of a cluster and the fingerprint.  The listing of clusters has no failures at all. -/
structure Session.PassesFaultless (s : Session) (options : NormalizeOptions) (rules : RuleSet)
    (f : Fabric) : Prop where
  normalize : Faultless (normalize options) s
  retarget : Faultless (retarget rules) s
  packChains : Faultless (packChains f) s
  constrainPairs : ∀ rule, Faultless (Cluster.constrainPairs rule) s
  fingerprint : ∃ digest, s.netlist.fingerprint s.names = .ok digest
  check : ∀ root, Refuses Failure.Reported (Cluster.check s.netlist root)
  foldInputs : ∀ id, (s.netlist.cell? id).isSome →
    Faultless (Normalize.foldInputs options id s.names) s.netlist
  retargetCell : ∀ rule id, (s.netlist.cell? id).isSome →
    Faultless (Retarget.retargetCell rule id) s
  trace : ∀ id, (s.netlist.cell? id).isSome → ∃ chain, Chain.trace s.netlist f id = .ok chain

/-- After operations that bring in values that were built, no pass faults whose truth tables come
from a validated configuration.  Nothing is asked of the rules and the fabric.  Identifiers, theirs
as well as those in the operations, are taken from the session's own table of names: resolving one
is not a lookup that can fault, and an identifier past the end of the table has the empty name. -/
theorem Session.passesFaultless_after (names : Names) {ops : List Operation}
    (hops : ∀ op ∈ ops, op.Built) {config : Config} (hvalid : config.validate = .ok ())
    (names' : Names) (rules : RuleSet) (f : Fabric) :
    ((Session.start names).after ops).PassesFaultless
      ((NormalizeOptions.ofConfig config).run names').1 rules f := by
  have hw : ((Session.start names).after ops).netlist.WellFormed :=
    wellFormed_after_of_wellFormed Wired.empty.wellFormed ops
  have hclusters : Cluster.Consistent ((Session.start names).after ops).netlist.membership :=
    Cluster.structural_consistent.after Cluster.consistent_empty ops
  have hbuilt := builtValues_of_operations names hops
  have hdistinct := distinctInputs_of_validate names' hvalid
  have hfew := fewInputs_of_validate names' hvalid
  exact {
    normalize := Normalize.faultless_normalize hdistinct hfew hw hbuilt
    retarget := Retarget.faultless_retarget hw rules
    packChains := Chain.faultless_packChains hw hclusters f
    constrainPairs := Cluster.faultless_constrainPairs hclusters
    fingerprint := Netlist.exists_fingerprint _ hbuilt
    check := Cluster.refuses_check _
    foldInputs := fun _ hlive => Normalize.faultless_foldInputs hfew hbuilt hlive
    retargetCell := fun rule _ hlive => Retarget.faultless_retargetCell hw rule hlive
    trace := fun _ hlive => Chain.exists_trace hw f hlive }

/-- A vector that lacks its words was not built, and cannot be shown. -/
example : (((Session.start .empty).after [
    .createCell ⟨0⟩ "table",
    .write ⟨0⟩ fun c => { c with params := c.params.insert ⟨0⟩ (.bits ⟨4, #[]⟩) }
  ]).netlist.fingerprint .empty).toOption.isNone := by decide +kernel

/-! ## A table and a carry cell -/

namespace Mixed

/-- Carry cells, truth tables, one type of cells that ties low, and a rule for the tables. -/
def config : Config :=
  { Chain.Adder.config with
    lut := .ofList [("LUT2", ⟨"INIT", ["A", "B"]⟩)]
    normalize := ⟨["PAD"], ["GND"], []⟩
    rules := .ofList [("LUT2",
      ⟨"TABLE", .ofList [("A", "I")], .empty, .ofList [("INIT", "MASK")], .empty, .empty, .empty⟩)] }

theorem ofConfig_config :
    Fabric.ofConfig config .empty = (.ok Chain.Adder.fabric, Chain.Adder.names) :=
  Chain.Adder.ofConfig_config

def options : NormalizeOptions × Names := (NormalizeOptions.ofConfig config).run Chain.Adder.names

def rules : RuleSet × Names := (RuleSet.ofConfig config).run options.2

/-- Cell 0 ties the first input of the table in cell 1, whose rows are a vector, and the table
drives the carry cell 2.  All passes have run. -/
def history : List Operation := [
  .createCell ⟨14⟩ "low", .createCell ⟨12⟩ "table", .createCell ⟨2⟩ "carry",
  .createNet "x", .createNet "y",
  .addPort ⟨0⟩ ⟨6⟩ .output, .addPort ⟨1⟩ ⟨10⟩ .input, .addPort ⟨1⟩ ⟨6⟩ .output,
  .addPort ⟨2⟩ ⟨0⟩ .input,
  .write ⟨1⟩ fun c => { c with params := c.params.insert ⟨9⟩ (.bits (.ofUInt64 6 4)) },
  .connect ⟨0⟩ ⟨6⟩ ⟨0⟩, .connect ⟨1⟩ ⟨10⟩ ⟨0⟩,
  .connect ⟨1⟩ ⟨6⟩ ⟨1⟩, .connect ⟨2⟩ ⟨0⟩ ⟨1⟩,
  .normalize options.1, .retarget rules.1, .packChains Chain.Adder.fabric]

theorem built_history : ∀ op ∈ history, op.Built := by
  have hwrite : (Operation.write ⟨1⟩ fun c =>
      { c with params := c.params.insert ⟨9⟩ (.bits (.ofUInt64 6 4)) }).Built :=
    fun c hc => ⟨hc.1.insert (.ofUInt64 6 4), hc.2⟩
  have hretarget : (Operation.retarget rules.1).Built :=
    fun _ _ hrule => RuleSet.built_ofConfig config options.2 hrule
  have hpack : (Operation.packChains Chain.Adder.fabric).Built :=
    Fabric.built_of_config ofConfig_config
  rw [history]
  repeat refine List.forall_mem_cons.mpr ⟨by first | exact True.intro | assumption, ?_⟩
  exact nofun

def session : Session := (Session.start rules.2).after history

/-- The tie cell is gone.  The table and the carry cell are left, and a feed-in has been added. -/
theorem passesFaultless_session : config.validate = .ok () ∧ (∀ op ∈ history, op.Built) ∧
    session.netlist.cellIds = [⟨1⟩, ⟨2⟩, ⟨3⟩] ∧
    session.PassesFaultless options.1 rules.1 Chain.Adder.fabric := by
  have hvalid : config.validate = .ok () := eq_ok_of_toOption (by decide +kernel)
  exact ⟨hvalid, built_history, by decide +kernel, Session.passesFaultless_after rules.2
    built_history hvalid Chain.Adder.names rules.1 Chain.Adder.fabric⟩

end Mixed

end FpgaPacking
