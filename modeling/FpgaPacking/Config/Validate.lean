/-
Validation of configurations.

A configuration is usable if its required texts are not empty, its sizes are at
least one, and the ports that must differ do.  The checks run in a fixed order,
chain, boundary cells, truth tables and rules, and the first that fails decides
the error.  Truth tables and rules are checked in the order of their types.
-/
import FpgaPacking.Config.Basic

namespace FpgaPacking
namespace Config

/-- Why a value of a configuration is unusable. -/
inductive Defect where
  /-- The size at this path is zero. -/
  | zeroSize (path : String)
  /-- Chain input and output are the same port. -/
  | sameChainPorts (port : String)
  /-- The boundary cell in this section has an empty or repeated port. -/
  | boundaryPorts (path : String)
  /-- The truth table of the type has no inputs or too many. -/
  | inputCount (cellType : String)
  /-- The truth table of the type has a repeated input. -/
  | repeatedInput (cellType : String)
  /-- The rule of the type sends a port nowhere. -/
  | emptyFanout (cellType port : String)
deriving DecidableEq, Repr

/-- The text of a defect. -/
def Defect.message : Defect → String
  | .zeroSize path => s!"{path} must be at least 1"
  | .sameChainPorts port => s!"chain.chain_in and chain.chain_out are both '{port}'"
  | .boundaryPorts path => s!"{path} must name distinct, non-empty ports"
  | .inputCount cellType => s!"lut.{cellType}.inputs must list between 1 and 16 ports"
  | .repeatedInput cellType => s!"lut.{cellType}.inputs contains a duplicate port"
  | .emptyFanout cellType port => s!"rules.{cellType}.port_fanout_rename.{port} lists no ports"

/-- Why there is no configuration. -/
inductive Error where
  /-- The file could not be read as text. -/
  | unreadable
  /-- The text is no TOML, or a value has the wrong type, or a required one is missing. -/
  | malformed
  /-- A section or value that is needed is absent or empty. -/
  | missingField (path : String)
  /-- A value is unusable. -/
  | invalid (defect : Defect)
deriving DecidableEq, Repr

/-- The text of an error, where the error has one of its own. -/
def Error.message : Error → String
  | .unreadable => "cannot read packer configuration"
  | .malformed => "malformed packer configuration"
  | .missingField path => s!"missing required field: {path}"
  | .invalid defect => s!"invalid packer configuration: {defect.message}"

/-- Fails with a defect if a condition holds. -/
def refuseIf (condition : Prop) [Decidable condition] (defect : Defect) : Except Error Unit :=
  if condition then .error (.invalid defect) else .ok ()

/-- Fails if a required text is empty. -/
def requireText (path text : String) : Except Error Unit :=
  if text = "" then .error (.missingField path) else .ok ()

/-- Checks the chain section. -/
def Chain.validate (chain : Chain) : Except Error Unit := do
  refuseIf (chain.tileCapacity = 0) (.zeroSize "chain.tile_capacity")
  refuseIf (chain.maxChainLength = some 0) (.zeroSize "chain.max_chain_length")
  refuseIf (chain.slotsPerTile = some 0) (.zeroSize "chain.slots_per_tile")
  requireText "chain.chain_in" chain.chainIn
  requireText "chain.chain_out" chain.chainOut
  refuseIf (chain.chainIn = chain.chainOut) (.sameChainPorts chain.chainIn)
  if chain.cellTypes.isEmpty then
    throw (.missingField "chain.cell_types")

/-- Fails if a port that the role of a boundary cell needs is absent. -/
def requirePort (needed : Bool) (path : String) (port : Option String) : Except Error Unit :=
  if needed && port.isNone then .error (.missingField path) else .ok ()

/-- Checks a boundary cell, which may need an output to the chain and one to general routing. -/
def BoundaryCell.validate (path : String) (needsChain needsFabric : Bool) (b : BoundaryCell) :
    Except Error Unit := do
  requireText s!"{path}.cell_type" b.cellType
  requireText s!"{path}.input" b.input
  requirePort needsChain s!"{path}.chain_output" b.chainOutput
  requirePort needsFabric s!"{path}.fabric_output" b.fabricOutput
  let ports := b.input :: (b.chainOutput.toList ++ b.fabricOutput.toList)
  refuseIf (¬ ports.Nodup ∨ "" ∈ ports) (.boundaryPorts path)

/-- Checks the boundary cells. -/
def Boundary.validate (b : Boundary) : Except Error Unit := do
  b.feedIn.forM (BoundaryCell.validate "boundary.feed_in" true false)
  b.passThrough.forM (BoundaryCell.validate "boundary.pass_through" true true)
  b.passOut.forM (BoundaryCell.validate "boundary.pass_out" false true)

/-- The greatest number of inputs of a truth table. -/
def maxInputs : Nat := 16

/-- Checks the truth-table shape of a cell type. -/
def LutShape.validate (cellType : String) (shape : LutShape) : Except Error Unit := do
  requireText s!"lut.{cellType}.param" shape.param
  refuseIf (shape.inputs.isEmpty ∨ maxInputs < shape.inputs.length) (.inputCount cellType)
  refuseIf (¬ shape.inputs.Nodup) (.repeatedInput cellType)

/-- Checks the rule of a cell type. -/
def Rule.validate (cellType : String) (rule : Rule) : Except Error Unit := do
  requireText s!"rules.{cellType}.new_type" rule.newType
  match rule.portFanoutRename.entries.find? fun entry => entry.2.isEmpty with
  | some (port, _) => throw (.invalid (.emptyFanout cellType port))
  | none => return ()

/-- Checks a configuration. -/
def validate (config : Config) : Except Error Unit := do
  config.chain.forM Chain.validate
  config.boundary.validate
  config.lut.entries.forM fun (cellType, shape) => shape.validate cellType
  config.rules.entries.forM fun (cellType, rule) => rule.validate cellType

end Config
end FpgaPacking
