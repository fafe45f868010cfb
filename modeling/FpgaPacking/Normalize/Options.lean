/-
What normalization needs to know.

The options say which cells tie their nets to a constant, which cells have side
effects and are kept, and where the cells of a type keep their truth table.
-/
import FpgaPacking.Fabric.Template

namespace FpgaPacking

/-- Where the cells of a type keep their truth table and which ports select its rows. -/
structure LutShape where
  /-- The parameter that holds the table. -/
  param : Ident
  /-- The input ports, least significant first. -/
  inputs : List Ident
deriving DecidableEq

namespace LutShape

/-- The 32-bit word with a single bit. -/
def bitMask (position : Nat) : Except Fault Nat :=
  if position < 32 then .ok (1 <<< position) else .error (.shiftOutside position)

/-- The number of rows of the truth table. -/
def rows (shape : LutShape) : Except Fault Nat := bitMask shape.inputs.length

end LutShape

/-- The settings of normalization. -/
structure NormalizeOptions where
  /-- Truth-table shapes by cell type. -/
  lutShapes : Table Ident LutShape
  /-- Cell types that are never pruned, such as pads. -/
  keepTypes : List Ident
  /-- Cell types whose outputs are tied low. -/
  gndDriverTypes : List Ident
  /-- Cell types whose outputs are tied high. -/
  vccDriverTypes : List Ident
deriving DecidableEq

namespace NormalizeOptions

/-- The options a configuration gives.  Of each truth table the parameter and the inputs get their
identifiers before the cell type does. -/
def ofConfig (config : Config) : Naming NormalizeOptions := do
  let lutShapes ← config.lut.entries.mapM fun (cellType, shape) => do
    let param ← naming shape.param
    let inputs ← shape.inputs.mapM naming
    let cellType ← naming cellType
    return (cellType, (⟨param, inputs⟩ : LutShape))
  let keepTypes ← config.normalize.keepTypes.mapM naming
  let gndDriverTypes ← config.normalize.gndDriverTypes.mapM naming
  let vccDriverTypes ← config.normalize.vccDriverTypes.mapM naming
  return { lutShapes := .ofList lutShapes, keepTypes, gndDriverTypes, vccDriverTypes }

/-- The constant to which cells of the type tie their outputs.  A type that is listed for both is
tied low. -/
def tieValue (options : NormalizeOptions) (cellType : Ident) : Option ConstValue :=
  if cellType ∈ options.gndDriverTypes then some .zero
  else if cellType ∈ options.vccDriverTypes then some .one
  else none

end NormalizeOptions

end FpgaPacking
