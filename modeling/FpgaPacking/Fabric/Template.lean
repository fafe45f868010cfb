/-
Templates of synthesized cells.

A cell template has a type, ports and parameters.  A boundary template also says
which of its ports reads the signal that crosses the boundary, which drives the
next member of the chain, and which drives general routing.
-/
import FpgaPacking.Config.Basic
import FpgaPacking.Netlist.Edit

namespace FpgaPacking

/-! ## Values of a configuration -/

/-- The parameter value that a configuration gives. -/
def Config.Param.value : Config.Param → ParamValue
  | .int n => .int n
  | .text content => .parse content

/-- Gives identifiers to the keys of a table, in their order, and converts its values. -/
def Table.named {α β : Type} (table : Table String α) (item : α → Naming β) :
    Naming (Table Ident β) := do
  let entries ← table.entries.mapM fun (key, a) => do
    let ident ← naming key
    return (ident, ← item a)
  return .ofList entries

/-- The parameters that a configuration gives. -/
def Config.paramTable (table : Table String Config.Param) : Naming (Table Ident ParamValue) :=
  table.named fun p => pure p.value

/-! ## Templates -/

/-- A cell type with its ports and parameters. -/
structure CellTemplate where
  cellType : Ident
  /-- The ports in the order of their declaration. -/
  ports : List (Ident × Direction)
  /-- The parameters of every instance. -/
  params : Table Ident ParamValue
deriving DecidableEq

namespace CellTemplate

/-- Creates an instance whose ports are not connected. -/
def instantiate (t : CellTemplate) (name : String) : Edit CellId := do
  let id ← Edit.createCell t.cellType name
  t.ports.forM fun (port, direction) => Edit.addPort id port direction
  Edit.updateCell id fun c => { c with params := t.params }
  return id

end CellTemplate

/-- A cell that carries a signal between a chain and general routing. -/
structure BoundaryTemplate where
  cell : CellTemplate
  /-- The port that reads the signal. -/
  input : Ident
  /-- The port that drives the next member of the chain. -/
  chainOutput : Option Ident
  /-- The port that drives general routing. -/
  fabricOutput : Option Ident
deriving DecidableEq

namespace BoundaryTemplate

/-- The template a configuration describes.  Its ports are the input and the outputs it has. -/
def ofConfig (b : Config.BoundaryCell) : Naming BoundaryTemplate := do
  let input ← naming b.input
  let chainOutput ← b.chainOutput.mapM naming
  let fabricOutput ← b.fabricOutput.mapM naming
  let outputs := chainOutput.toList ++ fabricOutput.toList
  let cellType ← naming b.cellType
  let params ← Config.paramTable b.params
  return {
    cell := ⟨cellType, (input, .input) :: outputs.map fun p => (p, .output), params⟩
    input, chainOutput, fabricOutput }

end BoundaryTemplate

end FpgaPacking
