/-
Constant inputs of truth tables.

A truth-table input on a constant net selects only half of the rows.  Folding it
gives every row the value of the row that the constant selects, so that the table
does not depend on the input any more, and disconnects the port.
-/
import FpgaPacking.Normalize.Options

namespace FpgaPacking
namespace Normalize

open Edit (cell resolve)

/-- The row number with the bit of `mask` set to `value`. -/
def forceBit (row mask : Nat) (value : Bool) : Nat :=
  if value then row ||| mask else row ^^^ (row &&& mask)

/-- The table in which every row has the value of the row that the constant selects. -/
def foldTable (table : LogicVec) (mask : Nat) (value : Bool) : Except Fault LogicVec :=
  (List.range table.width).foldlM
    (fun folded row => do folded.set row (← table.get (forceBit row mask value)))
    (LogicVec.zeros table.width)

/-- The folded table as a parameter value.  A table that was an integer stays one if it fits. -/
def tableParam (before : ParamValue) (folded : LogicVec) : Except Fault ParamValue := do
  match before, ← folded.toUInt64? with
  | .int _, some n => return .int n.toInt64
  | _, _ => return .bits folded

/-- Folds the input `port` of a truth-table cell if it is on a constant net.  Returns whether
anything was folded.

Fails if the cell's type has no truth-table shape or the cell lacks the table. -/
def foldInput (options : NormalizeOptions) (id : CellId) (port : Ident) : Edit Bool := do
  let nl ← get
  match (nl.netOf id port).bind nl.constValue with
  | none => return false
  | some value => do
    let c ← cell id
    match options.lutShapes.find? c.cellType with
    | none => throw (.rejected (.missingParameter c.name ("truth table of " ++ (← resolve c.cellType))))
    | some shape =>
      match shape.inputs.idxOf? port with
      | none => return false
      | some position => do
        let missing : Failure := .rejected (.missingParameter c.name (← resolve shape.param))
        match c.params.find? shape.param with
        | none => throw missing
        | some before =>
          match before.toBits? (← shape.rows) with
          | none => throw missing
          | some table => do
            let folded ← foldTable table (← LutShape.bitMask position) value.toBool
            let param ← tableParam before folded
            Edit.updateCell id fun c => { c with params := c.params.insert shape.param param }
            let _ ← Edit.disconnect id port
            return true

/-- The input ports of a cell that are on constant nets. -/
def constantInputs (nl : Netlist) (c : Cell) : List Ident :=
  (c.ports.filter fun p =>
    p.direction = .input && (p.net.bind nl.constValue).isSome).map (·.name)

/-- Folds every constant input of a truth-table cell.  Returns the number of folded inputs. -/
def foldInputs (options : NormalizeOptions) (id : CellId) : Edit Nat := do
  let c ← cell id
  (constantInputs (← get) c).foldlM
    (fun folded port => return folded + (if ← foldInput options id port then 1 else 0)) 0

end Normalize
end FpgaPacking
