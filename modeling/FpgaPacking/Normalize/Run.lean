/-
Normalization.

A round moves the readers of tie cells to the constant nets, folds constant
inputs into truth tables, disconnects outputs that nothing reads, and removes the
cells that are left without an observable output.  Rounds follow each other until
one changes nothing.

Each round that changes something lowers the number of connected ports plus the
number of live cells, so the number of rounds is bounded by that sum.  The loop
carries the bound; using it up is a fault.
-/
import FpgaPacking.Normalize.Fold
import FpgaPacking.Session

namespace FpgaPacking
namespace Normalize

/-- What normalization changed. -/
structure Report where
  /-- Nets of tie cells merged into a constant net. -/
  mergedNets : Nat
  /-- Truth-table inputs folded. -/
  foldedInputs : Nat
  /-- Outputs disconnected because nothing read them. -/
  prunedPorts : Nat
  /-- Cells removed. -/
  removedCells : Nat
deriving DecidableEq, Repr

namespace Report

/-- No change. -/
def none : Report := ⟨0, 0, 0, 0⟩

/-- Whether nothing changed. -/
def isEmpty (r : Report) : Bool := r = none

/-- The changes of two runs together. -/
def add (a b : Report) : Report :=
  ⟨a.mergedNets + b.mergedNets, a.foldedInputs + b.foldedInputs, a.prunedPorts + b.prunedPorts,
    a.removedCells + b.removedCells⟩

end Report

/-! ## Tie cells -/

/-- Moves a port to another net. -/
def moveSink (onNet : NetId) (sink : PortRef) : Edit Unit := do
  let _ ← Edit.disconnect sink.cell sink.port
  Edit.connect sink.cell sink.port onNet

/-- Moves the sinks of an output's net to a constant net and removes the output's net. -/
def mergeOutput (id : CellId) (constant : NetId) (output : Ident × NetId) : Edit Unit := do
  let n ← Edit.net output.2
  n.sinks.forM (moveSink constant)
  let _ ← Edit.disconnect id output.1
  let _ ← Edit.removeNet output.2

/-- Merges the outputs of a cell into a constant net if its type ties them, and queues the cell for
removal.  Returns the number of merged nets, counted on from `merged`. -/
def mergeTieCell (options : NormalizeOptions) (merged : Nat) (id : CellId) : Edit Nat := do
  let c ← Edit.cell id
  match options.tieValue c.cellType with
  | none => return merged
  | some value => do
    let constant ← Edit.constantNet value
    c.outputs.forM (mergeOutput id constant)
    Edit.markForRemoval id
    return merged + c.outputs.length

/-- Merges the nets of all tie cells into the constant nets.  Returns the number of merged nets. -/
def mergeConstantDrivers (options : NormalizeOptions) : Edit Nat := do
  (← get).cellIds.foldlM (mergeTieCell options) 0

/-! ## Truth tables -/

/-- Folds the constant inputs of a cell if its type has a truth table and it is not queued for
removal.  Counts on from `folded`. -/
def foldCell (options : NormalizeOptions) (folded : Nat) (id : CellId) : Edit Nat := do
  let c ← Edit.cell id
  if options.lutShapes.contains c.cellType && !(← get).isMarked id then
    return folded + (← foldInputs options id)
  else
    return folded

/-- Folds the constant inputs of all truth-table cells.  Returns the number of folded inputs. -/
def foldAll (options : NormalizeOptions) : Edit Nat := do
  (← get).cellIds.foldlM (foldCell options) 0

/-! ## Dead outputs -/

/-- Disconnects an output and removes its net if nothing else is connected to it. -/
def pruneOutput (id : CellId) (output : Ident × NetId) : Edit Unit := do
  let _ ← Edit.disconnect id output.1
  if (← Edit.net output.2).isFloating then
    let _ ← Edit.removeNet output.2

/-- Disconnects the outputs of a cell that nothing reads and queues the cell for removal if no
connected output is left.  Kept types, queued cells and cells without outputs stay as they are.
Counts on from `pruned`. -/
def pruneCell (options : NormalizeOptions) (pruned : Nat) (id : CellId) : Edit Nat := do
  let c ← Edit.cell id
  if c.cellType ∈ options.keepTypes || (← get).isMarked id then
    return pruned
  else do
    let dead ← c.outputs.filterM fun output => return (← Edit.net output.2).sinks.isEmpty
    dead.forM (pruneOutput id)
    if c.hasOutput && (← Edit.cell id).outputs.isEmpty then
      Edit.markForRemoval id
    return pruned + dead.length

/-- Disconnects all outputs that nothing reads.  Returns their number. -/
def pruneDeadOutputs (options : NormalizeOptions) : Edit Nat := do
  (← get).cellIds.foldlM (pruneCell options) 0

/-! ## Rounds -/

/-- One round of normalization. -/
def round (options : NormalizeOptions) : Packing Report := do
  let mergedNets ← mergeConstantDrivers options
  if mergedNets > 0 then
    Packing.emit (.note .normalize 2 s!"merged {mergedNets} tie-cell net(s) into constant nets")
  let foldedInputs ← foldAll options
  let prunedPorts ← pruneDeadOutputs options
  let removedCells ← Edit.flush
  return ⟨mergedNets, foldedInputs, prunedPorts, removedCells⟩

/-- Rounds up to the first that changes nothing, at most `bound` of them.  Returns the changes of all
rounds added to `report`. -/
def rounds (options : NormalizeOptions) (report : Report) : Nat → Packing Report
  | 0 => throw (.fault .roundsExhausted)
  | bound + 1 => do
    let r ← round options
    if r.isEmpty then return report else rounds options (report.add r) bound

/-- The number of connected ports plus the number of live cells. -/
def weight (nl : Netlist) : Nat :=
  nl.cells.entries.foldl
    (fun total entry => total + (entry.2.ports.countP fun p => p.net.isSome) + 1) 0

end Normalize

/-- Normalizes the netlist and reports what changed. -/
def normalize (options : NormalizeOptions) : Packing Normalize.Report := do
  let bound := Normalize.weight (← Packing.netlist) + 1
  let report ← Normalize.rounds options .none bound
  if !report.isEmpty then
    Packing.emit (.note .normalize 1
      (s!"folded {report.foldedInputs} constant input(s), pruned {report.prunedPorts} " ++
        s!"dead output(s), removed {report.removedCells} cell(s)"))
  return report

end FpgaPacking
