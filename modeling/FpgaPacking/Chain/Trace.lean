/-
Following the signal of a chain.

The signal leaves a chain cell by its chain output, and a boundary cell by its
chain output or, if that is not connected, by its output to general routing.  On
a net it goes on to a chain cell that reads it on the chain input, or else to a
boundary cell that reads it on its input.

The cells not yet visited get fewer with every step, so the trace ends.
-/
import FpgaPacking.Fabric.Basic

namespace FpgaPacking
namespace Chain

/-- Whether a sink is the chain input of a chain cell. -/
def entersChain (nl : Netlist) (f : Fabric) (sink : PortRef) : Except Fault Bool := do
  if sink.port = f.chainIn then return f.isChainCell (← nl.cell sink.cell) else return false

/-- Whether a sink is the input of a boundary cell. -/
def entersBoundary (nl : Netlist) (f : Fabric) (sink : PortRef) : Except Fault Bool := do
  let c ← nl.cell sink.cell
  return (f.boundary c.role).any fun t => t.input = sink.port

/-- The cell to which the signal of a net goes on. -/
def follower (nl : Netlist) (f : Fabric) (onNet : NetId) : Except Fault (Option CellId) := do
  let sinks := (← nl.net onNet).sinks
  match ← sinks.findM? (entersChain nl f) with
  | some sink => return some sink.cell
  | none => return (← sinks.findM? (entersBoundary nl f)).map (·.cell)

/-- The net by which the signal leaves a cell. -/
def signalOut (f : Fabric) (c : Cell) : Option NetId :=
  match c.role with
  | .normal => c.netOf f.chainOut
  | role => do
    let t ← f.boundary role
    (t.chainOutput.bind c.netOf).or (t.fabricOutput.bind c.netOf)

/-- The chain cells that the signal passes from `id` on, up to a cell that was visited before. -/
def traceFrom (nl : Netlist) (f : Fabric) (unvisited : List CellId) (id : CellId) :
    Except Fault (List CellId) := do
  let c ← nl.cell id
  if id ∈ unvisited then
    let here := if c.role = .normal then [id] else []
    match ← (signalOut f c).mapM (follower nl f) with
    | some (some next) => return here ++ (← traceFrom nl f (unvisited.erase id) next)
    | _ => return here
  else
    return []
termination_by unvisited.length
decreasing_by
  rename_i h
  have := List.length_erase_of_mem h
  have := List.length_pos_of_mem h
  omega

/-- The chain cells that the signal of a chain passes from `first` on, in order. -/
def trace (nl : Netlist) (f : Fabric) (first : CellId) : Except Fault (List CellId) :=
  traceFrom nl f nl.cellIds first

end Chain
end FpgaPacking
