/-
Chain fabrics.

A fabric is what a family of devices offers for chains: which cells take part and
how they link, how many fit in a tile and which may share one, how long a segment
may be, and the boundary cells by which a chain is entered, left and split.
-/
import FpgaPacking.Config.Validate
import FpgaPacking.Fabric.Template

namespace FpgaPacking

/-- The chain resources of one family of devices. -/
structure Fabric where
  /-- The name in messages. -/
  family : String
  /-- The port that continues a chain from the cell before. -/
  chainIn : Ident
  /-- The port that continues a chain to the cell after. -/
  chainOut : Ident
  /-- The types of chain cells. -/
  cellTypes : List Ident
  /-- How many chain cells one tile holds. -/
  tileCapacity : Nat
  /-- The greatest length of a segment, boundary cells included. -/
  maxChainLength : Nat
  /-- The least number of cells of a chain that is packed as one. -/
  minLength : Nat
  /-- How many slots of a tile cluster offsets count. -/
  slotsPerTile : Nat
  /-- The ports on which the cells of one tile must share their nets. -/
  compatPorts : List Ident
  feedIn : Option BoundaryTemplate
  passThrough : Option BoundaryTemplate
  passOut : Option BoundaryTemplate
deriving DecidableEq

namespace Fabric

/-- The segment length of a fabric that states no limit: the greatest 64-bit number. -/
def unlimited : Nat := UInt64.size - 1

/-- The fabric a configuration describes; it must have a chain section. -/
def ofConfig (config : Config) : Naming (Except Config.Error Fabric) := do
  match config.chain with
  | none => return .error (.missingField "chain")
  | some chain => do
    let chainIn ← naming chain.chainIn
    let chainOut ← naming chain.chainOut
    let cellTypes ← chain.cellTypes.mapM naming
    let compatPorts ← chain.compatPorts.mapM naming
    let feedIn ← config.boundary.feedIn.mapM BoundaryTemplate.ofConfig
    let passThrough ← config.boundary.passThrough.mapM BoundaryTemplate.ofConfig
    let passOut ← config.boundary.passOut.mapM BoundaryTemplate.ofConfig
    return .ok {
      family := "+".intercalate chain.cellTypes
      chainIn, chainOut, cellTypes, compatPorts, feedIn, passThrough, passOut
      tileCapacity := chain.tileCapacity
      maxChainLength := chain.maxChainLength.getD unlimited
      minLength := chain.minLength
      slotsPerTile := chain.slots }

/-- The fabric with its cells, links, capacity and boundary cells only: no limit on segments or
chains, tiles that any cells may share, and a slot for each cell of a tile. -/
def bare (f : Fabric) : Fabric :=
  { f with
    family := "bare"
    maxChainLength := unlimited
    minLength := 1
    slotsPerTile := f.tileCapacity
    compatPorts := [] }

/-- Whether a cell takes part in chains. -/
def isChainCell (f : Fabric) (c : Cell) : Bool := c.role = .normal && f.cellTypes.contains c.cellType

/-- Whether all cells may share one tile: on each port that matters they have the same net, or none. -/
def compatible (f : Fabric) (nl : Netlist) (cells : List CellId) : Bool :=
  match cells with
  | [] => true
  | first :: rest =>
    f.compatPorts.all fun port => rest.all fun id => nl.netOf id port = nl.netOf first port

/-- The boundary cell of a role, if the fabric has one. -/
def boundary (f : Fabric) : Role → Option BoundaryTemplate
  | .normal => none
  | .feedIn => f.feedIn
  | .passThrough => f.passThrough
  | .passOut => f.passOut

end Fabric

end FpgaPacking
