/-
Chain packing.

Packing discovers the chains of a fabric, legalizes each of them and builds a
cluster of every segment.  Cells that are in a cluster already take no part.
-/
import FpgaPacking.Chain.Discovery
import FpgaPacking.Chain.Legalize
import FpgaPacking.Cluster.Build

namespace FpgaPacking
namespace Pack

/-- Whether a cell is a chain cell that is in no cluster. -/
def isEligible (f : Fabric) (c : Cell) : Bool := f.isChainCell c && !c.isClustered

/-- The neighbours of eligible cells through the chain ports of the fabric. -/
def navigation (f : Fabric) (nl : Netlist) : Chain.Navigation :=
  Chain.carryNavigation nl f.chainIn f.chainOut (isEligible f)

/-- Legalizes a chain and builds a cluster of each of its segments. -/
def packChain (f : Fabric) (chain : List CellId) : Packing (List Chain.Segment) := do
  let segments ← Chain.legalize f chain
  segments.forM fun s => Cluster.constrainSegment s.members f.slotsPerTile
  return segments

end Pack

/-- Packs all chains of a fabric.  Returns their segments, whose first members are the roots of the
new clusters. -/
def packChains (f : Fabric) : Packing (List Chain.Segment) := do
  let chains ← Chain.discover (Pack.isEligible f) (Pack.navigation f) f.minLength
  return (← chains.mapM (Pack.packChain f)).flatten

end FpgaPacking
