/-
Building clusters.

A cluster is a rigid group of cells that is placed as one: a root at distance
zero and members at offsets from it.  A cluster can be built from cells that are
in no cluster yet, and no two of them may end up in the same slot.  All of this
is checked before a cell is changed.

The members of a chain segment fill the slots of one tile after the other.
-/
import FpgaPacking.Session

namespace FpgaPacking
namespace Cluster

/-- A member with its place. -/
abbrev Placed := CellId × Offset

/-! ## Checks -/

/-- Checks that a root is at distance zero. -/
def checkRootOffset (nl : Netlist) (root : CellId) (offset : Offset) : Except Failure Unit := do
  if offset.isZero then
    return ()
  else
    let c ← (nl.cell root).mapError .fault
    throw (.violation (.displacedRoot c.name))

/-- The failure of a cell that is in a cluster already. -/
def conflict (nl : Netlist) (id existing requested : CellId) : Except Fault Failure := do
  return .rejected (.clusterConflict (← nl.cell id).name (← nl.cell existing).name
    (← nl.cell requested).name)

/-- Checks that a cell is in no cluster. -/
def checkFree (nl : Netlist) (id requested : CellId) : Except Failure Unit := do
  let c ← (nl.cell id).mapError .fault
  match c.cluster.root with
  | none => return ()
  | some existing => throw (← (conflict nl id existing requested).mapError .fault)

/-- Checks that each of the members is in no cluster and occurs once. -/
def checkMembers (nl : Netlist) (root : CellId) (seen : List CellId) :
    List CellId → Except Failure Unit
  | [] => .ok ()
  | id :: rest => do
    checkFree nl id root
    if id ∈ seen then
      throw (← (conflict nl id root root).mapError .fault)
    checkMembers nl root (id :: seen) rest

/-! ## Slots -/

/-- A slot of a cluster.  Slots counted from the root and slots of the tile are different unless the
root itself is in a slot of the tile. -/
structure Slot where
  /-- Whether `z` is a slot of the tile. -/
  pinned : Bool
  dx : Int
  dy : Int
  z : Int
deriving DecidableEq, Repr

/-- The slot of a place in a cluster with the given place of the root. -/
def slot (rootOffset offset : Offset) : Slot :=
  ⟨rootOffset.pinned || offset.pinned, offset.dx, offset.dy, offset.dz⟩

/-- Checks that the members are in slots that are not taken and differ from each other. -/
def checkFreeSlots (nl : Netlist) (root : CellId) (rootOffset : Offset)
    (taken : List (Slot × CellId)) : List Placed → Except Failure Unit
  | [] => .ok ()
  | (id, offset) :: rest => do
    let s := slot rootOffset offset
    match taken.lookup s with
    | none => checkFreeSlots nl root rootOffset ((s, id) :: taken) rest
    | some first =>
      let r ← (nl.cell root).mapError .fault
      let a ← (nl.cell first).mapError .fault
      let b ← (nl.cell id).mapError .fault
      throw (.rejected (.slotCollision r.name a.name b.name s.dx s.dy s.z))

/-- Checks that no two cells of a cluster are in the same slot. -/
def checkSlots (nl : Netlist) (root : CellId) (rootOffset : Offset) (members : List Placed) :
    Except Failure Unit :=
  checkFreeSlots nl root rootOffset [(slot rootOffset rootOffset, root)] members

/-- All checks before a cluster is built. -/
def checkBuild (nl : Netlist) (root : CellId) (rootOffset : Offset) (members : List Placed) :
    Except Failure Unit := do
  checkRootOffset nl root rootOffset
  checkFree nl root root
  checkMembers nl root [root] (members.map (·.1))
  checkSlots nl root rootOffset members

/-! ## Building -/

/-- Makes `root` the root of a new cluster with the given members. -/
def build (root : CellId) (rootOffset : Offset) (members : List Placed) : Edit Unit := do
  match checkBuild (← get) root rootOffset members with
  | .error e => throw e
  | .ok () => do
    Edit.updateCell root fun c =>
      { c with cluster := ⟨some root, ⟨0, 0, 0, rootOffset.pinned⟩, members.map (·.1)⟩ }
    members.forM fun (id, offset) =>
      Edit.updateCell id fun c => { c with cluster := ⟨some root, offset, []⟩ }

/-! ## Chain segments -/

/-- A distance as a coordinate, which has 32 bits with sign. -/
def coordinate (n : Nat) : Except Failure Int :=
  if n < 0x80000000 then .ok n else .error (.violation (.offsetOutOfRange n))

/-- The tile and the slot of the member at `position` if every tile has the given number of slots. -/
def tileAndSlot (slotsPerTile position : Nat) : Except Fault (Nat × Nat) :=
  if slotsPerTile = 0 then .error .zeroDivisor
  else .ok (position / slotsPerTile, position % slotsPerTile)

/-- The place of the member at `position` in a chain segment. -/
def segmentOffset (slotsPerTile position : Nat) : Except Failure Offset := do
  let (tile, slot) ← (tileAndSlot slotsPerTile position).mapError .fault
  return .inSlot 0 (← coordinate tile) (← coordinate slot)

/-- The members of a chain segment after the first with their places. -/
def segmentPlaces (slotsPerTile : Nat) (rest : List CellId) : Except Failure (List Placed) :=
  (rest.zipIdx 1).mapM fun (id, position) => do return (id, ← segmentOffset slotsPerTile position)

/-- Builds the cluster of a chain segment: the first member is in the first slot of its tile, and the
others fill the slots after it, tile by tile. -/
def constrainSegment (members : List CellId) (slotsPerTile : Nat) : Edit Unit := do
  if slotsPerTile = 0 then
    Edit.violate .noSlots
  else
    match members with
    | [] => return ()
    | root :: rest =>
      match segmentPlaces slotsPerTile rest with
      | .error e => throw e
      | .ok placed => build root (.inSlot 0 0 0) placed

/-! ## Pairs -/

/-- Which cells `constrainPairs` brings together. -/
structure PairRule where
  /-- The port by which the driver drives the net. -/
  driverPort : Ident
  isDriver : Cell → Bool
  /-- The port by which the sink reads the net. -/
  sinkPort : Ident
  isSink : Cell → Bool
  /-- The place of the sink. -/
  offset : Offset

/-- The cell that a driver is paired with: the only reader of its net, if neither is in a cluster. -/
def partner? (nl : Netlist) (rule : PairRule) (driver : CellId) (c : Cell) : Option CellId := do
  if c.isClustered || !rule.isDriver c then none
  let onNet ← c.netOf rule.driverPort
  let load ← nl.onlyReader onNet (fun c => !c.isClustered && rule.isSink c) rule.sinkPort
  if load = driver then none else some load

/-- Pairs a driver if it has a partner.  Returns the number of pairs, counted on from `built`. -/
def constrainPair (rule : PairRule) (built : Nat) (driver : CellId) : Edit Nat := do
  let c ← Edit.cell driver
  match partner? (← get) rule driver c with
  | none => return built
  | some load => do
    build driver .zero [(load, rule.offset)]
    return built + 1

/-- Builds a cluster of every driver and the only reader of its net.  Returns the number of
clusters. -/
def constrainPairs (rule : PairRule) : Packing Nat := do
  let built ← (← Packing.netlist).cellIds.foldlM (fun built id => constrainPair rule built id) 0
  if built > 0 then
    Packing.emit (.note .cluster 1 s!"Clustered {built} driver/sink pair(s)")
  return built

end Cluster
end FpgaPacking
