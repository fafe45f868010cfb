/-
Checking clusters.

The members of a cluster are recorded on both sides: the root lists its children,
and each of them points to the root.  `check` verifies on the netlist that both
sides agree and that no slot is used twice.  A `View` is a cluster as the placer
reads it.
-/
import FpgaPacking.Cluster.Build

namespace FpgaPacking
namespace Cluster

/-! ## Views -/

/-- A cluster with the places of its members. -/
structure View where
  root : CellId
  /-- The place of the root, which is at distance zero. -/
  offset : Offset
  /-- The members besides the root, in the order in which the root lists them. -/
  members : List Placed
deriving DecidableEq, Repr

/-- The live children of a root with their places. -/
def placedChildren (nl : Netlist) (children : List CellId) : List Placed :=
  children.filterMap fun child => (nl.cell? child).map fun c => (child, c.cluster.offset)

/-- The clusters in the order of creation of their roots. -/
def views (nl : Netlist) : List View :=
  (nl.cells.entries.filter fun (id, c) => c.cluster.root = some id).map fun (id, c) =>
    ⟨id, c.cluster.offset, placedChildren nl c.cluster.children⟩

/-! ## Verification -/

/-- Checks that the children exist, are listed once and point to the root.  Returns their places. -/
def checkChildren (nl : Netlist) (root : CellId) (rootName : String) (seen : List CellId) :
    List CellId → Except Failure (List Placed)
  | [] => .ok []
  | child :: rest =>
    match nl.cell? child with
    | none => .error (.violation (.missingChild rootName child))
    | some c =>
      if child ∈ seen then
        .error (.violation (.repeatedChild rootName c.name))
      else if c.cluster.root ≠ some root then
        .error (.violation (.strayChild rootName c.name))
      else do
        return (child, c.cluster.offset) :: (← checkChildren nl root rootName (child :: seen) rest)

/-- Checks that only the root and its children point to the root. -/
def checkListed (nl : Netlist) (root : CellId) (r : Cell) : Except Failure Unit :=
  let unlisted := nl.cells.entries.find? fun (id, c) =>
    c.cluster.root = some root && id ≠ root && !r.cluster.children.contains id
  match unlisted with
  | none => .ok ()
  | some (_, c) => .error (.violation (.unlistedMember r.name c.name))

/-- Verifies the cluster of a root. -/
def check (nl : Netlist) (root : CellId) : Except Failure Unit :=
  match nl.cell? root with
  | none => .error (.violation (.missingRoot root))
  | some r =>
    if r.cluster.root ≠ some root then
      .error (.violation (.notARoot r.name))
    else do
      checkRootOffset nl root r.cluster.offset
      let members ← checkChildren nl root r.name [root] r.cluster.children
      checkListed nl root r
      checkSlots nl root r.cluster.offset members

end Cluster
end FpgaPacking
