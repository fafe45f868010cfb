/-
Chain discovery.

A chain is a sequence of cells in which each cell leads to the next.  What leads
where is given by a `Navigation`, a pair of functions on cells; the usual one
follows the chain ports of a fabric.  Discovery makes no assumption about the two
functions: they may disagree, run in circles or leave the cells one looks for.

Both walks go through cells that are still available, live cells that no chain
has and that the walk itself has not met.  Every step uses one up, so a walk ends.
-/
import FpgaPacking.Session

namespace FpgaPacking
namespace Chain

/-! ## Navigation -/

/-- The neighbours of cells along chains. -/
structure Navigation where
  previous : CellId → Option CellId
  next : CellId → Option CellId

/-- The neighbours through a pair of chain ports, among the cells that satisfy `p`.

The cell before is the one that drives the net on `chainIn` through `chainOut`.  The cell after is
the first that reads the net on `chainOut` through `chainIn`; the net may have other readers. -/
def carryNavigation (nl : Netlist) (chainIn chainOut : Ident) (p : Cell → Bool) : Navigation where
  previous id := (nl.netOf id chainIn).bind fun onNet => nl.drivenBy onNet p chainOut
  next id := (nl.netOf id chainOut).bind fun onNet => nl.firstReader onNet p chainIn

/-! ## Walks -/

/-- The start of the chain through `id`, which the walk back reaches.  The walk goes on as long as
the cell before is available and leads to the cell it came from. -/
def start (nav : Navigation) (available : List CellId) (id : CellId) : CellId :=
  match nav.previous id with
  | none => id
  | some before =>
    if before ∈ available ∧ nav.next before = some id then
      start nav (available.erase before) before
    else
      id
termination_by available.length
decreasing_by
  rename_i h
  have := List.length_erase_of_mem h.1
  have := List.length_pos_of_mem h.1
  omega

/-- The available cells from `id` on, each leading to the next. -/
def walk (nav : Navigation) (available : List CellId) (id : CellId) : List CellId :=
  if id ∈ available then
    match nav.next id with
    | none => [id]
    | some after => id :: walk nav (available.erase id) after
  else
    []
termination_by available.length
decreasing_by
  rename_i h
  have := List.length_erase_of_mem h
  have := List.length_pos_of_mem h
  omega

/-! ## Discovery -/

/-- The chain through an available cell. -/
def through (nav : Navigation) (available : List CellId) (id : CellId) : List CellId :=
  walk nav available (start nav (available.erase id) id)

/-- The chains of at least `minLength` cells through the given cells, in the order of the cells.  A
chain that is too short leaves its cells available. -/
def chainsThrough (nav : Navigation) (minLength : Nat) :
    List CellId → List CellId → List (List CellId)
  | _, [] => []
  | available, id :: rest =>
    if id ∈ available then
      let chain := through nav available id
      if chain.isEmpty || chain.length < minLength then
        chainsThrough nav minLength available rest
      else
        chain :: chainsThrough nav minLength (available.filter fun c => c ∉ chain) rest
    else
      chainsThrough nav minLength available rest

/-- The live cells that satisfy `p`, in order of creation. -/
def candidates (nl : Netlist) (p : Cell → Bool) : List CellId :=
  (nl.cells.entries.filter fun entry => p entry.2).map (·.1)

/-- The chains of at least `minLength` cells through the cells that satisfy `p`, in the order of
their earliest such cell. -/
def find (nl : Netlist) (p : Cell → Bool) (nav : Navigation) (minLength : Nat) :
    List (List CellId) :=
  chainsThrough nav minLength nl.cellIds (candidates nl p)

/-- A chain of one cell for each cell that satisfies `p` and is in none of the given chains. -/
def singletons (nl : Netlist) (p : Cell → Bool) (chains : List (List CellId)) :
    List (List CellId) :=
  ((candidates nl p).filter fun id => id ∉ chains.flatten).map fun id => [id]

/-- The note about a chain. -/
def foundNote (nl : Netlist) (chain : List CellId) : Except Fault Diagnostic := do
  let head ← chain.head?.mapM nl.cell
  let name := (head.map (·.name)).getD ""
  return .note .chain 1 s!"Found chain of {chain.length} cells starting at {name}"

/-- Finds chains as `find` does and reports each of them. -/
def discover (p : Cell → Bool) (nav : Netlist → Navigation) (minLength : Nat) :
    Packing (List (List CellId)) := do
  let nl ← Packing.netlist
  let chains := find nl p (nav nl) minLength
  chains.forM fun chain => do Packing.emit (← foundNote nl chain)
  return chains

end Chain
end FpgaPacking
