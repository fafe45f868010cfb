/-
Legalizing chains.

Legalization checks that the cells of a chain are linked, plans its segments and
carries the plan out.  Three kinds of boundary cell are inserted:

  a feed-in reads the net of a segment head's chain input and drives the head;
  a pass-through takes over a cell's chain output, drives the next cell of the
    segment and gives the old net its driver back through general routing;
  a pass-out takes over the chain output of a segment's last cell and gives the
    old net its driver back through general routing.

The checks and the plan come before the first edit, so a chain that cannot be
legalized leaves the netlist alone.
-/
import FpgaPacking.Chain.Plan

namespace FpgaPacking
namespace Chain

/-! ## Checks -/

/-- Checks that two neighbours of a chain are on one net. -/
def checkLink (nl : Netlist) (f : Fabric) (first second : CellId) : Except Failure Unit := do
  let link := nl.netOf first f.chainOut
  if link.isSome ∧ link = nl.netOf second f.chainIn then
    return ()
  else
    let a ← (nl.cell first).mapError .fault
    let b ← (nl.cell second).mapError .fault
    throw (.violation (.brokenLink a.name b.name))

/-- Checks the links of a chain from head to tail. -/
def checkLinks (nl : Netlist) (f : Fabric) : List CellId → Except Failure Unit
  | first :: second :: rest => do
    checkLink nl f first second
    checkLinks nl f (second :: rest)
  | _ => .ok ()

/-- The template of a boundary role. -/
def boundaryTemplate (f : Fabric) (role : Role) : Except Failure BoundaryTemplate :=
  match f.boundary role with
  | some t => .ok t
  | none => .error (.violation (.noBoundaryCell f.family role))

/-- A port that the template of a role must have. -/
def requiredPort (f : Fabric) (role : Role) (description : String) :
    Option Ident → Except Failure Ident
  | some port => .ok port
  | none => .error (.violation (.noBoundaryPort f.family role description))

/-- The port by which the boundary cell of a role drives the next cell of the chain. -/
def chainOutput (f : Fabric) (role : Role) (t : BoundaryTemplate) : Except Failure Ident :=
  requiredPort f role "chain output" t.chainOutput

/-- The port by which the boundary cell of a role drives general routing. -/
def fabricOutput (f : Fabric) (role : Role) (t : BoundaryTemplate) : Except Failure Ident :=
  requiredPort f role "fabric output" t.fabricOutput

/-- Checks that the fabric has what the boundary cell of a step needs. -/
def checkTemplate (f : Fabric) (step : Step) : Except Failure Unit := do
  match step.role? with
  | none => return ()
  | some role => do
    let t ← boundaryTemplate f role
    if role ≠ .passOut then
      let _ ← chainOutput f role t
    if role ≠ .feedIn then
      let _ ← fabricOutput f role t

/-! ## Boundary cells -/

/-- The attribute that records the role of a boundary cell. -/
def roleKey : String := "BOUNDARY_ROLE"

/-- Creates the boundary cell of a role, named after a cell of the chain. -/
def boundaryCell (f : Fabric) (role : Role) (anchor : CellId) :
    Packing (CellId × BoundaryTemplate) := do
  let t ← boundaryTemplate f role
  let c ← Edit.cell anchor
  let name ← Edit.uniqueName (c.name ++ "$" ++ role.nameTag)
  let id ← t.cell.instantiate name
  let key ← naming roleKey
  Edit.updateCell id fun c =>
    { c with role, attrs := c.attrs.insert key (.text role.marker) }
  return (id, t)

/-- Creates a net for the link that a cell drives. -/
def linkNet (id : CellId) : Edit NetId := do
  let c ← Edit.cell id
  Edit.createNet (← Edit.uniqueName (c.name ++ "$chain"))

/-- Takes a port that must be connected off its net. -/
def detach (id : CellId) (port : Ident) : Edit NetId := do
  match ← Edit.disconnect id port with
  | some onNet => return onNet
  | none => Edit.violate (.unconnectedPort (← Edit.cell id).name (← Edit.resolve port))

/-- Inserts a feed-in before the head of a segment. -/
def insertFeedIn (f : Fabric) (head : CellId) : Packing CellId := do
  let (id, t) ← boundaryCell f .feedIn head
  let output ← chainOutput f .feedIn t
  let external ← detach head f.chainIn
  Edit.connect id t.input external
  let link ← linkNet id
  Edit.connect id output link
  Edit.connect head f.chainIn link
  return id

/-- Inserts a pass-through between two neighbours of a segment. -/
def insertPassThrough (f : Fabric) (prev next : CellId) : Packing CellId := do
  let (id, t) ← boundaryCell f .passThrough prev
  let output ← chainOutput f .passThrough t
  let routed ← fabricOutput f .passThrough t
  let signal ← detach prev f.chainOut
  let before ← linkNet prev
  Edit.connect prev f.chainOut before
  Edit.connect id t.input before
  Edit.connect id routed signal
  let _ ← Edit.disconnect next f.chainIn
  let after ← linkNet id
  Edit.connect id output after
  Edit.connect next f.chainIn after
  return id

/-- Inserts a pass-out after the last cell of a segment. -/
def insertPassOut (f : Fabric) (tail : CellId) : Packing CellId := do
  let (id, t) ← boundaryCell f .passOut tail
  let routed ← fabricOutput f .passOut t
  let signal ← detach tail f.chainOut
  let link ← linkNet tail
  Edit.connect tail f.chainOut link
  Edit.connect id t.input link
  Edit.connect id routed signal
  return id

/-! ## Carrying out a plan -/

/-- A part of a chain that can be placed as one. -/
structure Segment where
  /-- The cells in chain order, boundary cells included. -/
  members : List CellId
  /-- How many of them are cells of the chain itself. -/
  chainCells : Nat
deriving DecidableEq, Repr

namespace Segment

/-- The segment before its first cell. -/
def empty : Segment := ⟨[], 0⟩

/-- The segment with one more boundary cell. -/
def addBoundary (s : Segment) (id : CellId) : Segment := { s with members := s.members ++ [id] }

/-- The segment with one more cell of the chain. -/
def addChainCell (s : Segment) (id : CellId) : Segment := ⟨s.members ++ [id], s.chainCells + 1⟩

end Segment

/-- Carries out the rest of a plan.  Returns the segment that is open, completed, and those after it. -/
def carryOut (f : Fabric) (segment : Segment) : List Step → Packing (List Segment)
  | [] => pure []
  | .feedIn head :: rest => do
    carryOut f (segment.addBoundary (← insertFeedIn f head)) rest
  | .passThrough prev next :: rest => do
    carryOut f (segment.addBoundary (← insertPassThrough f prev next)) rest
  | .member id :: rest => carryOut f (segment.addChainCell id) rest
  | .passOut tail :: rest => do
    carryOut f (segment.addBoundary (← insertPassOut f tail)) rest
  | .close :: rest => return segment :: (← carryOut f .empty rest)

/-- How many boundary cells of a role the steps insert. -/
def inserted (role : Role) (steps : List Step) : Nat := steps.countP fun s => s.role? = some role

/-- The note about a legalized chain. -/
def legalizedNote (head : String) (length segments : Nat) (steps : List Step) : Diagnostic :=
  { Diagnostic.note .legalize 1 s!"Legalized chain of {length} cells into {segments} segment(s)" with
    subject := some head
    notes := [s!"inserted {inserted .feedIn steps} feed-in, {inserted .passThrough steps} pass-through, "
      ++ s!"{inserted .passOut steps} pass-out cell(s)"] }

/-- The steps that legalize a chain.  Only the log changes. -/
def prepare (f : Fabric) (chain : List CellId) : Packing (List Step) := do
  let nl ← Packing.netlist
  checkLinks nl f chain
  let p := plan nl f chain
  p.warnings.forM Packing.emit
  let steps ← p.outcome
  steps.forM fun step => do checkTemplate f step
  return steps

/-- Cuts a chain into segments that the fabric can hold and inserts their boundary cells. -/
def legalize (f : Fabric) (chain : List CellId) : Packing (List Segment) := do
  let steps ← prepare f chain
  let segments ← carryOut f .empty steps
  match chain.head? with
  | none => pure ()
  | some head => do
    let c ← Edit.cell head
    Packing.emit (legalizedNote c.name chain.length segments.length steps)
  return segments

end Chain
end FpgaPacking
