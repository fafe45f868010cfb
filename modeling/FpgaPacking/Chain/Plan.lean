/-
Planning the segments of a chain.

A chain that does not fit on the fabric as it is gets cut into segments, with
boundary cells where its signal crosses between the chain and general routing.
Planning goes over the chain from the left and only reads the netlist.  A cell
joins the open segment if the segment then fits: its cells fit in a tile and may
share one, and its length, boundary cells included, is within the limit.  A cell
that does not join ends the segment and must start one of its own.

The result is a list of steps, which legalization carries out afterwards.
-/
import FpgaPacking.Fabric.Basic
import FpgaPacking.Session

namespace FpgaPacking
namespace Chain

/-- One step of legalizing a chain. -/
inductive Step where
  /-- A feed-in cell before the head of a segment. -/
  | feedIn (head : CellId)
  /-- A pass-through cell between two neighbours of a segment. -/
  | passThrough (prev next : CellId)
  /-- A cell of the chain itself. -/
  | member (id : CellId)
  /-- A pass-out cell after the last cell of a segment. -/
  | passOut (tail : CellId)
  /-- The end of the segment. -/
  | close
deriving DecidableEq, Repr

/-- The role of the boundary cell a step inserts. -/
def Step.role? : Step → Option Role
  | .feedIn _ => some .feedIn
  | .passThrough _ _ => some .passThrough
  | .passOut _ => some .passOut
  | .member _ | .close => none

/-! ## What the netlist asks for -/

/-- Whether the net on a cell's chain output has any sink. -/
def outputUsed (nl : Netlist) (f : Fabric) (id : CellId) : Except Fault Bool := do
  match nl.netOf id f.chainOut with
  | none => return false
  | some onNet => return !(← nl.net onNet).sinks.isEmpty

/-- Whether the net on `prev`'s chain output has a sink besides the chain input of `next`. -/
def fansOut (nl : Netlist) (f : Fabric) (prev next : CellId) : Except Fault Bool := do
  match nl.netOf prev f.chainOut with
  | none => return false
  | some onNet => return (← nl.net onNet).sinks.any fun s => s ≠ ⟨next, f.chainIn⟩

/-- The warning about a chain input on a net without a driver. -/
def undrivenWarning (c : Cell) (n : Net) : Diagnostic :=
  { Diagnostic.warning .legalize 2 s!"chain input is connected to undriven net '{n.name}'" with
    subject := some c.name
    help := ["no feed-in cell is inserted for an undriven net"] }

/-- Whether a segment that starts with the cell needs a feed-in, because the net on the cell's chain
input is driven.  A constant net does not need one; neither does a net without a driver, which gets
a warning. -/
def needsFeedIn (nl : Netlist) (f : Fabric) (id : CellId) :
    Except Fault (Bool × List Diagnostic) := do
  match nl.netOf id f.chainIn with
  | none => return (false, [])
  | some onNet => do
    let n ← nl.net onNet
    if n.constant.isSome then return (false, [])
    else if n.driver.isSome then return (true, [])
    else return (false, [undrivenWarning (← nl.cell id) n])

/-! ## Extending a segment -/

/-- The segment that is open while a chain is scanned.  It is empty before its first cell. -/
structure OpenSegment where
  /-- Its length so far, boundary cells included. -/
  length : Nat
  /-- The cells of the chain in it, in order. -/
  cells : List CellId
deriving DecidableEq, Repr

/-- The segment before its first cell. -/
def OpenSegment.none : OpenSegment := ⟨0, []⟩

/-- What becomes of a segment when a cell joins it. -/
structure Extension where
  /-- Whether the segment then fits. -/
  fits : Bool
  /-- The steps that let the cell join. -/
  steps : List Step
  /-- The warnings about the cell. -/
  warnings : List Diagnostic
  /-- The segment with the cell. -/
  segment : OpenSegment

/-- The step before a cell joins a segment: a feed-in before its first cell, or a pass-through after
a cell whose chain output has other readers. -/
def boundaryBefore (nl : Netlist) (f : Fabric) (segment : OpenSegment) (id : CellId) :
    Except Fault (List Step × List Diagnostic) := do
  match segment.cells.getLast? with
  | none => do
    let (needed, warnings) ← needsFeedIn nl f id
    return (if needed then [.feedIn id] else [], warnings)
  | some prev => return (if ← fansOut nl f prev id then [.passThrough prev id] else [], [])

/-- Lets a cell join a segment.  The length counts the pass-out cell that would follow if the segment
ended with the cell, which is needed only if the cell's chain output is used. -/
def extend (nl : Netlist) (f : Fabric) (segment : OpenSegment) (id : CellId) :
    Except Fault Extension := do
  let (before, warnings) ← boundaryBefore nl f segment id
  let cells := segment.cells ++ [id]
  let length := segment.length + before.length + 1
  let reserve := if ← outputUsed nl f id then 1 else 0
  let fits := cells.length ≤ f.tileCapacity && f.compatible nl cells &&
    length + reserve ≤ f.maxChainLength
  return ⟨fits, before ++ [.member id], warnings, ⟨length, cells⟩⟩

/-! ## Scanning the chain -/

/-- The result of planning. -/
structure Plan where
  /-- The warnings on the way, in order. -/
  warnings : List Diagnostic
  /-- The steps, or why there are none. -/
  outcome : Except Failure (List Step)

namespace Plan

/-- A plan that fails. -/
def fail (warnings : List Diagnostic) (e : Failure) : Plan := ⟨warnings, .error e⟩

/-- A plan that begins with the given steps. -/
def after (steps : List Step) (warnings : List Diagnostic) (p : Plan) : Plan :=
  ⟨warnings ++ p.warnings, p.outcome.map (steps ++ ·)⟩

end Plan

/-- The failure of a chain with a cell that cannot start a segment. -/
def tooLong (nl : Netlist) (f : Fabric) (id : CellId) : Failure :=
  match nl.cell id with
  | .ok c => .rejected (.chainTooLong c.name f.tileCapacity f.maxChainLength)
  | .error e => .fault e

/-- The steps at the end of a chain. -/
def finish (nl : Netlist) (f : Fabric) (segment : OpenSegment) : Except Fault (List Step) := do
  match segment.cells.getLast? with
  | none => return []
  | some last => return (if ← outputUsed nl f last then [.passOut last] else []) ++ [.close]

/-- The plan for the rest of a chain after an open segment. -/
def scan (nl : Netlist) (f : Fabric) (segment : OpenSegment) : List CellId → Plan
  | [] =>
    match finish nl f segment with
    | .ok steps => ⟨[], .ok steps⟩
    | .error e => .fail [] (.fault e)
  | id :: rest =>
    match extend nl f segment id with
    | .error e => .fail [] (.fault e)
    | .ok joined =>
      if joined.fits then
        (scan nl f joined.segment rest).after joined.steps joined.warnings
      else
        match segment.cells.getLast? with
        | none => .fail joined.warnings (tooLong nl f id)
        | some prev =>
          match extend nl f .none id with
          | .error e => .fail [] (.fault e)
          | .ok alone =>
            if alone.fits then
              (scan nl f alone.segment rest).after
                (.passOut prev :: .close :: alone.steps) alone.warnings
            else
              .fail alone.warnings (tooLong nl f id)

/-- The plan that cuts a chain into segments. -/
def plan (nl : Netlist) (f : Fabric) (chain : List CellId) : Plan := scan nl f .none chain

end Chain
end FpgaPacking
