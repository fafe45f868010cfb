/-
Why a packing operation fails.

A `PackError` reports something about the operation's input: a netlist that the
fabric cannot implement or a request that would break the netlist's structure.
`Violation` lists the broken structural rules one by one.  Names are resolved
when the error arises, so that a message stands on its own.

A `Failure` is either such an error or a `Fault`, which no input should cause.
-/
import FpgaPacking.Netlist.Cell

namespace FpgaPacking

/-- A structural rule that a request would break or that the netlist breaks. -/
inductive Violation where
  | missingCell (id : CellId)
  | missingNet (id : NetId)
  | missingPort (cell port : String)
  /-- The port exists with another direction. -/
  | directionMismatch (cell port : String)
  | removesConnectedPort (cell port : String)
  | renamesOntoPort (cell old new : String)
  | drivesConstant (cell port net : String)
  | secondDriver (cell port net : String)
  | removesConnectedCell (cell port : String)
  | removesClusteredCell (cell : String)
  | removesConnectedNet (net : String) (connections : Nat)
  /-- Retargeting would give two ports one name. -/
  | joinsPorts (cell first second new : String)
  | displacedRoot (root : String)
  | offsetOutOfRange (offset : Nat)
  | noSlots
  | missingRoot (root : CellId)
  | notARoot (cell : String)
  | missingChild (root : String) (child : CellId)
  | repeatedChild (root child : String)
  /-- A root lists a cell that belongs elsewhere. -/
  | strayChild (root child : String)
  /-- A cell points to a root that does not list it. -/
  | unlistedMember (root member : String)
  | brokenLink (first second : String)
  | noBoundaryCell (fabric : String) (role : Role)
  | noBoundaryPort (fabric : String) (role : Role) (port : String)
  | unconnectedPort (cell port : String)
  /-- A rule of the caller's own. -/
  | stated (text : String)
deriving DecidableEq

namespace Violation

/-- The text of a violation. -/
def message : Violation → String
  | .missingCell id => s!"cell {id.label} does not exist"
  | .missingNet id => s!"net {id.label} does not exist"
  | .missingPort cell port => s!"cell '{cell}' has no port '{port}'"
  | .directionMismatch cell port =>
    s!"port '{cell}.{port}' already exists with a different direction"
  | .removesConnectedPort cell port => s!"cannot remove connected port '{cell}.{port}'"
  | .renamesOntoPort cell old new =>
    s!"cannot rename '{cell}.{old}': port '{new}' already exists"
  | .drivesConstant cell port net => s!"output '{cell}.{port}' cannot drive constant net '{net}'"
  | .secondDriver cell port net =>
    s!"net '{net}' already has a driver, cannot connect output '{cell}.{port}'"
  | .removesConnectedCell cell port =>
    s!"cannot remove cell '{cell}': port '{port}' is still connected"
  | .removesClusteredCell cell => s!"cannot remove cell '{cell}': it belongs to a cluster"
  | .removesConnectedNet net connections =>
    s!"cannot remove net '{net}': it still has {connections} connection(s)"
  | .joinsPorts cell first second new =>
    s!"rewriting '{cell}' maps ports '{first}' and '{second}' onto '{new}'"
  | .displacedRoot root => s!"cluster root '{root}' must have zero offsets"
  | .offsetOutOfRange offset => s!"cluster offset {offset} is out of range"
  | .noSlots => "slots per tile must be at least 1"
  | .missingRoot root => s!"cluster root {root.label} does not exist"
  | .notARoot cell => s!"cell '{cell}' is not a cluster root"
  | .missingChild root child => s!"cluster '{root}' lists missing cell {child.label}"
  | .repeatedChild root child => s!"cluster '{root}' lists '{child}' twice"
  | .strayChild root child =>
    s!"cell '{child}' is listed in cluster '{root}' but does not point to it"
  | .unlistedMember root member =>
    s!"cell '{member}' points to cluster '{root}' but is not one of its children"
  | .brokenLink first second => s!"chain link from '{first}' to '{second}' is broken"
  | .noBoundaryCell fabric role => s!"fabric '{fabric}' has no {role.marker} cell"
  | .noBoundaryPort fabric role port =>
    s!"{role.marker} cell of fabric '{fabric}' has no {port} port"
  | .unconnectedPort cell port => s!"port '{cell}.{port}' is not connected"
  | .stated text => text

end Violation

/-- An error of a packing operation. -/
inductive PackError where
  /-- The port is on another net already. -/
  | portConflict (cell port existing requested : String)
  | invariant (violation : Violation)
  /-- The cell lacks the truth table that constant folding needs. -/
  | missingParameter (cell param : String)
  /-- The cell cannot start a segment within the fabric's limits. -/
  | chainTooLong (cell : String) (tileCapacity maxChainLength : Nat)
  /-- The cell is in another cluster already. -/
  | clusterConflict (cell existingRoot requestedRoot : String)
  /-- Two members of one cluster are in the same slot. -/
  | slotCollision (root first second : String) (dx dy slot : Int)
  /-- A pass ended regularly after reporting errors. -/
  | passFailed (pass : String) (errors : Nat)
deriving DecidableEq

namespace PackError

/-- The text of an error. -/
def message : PackError → String
  | .portConflict cell port existing requested =>
    s!"port '{cell}.{port}' is already connected to net '{existing}', " ++
      s!"cannot connect it to '{requested}'"
  | .invariant violation => s!"netlist invariant violated: {violation.message}"
  | .missingParameter cell param => s!"cell '{cell}' has no usable truth-table parameter '{param}'"
  | .chainTooLong cell tileCapacity maxChainLength =>
    s!"chain cannot be split at cell '{cell}': tile capacity {tileCapacity}, " ++
      s!"maximum chain length {maxChainLength}"
  | .clusterConflict cell existingRoot requestedRoot =>
    s!"cell '{cell}' already belongs to the cluster rooted at '{existingRoot}', " ++
      s!"cannot add it to '{requestedRoot}'"
  | .slotCollision root first second dx dy slot =>
    s!"cells '{first}' and '{second}' of the cluster rooted at '{root}' " ++
      s!"both occupy slot ({dx}, {dy}, {slot})"
  | .passFailed pass errors => s!"pass '{pass}' reported {errors} error(s)"

end PackError

/-- Why an operation did not complete. -/
inductive Failure where
  /-- The operation reports an error. -/
  | rejected (error : PackError)
  /-- The operation accessed something that does not exist. -/
  | fault (fault : Fault)
deriving DecidableEq

namespace Failure

/-- The failure that reports a violation. -/
def violation (v : Violation) : Failure := .rejected (.invariant v)

end Failure

end FpgaPacking
