/-
The canonical text of a netlist.

The text shows the live cells and nets in order of creation and refers to them by
name, never by handle.  Parameters and attributes are listed by name, so neither
handles nor the numbering of identifiers leave a trace.  The fingerprint of a
netlist is the digest of this text.
-/
import FpgaPacking.Digest.Basic
import FpgaPacking.Netlist.Basic

namespace FpgaPacking

namespace Direction

/-- The word for a direction. -/
def word : Direction → String
  | .input => "In"
  | .output => "Out"
  | .inout => "InOut"

end Direction

namespace ConstValue

/-- The word for a constant. -/
def word : ConstValue → String
  | .zero => "Zero"
  | .one => "One"

/-- The word for a constant tag that may be absent. -/
def tagWord : Option ConstValue → String
  | none => "None"
  | some value => s!"Some({word value})"

end ConstValue

namespace Netlist

/-- The name of a cell, or a question mark if it does not exist. -/
def cellName (nl : Netlist) (id : CellId) : String :=
  match nl.cell? id with
  | some c => c.name
  | none => "?"

/-- The name of the net a port is on, or a dash. -/
def portNetName (nl : Netlist) (p : Port) : String :=
  match p.net.bind nl.net? with
  | some n => n.name
  | none => "-"

/-- The lines of a table of values, ordered by name. -/
def valueLines (names : Names) (kind : String) (table : Table Ident ParamValue) :
    Except Fault (List String) := do
  let shown ← table.entries.mapM fun (key, value) => return (names.resolve key, ← value.display)
  let ordered := shown.mergeSort fun a b =>
    (compareLex (compareOn (·.1)) (compareOn (·.2)) a b).isLE
  return ordered.map fun (key, value) => s!"  {kind} {key} {value}\n"

/-- The line of a port. -/
def portLine (names : Names) (nl : Netlist) (p : Port) : String :=
  s!"  port {names.resolve p.name} {p.direction.word} {nl.portNetName p}\n"

/-- The lines of a cluster membership. -/
def membershipLines (nl : Netlist) (m : Membership) : List String :=
  match m.root with
  | none => []
  | some root =>
    s!"  cluster {nl.cellName root} {m.offset.dx} {m.offset.dy} {m.offset.dz} {m.offset.pinned}\n"
      :: m.children.map fun child => s!"  child {nl.cellName child}\n"

/-- The lines of a cell. -/
def cellLines (names : Names) (nl : Netlist) (c : Cell) : Except Fault (List String) := do
  let bel := c.bel.toList.map fun bel => s!"  bel {names.resolve bel}\n"
  return s!"cell {c.name} {names.resolve c.cellType} {c.role.marker}\n" :: bel
    ++ c.ports.map (portLine names nl)
    ++ (← valueLines names "param" c.params)
    ++ (← valueLines names "attr" c.attrs)
    ++ membershipLines nl c.cluster

/-- The line of a connection of a net. -/
def connectionLine (names : Names) (nl : Netlist) (kind : String) (port : PortRef) : String :=
  s!"  {kind} {nl.cellName port.cell}.{names.resolve port.port}\n"

/-- The lines of a net. -/
def netLines (names : Names) (nl : Netlist) (n : Net) : List String :=
  s!"net {n.name} {ConstValue.tagWord n.constant}\n"
    :: n.driver.toList.map (connectionLine names nl "driver")
    ++ n.sinks.map (connectionLine names nl "sink")

/-- The canonical text. -/
def canonicalText (names : Names) (nl : Netlist) : Except Fault String := do
  let cells ← nl.cells.entries.mapM fun entry => cellLines names nl entry.2
  let nets := nl.nets.entries.map fun entry => netLines names nl entry.2
  return String.join (cells.flatten ++ nets.flatten)

/-- The digest of the canonical text. -/
def fingerprint (names : Names) (nl : Netlist) : Except Fault Digest :=
  (nl.canonicalText names).map Digest.ofText

end Netlist

end FpgaPacking
