/-
Nets.

A net joins at most one driving port with the ports that read it, in the order
in which they were connected.  A net with a constant tag carries a fixed value
and has no driving port.
-/
import FpgaPacking.Identity
import FpgaPacking.Names

namespace FpgaPacking

/-- One port of one cell. -/
structure PortRef where
  cell : CellId
  port : Ident
deriving DecidableEq, Repr

/-- The value of a constant net. -/
inductive ConstValue where
  /-- Tied low. -/
  | zero
  /-- Tied high. -/
  | one
deriving DecidableEq, Repr

namespace ConstValue

/-- The value as a boolean. -/
def toBool : ConstValue → Bool
  | .zero => false
  | .one => true

/-- The constant of a boolean. -/
def ofBool : Bool → ConstValue
  | false => .zero
  | true => .one

/-- The name of the constant net of a value. -/
def netName : ConstValue → String
  | .zero => "$PACKER_GND_NET"
  | .one => "$PACKER_VCC_NET"

end ConstValue

/-- One signal. -/
structure Net where
  name : String
  /-- The port that drives the net. -/
  driver : Option PortRef
  /-- The ports that read the net, in the order of connection. -/
  sinks : List PortRef
  /-- The value of a constant net. -/
  constant : Option ConstValue
deriving DecidableEq, Repr

namespace Net

/-- A net that nothing is connected to. -/
def create (name : String) : Net := ⟨name, none, [], none⟩

/-- The constant net of a value before anything reads it. -/
def createConstant (value : ConstValue) : Net := ⟨value.netName, none, [], some value⟩

/-- Whether the net has neither a driver nor a sink. -/
def isFloating (n : Net) : Bool := n.driver.isNone && n.sinks.isEmpty

/-- The number of ports on the net. -/
def degree (n : Net) : Nat := n.sinks.length + (if n.driver.isSome then 1 else 0)

/-- The net with a port as its driver. -/
def drive (n : Net) (port : PortRef) : Net := { n with driver := some port }

/-- The net with one more sink. -/
def addSink (n : Net) (port : PortRef) : Net := { n with sinks := n.sinks ++ [port] }

/-- The net without a port. -/
def detach (n : Net) (port : PortRef) : Net :=
  { n with
    driver := if n.driver = some port then none else n.driver
    sinks := n.sinks.filter fun s => s ≠ port }

/-- The net with a port under another name. -/
def replace (n : Net) (old new : PortRef) : Net :=
  { n with
    driver := if n.driver = some old then some new else n.driver
    sinks := n.sinks.map fun s => if s = old then new else s }

end Net

end FpgaPacking
