/-
Cells.

A cell has a name, a type, ports in the order of their declaration, parameters
and attributes.  Cells that were synthesized while a chain was legalized have a
boundary role.  A cell may belong to a cluster: its descriptor then names the
cluster's root and the cell's offset from it.
-/
import FpgaPacking.Names
import FpgaPacking.Param
import FpgaPacking.Table

namespace FpgaPacking

/-- Which way a signal passes a port. -/
inductive Direction where
  /-- The port reads its net. -/
  | input
  /-- The port drives its net. -/
  | output
  /-- Bidirectional; connected as a reader. -/
  | inout
deriving DecidableEq, Repr

/-- One port of a cell. -/
structure Port where
  name : Ident
  direction : Direction
  /-- The net the port is on. -/
  net : Option NetId
deriving DecidableEq, Repr

namespace Port

/-- Changes the first port of the given name. -/
def modifyFirst (name : Ident) (f : Port → Port) : List Port → List Port
  | [] => []
  | p :: rest => if p.name = name then f p :: rest else p :: modifyFirst name f rest

end Port

/-- Why a cell exists. -/
inductive Role where
  /-- An ordinary cell. -/
  | normal
  /-- Lets a signal from general routing enter a chain. -/
  | feedIn
  /-- Continues a chain and gives its signal to general routing as well. -/
  | passThrough
  /-- Ends a chain segment and gives the chain's signal to general routing. -/
  | passOut
deriving DecidableEq, Repr

namespace Role

/-- All roles. -/
def all : List Role := [.normal, .feedIn, .passThrough, .passOut]

/-- Whether cells of the role are synthesized at a boundary of a chain. -/
def isBoundary (role : Role) : Bool := role ≠ .normal

/-- The word by which attributes and messages name a role. -/
def marker : Role → String
  | .normal => "normal"
  | .feedIn => "feed-in"
  | .passThrough => "pass-through"
  | .passOut => "pass-out"

/-- The word by which names of synthesized cells show a role. -/
def nameTag : Role → String
  | .normal => "normal"
  | .feedIn => "feed_in"
  | .passThrough => "pass_through"
  | .passOut => "pass_out"

end Role

/-- The place of a cluster member relative to the cluster's root. -/
structure Offset where
  /-- Horizontal distance in tiles. -/
  dx : Int
  /-- Vertical distance in tiles. -/
  dy : Int
  /-- Distance in slots of a tile, or the slot itself if `pinned`. -/
  dz : Int
  /-- Whether `dz` is a slot of the tile and not a distance. -/
  pinned : Bool
deriving DecidableEq, Repr

namespace Offset

/-- The root's own place. -/
def zero : Offset := ⟨0, 0, 0, false⟩

instance : Inhabited Offset := ⟨zero⟩

/-- A place at the given tile distance in the given slot. -/
def inSlot (dx dy slot : Int) : Offset := ⟨dx, dy, slot, true⟩

/-- Whether the place is at no distance from the root. -/
def isZero (offset : Offset) : Bool := offset.dx = 0 && offset.dy = 0 && offset.dz = 0

end Offset

/-- The cluster membership of a cell. -/
structure Membership where
  /-- The root of the cell's cluster; a root is its own root. -/
  root : Option CellId
  /-- The cell's place relative to the root. -/
  offset : Offset
  /-- On a root, the other members. -/
  children : List CellId
deriving DecidableEq, Repr

namespace Membership

/-- Membership in no cluster. -/
def none : Membership := ⟨Option.none, .zero, []⟩

end Membership

/-- A cell of the netlist. -/
structure Cell where
  name : String
  cellType : Ident
  /-- The ports in the order of their declaration. -/
  ports : List Port
  params : Table Ident ParamValue
  attrs : Table Ident ParamValue
  /-- The location the cell is bound to. -/
  bel : Option Ident
  role : Role
  cluster : Membership
deriving DecidableEq

namespace Cell

/-- A cell without ports. -/
def create (cellType : Ident) (name : String) : Cell :=
  ⟨name, cellType, [], .empty, .empty, none, .normal, .none⟩

/-- The port of the given name. -/
def port? (c : Cell) (name : Ident) : Option Port := c.ports.find? fun p => p.name = name

/-- The net on the port of the given name. -/
def netOf (c : Cell) (name : Ident) : Option NetId := (c.port? name).bind (·.net)

/-- The output ports that are connected, with their nets. -/
def outputs (c : Cell) : List (Ident × NetId) :=
  c.ports.filterMap fun p => if p.direction = .output then p.net.map fun n => (p.name, n) else none

/-- Whether the cell has an output port, connected or not. -/
def hasOutput (c : Cell) : Bool := c.ports.any fun p => p.direction = .output

/-- Whether any port is connected. -/
def isConnected (c : Cell) : Bool := c.ports.any fun p => p.net.isSome

/-- Whether the cell is in a cluster. -/
def isClustered (c : Cell) : Bool := c.cluster.root.isSome

/-- Adds a port at the end. -/
def addPort (c : Cell) (p : Port) : Cell := { c with ports := c.ports ++ [p] }

/-- Drops the port of the given name. -/
def dropPort (c : Cell) (name : Ident) : Cell :=
  { c with ports := c.ports.filter fun p => p.name ≠ name }

/-- Changes the first port of the given name. -/
def modifyPort (c : Cell) (name : Ident) (f : Port → Port) : Cell :=
  { c with ports := Port.modifyFirst name f c.ports }

/-- Puts the port of the given name on a net, or on none. -/
def setNet (c : Cell) (name : Ident) (net : Option NetId) : Cell :=
  c.modifyPort name fun p => { p with net }

/-- Gives the port of the given name another name. -/
def renamePort (c : Cell) (old new : Ident) : Cell := c.modifyPort old fun p => { p with name := new }

end Cell

end FpgaPacking
