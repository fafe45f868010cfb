/-
Netlists.

A netlist owns cells and nets under handles.  A connection is recorded on both
sides: the port of a cell holds its net, and the net holds the port as its
driver or among its sinks.  Next to the objects a netlist keeps the cells queued
for removal, the constant nets, and the counter that makes names fresh.

This module holds the queries.  They read the netlist and are total: a handle
without an object has no name, no ports and no connections.
-/
import FpgaPacking.Arena
import FpgaPacking.Netlist.Failure
import FpgaPacking.Netlist.Net

namespace FpgaPacking

/-- Cells, nets and the bookkeeping of packing. -/
structure Netlist where
  cells : Arena .cell Cell
  nets : Arena .net Net
  /-- The cells to be removed by the next flush. -/
  queue : Keys CellId
  /-- The net that is tied low. -/
  tiedLow : Option NetId
  /-- The net that is tied high. -/
  tiedHigh : Option NetId
  /-- The number the next fresh name gets. -/
  nameCounter : Nat
deriving DecidableEq

namespace Netlist

/-- The netlist without cells and nets. -/
def empty : Netlist := ⟨.empty, .empty, .empty, none, none, 0⟩

instance : Inhabited Netlist := ⟨empty⟩

/-! ## Objects -/

/-- The cell of a handle. -/
def cell? (nl : Netlist) (id : CellId) : Option Cell := nl.cells.get? id

/-- The net of a handle. -/
def net? (nl : Netlist) (id : NetId) : Option Net := nl.nets.get? id

/-- The cell of a handle that must have one. -/
def cell (nl : Netlist) (id : CellId) : Except Fault Cell :=
  match nl.cell? id with
  | some c => .ok c
  | none => .error (.missingCell id)

/-- The net of a handle that must have one. -/
def net (nl : Netlist) (id : NetId) : Except Fault Net :=
  match nl.net? id with
  | some n => .ok n
  | none => .error (.missingNet id)

/-- The handles of the live cells, in order of creation. -/
def cellIds (nl : Netlist) : List CellId := nl.cells.ids

/-- The live cells of a type, in order of creation. -/
def cellsOfType (nl : Netlist) (cellType : Ident) : List CellId :=
  (nl.cells.entries.filter fun entry => entry.2.cellType = cellType).map (·.1)

/-- The first live cell of the given name. -/
def findCell? (nl : Netlist) (name : String) : Option CellId := nl.cells.find? fun c => c.name = name

/-- The first live net of the given name. -/
def findNet? (nl : Netlist) (name : String) : Option NetId := nl.nets.find? fun n => n.name = name

/-- The name of a net, or its handle if it does not exist. -/
def netName (nl : Netlist) (id : NetId) : String :=
  match nl.net? id with
  | some n => n.name
  | none => id.label

/-- The constant net of a value, if it exists. -/
def constantNet? (nl : Netlist) : ConstValue → Option NetId
  | .zero => nl.tiedLow
  | .one => nl.tiedHigh

/-- Whether the cell is queued for removal. -/
def isMarked (nl : Netlist) (id : CellId) : Bool := nl.queue.contains id

/-! ## Connections -/

/-- The net a port of a cell is on. -/
def netOf (nl : Netlist) (cell : CellId) (port : Ident) : Option NetId :=
  (nl.cell? cell).bind fun c => c.netOf port

/-- The constant tag of a net. -/
def constValue (nl : Netlist) (net : NetId) : Option ConstValue :=
  (nl.net? net).bind (·.constant)

/-- The cell that drives the net through `port`, if it satisfies `p`. -/
def drivenBy (nl : Netlist) (net : NetId) (p : Cell → Bool) (port : Ident) : Option CellId := do
  let driver ← (← nl.net? net).driver
  let c ← nl.cell? driver.cell
  if driver.port = port ∧ p c then some driver.cell else none

/-- The first cell that reads the net on `port` and satisfies `p`. -/
def firstReader (nl : Netlist) (net : NetId) (p : Cell → Bool) (port : Ident) : Option CellId := do
  let n ← nl.net? net
  let sink ← n.sinks.find? fun s => s.port = port && (nl.cell? s.cell).any p
  return sink.cell

/-- The cell that reads the net on `port` and satisfies `p`, if its port is the only sink. -/
def onlyReader (nl : Netlist) (net : NetId) (p : Cell → Bool) (port : Ident) : Option CellId := do
  let n ← nl.net? net
  if n.sinks.length = 1 then nl.firstReader net p port else none

/-- The numbers of live cells and nets on one line. -/
def summary (nl : Netlist) : String :=
  s!"Netlist \x7b cells: {nl.cells.live}, nets: {nl.nets.live} \x7d"

end Netlist

end FpgaPacking
