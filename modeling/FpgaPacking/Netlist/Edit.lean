/-
Edits of a netlist.

An `Edit` changes a netlist and may fail.  It reads the names table, which it
needs for messages only.  What an edit has done before it fails stays done: the
state after a failure is a result like any other, and that a single operation
changes nothing when it fails is a theorem, not a property of the monad.

Two kinds of lookup occur.  A checked lookup reports a missing object as a
violation; a plain one, `Netlist.cell` or `Netlist.net`, is a fault.
-/
import FpgaPacking.Netlist.Basic

namespace FpgaPacking

/-- A change of a netlist that may fail. -/
abbrev Edit := ReaderT Names (EStateM Failure Netlist)

/-- A lookup of something that must exist can stand in an edit. -/
instance : MonadLift (Except Fault) Edit where
  monadLift
    | .ok a => pure a
    | .error f => throw (.fault f)

namespace Edit

/-- Fails with a violation. -/
def violate {α : Type} (v : Violation) : Edit α := throw (.violation v)

/-- The name behind an identifier. -/
def resolve (ident : Ident) : Edit String := return (← read).resolve ident

/-- The cell of a handle that must have one. -/
def cell (id : CellId) : Edit Cell := do (← get).cell id

/-- The net of a handle that must have one. -/
def net (id : NetId) : Edit Net := do (← get).net id

/-- The cell of a handle; a violation if it does not exist. -/
def cellChecked (id : CellId) : Edit Cell := do
  match (← get).cell? id with
  | some c => return c
  | none => violate (.missingCell id)

/-- The net of a handle; a violation if it does not exist. -/
def netChecked (id : NetId) : Edit Net := do
  match (← get).net? id with
  | some n => return n
  | none => violate (.missingNet id)

/-- A cell together with its port of the given name; a violation if either does not exist. -/
def portChecked (id : CellId) (port : Ident) : Edit (Cell × Port) := do
  let c ← cellChecked id
  match c.port? port with
  | some p => return (c, p)
  | none => violate (.missingPort c.name (← resolve port))

/-- Changes a cell. -/
def modifyCell (id : CellId) (f : Cell → Cell) : Edit Unit :=
  modify fun nl => { nl with cells := nl.cells.modify id f }

/-- Changes a cell that must exist. -/
def updateCell (id : CellId) (f : Cell → Cell) : Edit Unit := do
  let _ ← cell id
  modifyCell id f

/-- Changes a net. -/
def modifyNet (id : NetId) (f : Net → Net) : Edit Unit :=
  modify fun nl => { nl with nets := nl.nets.modify id f }

/-! ## Creation -/

/-- Creates a cell without ports. -/
def createCell (cellType : Ident) (name : String) : Edit CellId :=
  modifyGet fun nl =>
    let (id, cells) := nl.cells.alloc (.create cellType name)
    (id, { nl with cells })

/-- Creates a net that nothing is connected to. -/
def createNet (name : String) : Edit NetId :=
  modifyGet fun nl =>
    let (id, nets) := nl.nets.alloc (.create name)
    (id, { nl with nets })

/-- A name that the counter makes fresh: the base, a dollar sign and a number. -/
def uniqueName (base : String) : Edit String :=
  modifyGet fun nl =>
    (base ++ "$" ++ toString nl.nameCounter, { nl with nameCounter := nl.nameCounter + 1 })

/-- The constant net of a value, created on first use. -/
def constantNet (value : ConstValue) : Edit NetId :=
  modifyGet fun nl =>
    match nl.constantNet? value with
    | some id => (id, nl)
    | none =>
      let (id, nets) := nl.nets.alloc (.createConstant value)
      match value with
      | .zero => (id, { nl with nets, tiedLow := some id })
      | .one => (id, { nl with nets, tiedHigh := some id })

/-! ## Ports -/

/-- Adds a port to a cell.  A port of the same name and direction is left as it is; one of another
direction is a violation. -/
def addPort (id : CellId) (port : Ident) (direction : Direction) : Edit Unit := do
  let c ← cellChecked id
  match c.port? port with
  | some p =>
    if p.direction = direction then
      return ()
    else
      violate (.directionMismatch c.name (← resolve port))
  | none => modifyCell id fun c => c.addPort ⟨port, direction, none⟩

/-- Removes a port that is not connected. -/
def removePort (id : CellId) (port : Ident) : Edit Unit := do
  let (c, p) ← portChecked id port
  if p.net.isSome then
    violate (.removesConnectedPort c.name (← resolve port))
  else
    modifyCell id fun c => c.dropPort port

/-- Gives a port another name and keeps its direction, position and connection. -/
def renamePort (id : CellId) (old new : Ident) : Edit Unit := do
  let (c, p) ← portChecked id old
  if old = new then
    return ()
  else if (c.port? new).isSome then
    violate (.renamesOntoPort c.name (← resolve old) (← resolve new))
  else do
    modifyCell id fun c => c.renamePort old new
    match p.net with
    | none => return ()
    | some onNet =>
      let _ ← netChecked onNet
      modifyNet onNet fun n => n.replace ⟨id, old⟩ ⟨id, new⟩

/-- Puts a port on a net.  A port that is on the net already is left alone, one on another net is a
conflict.  An output becomes the net's driver, which must not have one and must not be constant;
any other port becomes its last sink. -/
def connect (id : CellId) (port : Ident) (onNet : NetId) : Edit Unit := do
  let (c, p) ← portChecked id port
  match p.net with
  | some existing =>
    if existing = onNet then
      return ()
    else
      throw (.rejected (.portConflict c.name (← resolve port) (← net existing).name
        ((← get).netName onNet)))
  | none =>
    let n ← netChecked onNet
    match p.direction with
    | .output =>
      if n.constant.isSome then
        violate (.drivesConstant c.name (← resolve port) n.name)
      else if n.driver.isSome then
        violate (.secondDriver c.name (← resolve port) n.name)
      else
        modifyNet onNet fun n => n.drive ⟨id, port⟩
    | .input | .inout => modifyNet onNet fun n => n.addSink ⟨id, port⟩
    modifyCell id fun c => c.setNet port (some onNet)

/-- Takes a port off its net, which is returned. -/
def disconnect (id : CellId) (port : Ident) : Edit (Option NetId) := do
  let (_, p) ← portChecked id port
  match p.net with
  | none => return none
  | some onNet =>
    let _ ← netChecked onNet
    modifyNet onNet fun n => n.detach ⟨id, port⟩
    modifyCell id fun c => c.setNet port none
    return some onNet

/-! ## Removal -/

/-- Removes a cell that has no connected port and is in no cluster. -/
def removeCell (id : CellId) : Edit Cell := do
  let c ← cellChecked id
  match c.ports.find? fun p => p.net.isSome with
  | some p => violate (.removesConnectedCell c.name (← resolve p.name))
  | none =>
    if c.isClustered then
      violate (.removesClusteredCell c.name)
    else do
      modify fun nl => { nl with queue := nl.queue.erase id, cells := (nl.cells.remove id).2 }
      return c

/-- Removes a net that nothing is connected to.  A constant net is forgotten and created anew on
its next use. -/
def removeNet (id : NetId) : Edit Net := do
  let n ← netChecked id
  if n.isFloating then do
    modify fun nl =>
      { nl with
        tiedLow := if nl.tiedLow = some id then none else nl.tiedLow
        tiedHigh := if nl.tiedHigh = some id then none else nl.tiedHigh
        nets := (nl.nets.remove id).2 }
    return n
  else
    violate (.removesConnectedNet n.name n.degree)

/-- Queues a cell for removal, if it exists. -/
def markForRemoval (id : CellId) : Edit Unit :=
  modify fun nl => if nl.cells.contains id then { nl with queue := nl.queue.add id } else nl

/-- Takes every port of a cell off its net and adds the nets to a set. -/
def detachAll (id : CellId) (touched : Keys NetId) : Edit (Keys NetId) := do
  let c ← cellChecked id
  c.ports.foldlM (fun touched p => return touched.addAll (← disconnect id p.name).toList) touched

/-- Takes every port of a cell off its net and removes the cell. -/
def dismantle (touched : Keys NetId) (id : CellId) : Edit (Keys NetId) := do
  let touched ← detachAll id touched
  let _ ← removeCell id
  return touched

/-- Removes a net if nothing is connected to it and it is not constant. -/
def removeFloating (id : NetId) : Edit Unit := do
  match (← get).net? id with
  | some n => if n.isFloating && n.constant.isNone then let _ ← removeNet id
  | none => return ()

/-- Empties the queue: its cells are disconnected and removed in order of creation, and then the nets
they were on that nothing is connected to any more.  Returns the number of removed cells. -/
def flush : Edit Nat := do
  let queued ← modifyGet fun nl => (nl.queue.keys, { nl with queue := .empty })
  let touched ← queued.foldlM dismantle Table.empty
  touched.keys.forM removeFloating
  return queued.length

end Edit

end FpgaPacking
