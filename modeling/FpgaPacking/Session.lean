/-
Packing sessions.

A session holds the names table, the netlist and the diagnostic log of a packing
run.  `Packing` is the monad of passes: they enter names, edit the netlist, emit
diagnostics and may fail.  As with edits, what happened before a failure stays.
-/
import FpgaPacking.Diagnostic.Log
import FpgaPacking.Netlist.Edit

namespace FpgaPacking

/-- The state of a packing run. -/
structure Session where
  names : Names
  netlist : Netlist
  log : Log
deriving DecidableEq

/-- A step of a packing run. -/
abbrev Packing := EStateM Failure Session

namespace Session

/-- A session with the given names and nothing else. -/
def start (names : Names) : Session := ⟨names, .empty, .empty⟩

end Session

namespace Packing

/-- Carries out an edit of the netlist. -/
def edit {α : Type} (x : Edit α) : Packing α := fun ⟨names, netlist, log⟩ =>
  match x names netlist with
  | .ok a netlist => .ok a ⟨names, netlist, log⟩
  | .error e netlist => .error e ⟨names, netlist, log⟩

/-- Carries out a construction that enters names. -/
def name {α : Type} (x : Naming α) : Packing α := fun ⟨names, netlist, log⟩ =>
  let (a, names) := x names
  .ok a ⟨names, netlist, log⟩

/-- An edit can stand in a packing step. -/
instance : MonadLift Edit Packing := ⟨edit⟩

/-- A construction that enters names can stand in a packing step. -/
instance : MonadLift Naming Packing := ⟨name⟩

/-- A lookup of something that must exist can stand in a packing step. -/
instance : MonadLift (Except Fault) Packing where
  monadLift
    | .ok a => pure a
    | .error f => throw (.fault f)

/-- A check that does not change anything can stand in a packing step. -/
instance : MonadLift (Except Failure) Packing where
  monadLift
    | .ok a => pure a
    | .error f => throw f

/-- Records a diagnostic. -/
def emit (d : Diagnostic) : Packing Unit := modify fun s => { s with log := s.log.emit d }

/-- The netlist as it stands. -/
def netlist : Packing Netlist := return (← get).netlist

/-- The name behind an identifier. -/
def resolve (ident : Ident) : Packing String := return (← get).names.resolve ident

/-- Fails with a violation. -/
def violate {α : Type} (v : Violation) : Packing α := throw (.violation v)

end Packing

end FpgaPacking
