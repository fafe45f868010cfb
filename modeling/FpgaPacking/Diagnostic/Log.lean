/-
The diagnostic log.

A log keeps two things: the diagnostics that nobody has taken yet, in the order
in which they were emitted, and how many diagnostics of each severity were ever
emitted.  Taking the pending diagnostics leaves the totals alone.
-/
import FpgaPacking.Diagnostic.Basic

namespace FpgaPacking

/-- The diagnostics of a packing run. -/
structure Log where
  /-- Emitted and not yet taken, oldest first. -/
  pending : List Diagnostic
  /-- How many notes were emitted. -/
  notes : Nat
  /-- How many warnings were emitted. -/
  warnings : Nat
  /-- How many errors were emitted. -/
  errors : Nat
deriving DecidableEq, Repr

namespace Log

/-- The log of a run that has not emitted anything. -/
def empty : Log := ⟨[], 0, 0, 0⟩

instance : Inhabited Log := ⟨empty⟩

/-- How many diagnostics of the severity were ever emitted. -/
def count (log : Log) : Severity → Nat
  | .note => log.notes
  | .warning => log.warnings
  | .error => log.errors

/-- Whether any error was ever emitted. -/
def hasErrors (log : Log) : Bool := log.count .error > 0

/-- Counts one more diagnostic of the severity. -/
def tally (log : Log) : Severity → Log
  | .note => { log with notes := log.notes + 1 }
  | .warning => { log with warnings := log.warnings + 1 }
  | .error => { log with errors := log.errors + 1 }

/-- Records a diagnostic. -/
def emit (log : Log) (d : Diagnostic) : Log :=
  let tallied := log.tally d.severity
  { tallied with pending := tallied.pending ++ [d] }

/-- Takes the pending diagnostics. -/
def take (log : Log) : List Diagnostic × Log := (log.pending, { log with pending := [] })

/-- The greatest severity among the pending diagnostics. -/
def greatest (log : Log) : Option Severity :=
  (Severity.all.filter fun s => log.pending.any fun d => d.severity = s).getLast?

/-! ## Accounting -/

/-- Emitting counts the severity of the diagnostic. -/
theorem count_emit (log : Log) (d : Diagnostic) (s : Severity) :
    (log.emit d).count s = log.count s + if d.severity = s then 1 else 0 := by
  unfold emit tally
  cases hd : d.severity <;> cases s <;> rfl

/-- An emitted diagnostic is the last of the pending ones. -/
theorem pending_emit (log : Log) (d : Diagnostic) : (log.emit d).pending = log.pending ++ [d] := by
  unfold emit tally
  cases d.severity <;> rfl

/-- Taking the pending diagnostics leaves the totals alone. -/
theorem count_take (log : Log) (s : Severity) : log.take.2.count s = log.count s := by
  cases s <;> rfl

end Log

end FpgaPacking
