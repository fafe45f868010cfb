/-
Running passes.

Passes run one after the other over one session.  A run ends with the first pass
that fails.  A pass that ends regularly but reported errors fails the run as
well; errors that were reported before a pass started are not counted against it.
-/
import FpgaPacking.Normalize.Run
import FpgaPacking.Pack
import FpgaPacking.Retarget.Apply

namespace FpgaPacking

/-- One pass over a session. -/
structure Pass where
  /-- The name in messages. -/
  name : String
  /-- Runs the pass and returns whether it changed anything. -/
  run : Packing Bool

namespace Pass

/-- Normalization as a pass. -/
def normalize (options : NormalizeOptions) : Pass where
  name := "normalize"
  run := return !(← FpgaPacking.normalize options).isEmpty

/-- Retargeting as a pass. -/
def retarget (rules : RuleSet) : Pass where
  name := "rewrite"
  run := return (← FpgaPacking.retarget rules).total > 0

/-- Chain packing as a pass. -/
def chain (f : Fabric) : Pass where
  name := f.family
  run := return !(← packChains f).isEmpty

/-- The number of errors reported so far. -/
def errorCount : Packing Nat := return (← get).log.count .error

/-- Runs one pass and fails if it reported errors. -/
def runChecked (pass : Pass) : Packing Bool := do
  let before ← errorCount
  let changed ← pass.run
  let errors := (← errorCount) - before
  if errors > 0 then
    throw (.rejected (.passFailed pass.name errors))
  else
    return changed

end Pass

/-- Runs passes in order up to the first that fails.  Returns whether any of them changed anything. -/
def runPasses : List Pass → Packing Bool
  | [] => return false
  | pass :: rest => do
    let changed ← pass.runChecked
    return (← runPasses rest) || changed

end FpgaPacking
