/-
Diagnostics.

A diagnostic reports what a packing pass did or found suspicious.  It has a
severity, a code that names the pass and a number within it, a message, and
optionally a subject, notes and help.
-/
namespace FpgaPacking

/-- How serious a diagnostic is, least serious first. -/
inductive Severity where
  /-- Progress. -/
  | note
  /-- Legal but suspicious input that packing worked around. -/
  | warning
  /-- The packed netlist must not be used. -/
  | error
deriving DecidableEq, Repr

namespace Severity

/-- All severities, least serious first. -/
def all : List Severity := [.note, .warning, .error]

/-- The label in rendered output. -/
def label : Severity → String
  | .note => "note"
  | .warning => "warning"
  | .error => "error"

/-- The position among all severities. -/
def rank : Severity → Nat
  | .note => 0
  | .warning => 1
  | .error => 2

end Severity

/-- The pass a diagnostic code belongs to. -/
inductive Category where
  /-- Constant and dead-logic normalization. -/
  | normalize
  /-- Rule-driven retargeting of cells. -/
  | retarget
  /-- Chain discovery. -/
  | chain
  /-- Chain legalization. -/
  | legalize
  /-- Cluster construction. -/
  | cluster
deriving DecidableEq, Repr

namespace Category

/-- All categories, in the order of their codes. -/
def all : List Category := [.normalize, .retarget, .chain, .legalize, .cluster]

/-- The first of the hundred codes of a category. -/
def base : Category → Nat
  | .normalize => 100
  | .retarget => 200
  | .chain => 300
  | .legalize => 400
  | .cluster => 500

/-- The name of a category. -/
def name : Category → String
  | .normalize => "Normalize"
  | .retarget => "Rewrite"
  | .chain => "Chain"
  | .legalize => "Legalize"
  | .cluster => "Cluster"

end Category

/-- A kind of diagnostic: a number within a category. -/
structure DiagnosticCode where
  category : Category
  number : Nat
deriving DecidableEq, Repr

namespace DiagnosticCode

/-- The code as output shows it: `N` and three digits.  Only the last two digits of the number
count, so that a code never leaves the range of its category. -/
def label (code : DiagnosticCode) : String :=
  "N" ++ toString (code.category.base + code.number % 100)

end DiagnosticCode

/-- One message of a packing pass. -/
structure Diagnostic where
  severity : Severity
  code : DiagnosticCode
  message : String
  /-- The name of the cell or net the message is about. -/
  subject : Option String
  /-- Explanations. -/
  notes : List String
  /-- Suggestions. -/
  help : List String
deriving DecidableEq, Repr

namespace Diagnostic

/-- A note without subject and footnotes. -/
def note (category : Category) (number : Nat) (message : String) : Diagnostic :=
  ⟨.note, ⟨category, number⟩, message, none, [], []⟩

/-- A warning without subject and footnotes. -/
def warning (category : Category) (number : Nat) (message : String) : Diagnostic :=
  ⟨.warning, ⟨category, number⟩, message, none, [], []⟩

end Diagnostic

end FpgaPacking
