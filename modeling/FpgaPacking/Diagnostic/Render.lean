/-
Diagnostics as terminal output.

The first line holds the severity, the code and the message, the next names the
subject, and one line follows for every note and every help text.  In colour the
severity is bold.
-/
import FpgaPacking.Diagnostic.Basic

namespace FpgaPacking
namespace Diagnostic

/-- The terminal's colour number of a severity. -/
def colourNumber : Severity → Nat
  | .note => 36
  | .warning => 33
  | .error => 31

/-- The severity at the start of the output. -/
def severityLabel (colour : Bool) (s : Severity) : String :=
  if colour then s!"\x1b[1;{colourNumber s}m{s.label}\x1b[0m" else s.label

/-- The output of one diagnostic. -/
def render (colour : Bool) (d : Diagnostic) : String :=
  s!"{severityLabel colour d.severity}[{d.code.label}]: {d.message}\n"
    ++ (match d.subject with
      | some subject => s!"  --> {subject}\n"
      | none => "")
    ++ String.join (d.notes.map fun note => s!"   = note: {note}\n")
    ++ String.join (d.help.map fun help => s!"   = help: {help}\n")

/-- The output of several diagnostics, one after the other. -/
def renderAll (colour : Bool) (ds : List Diagnostic) : String :=
  String.join (ds.map (render colour))

end Diagnostic
end FpgaPacking
