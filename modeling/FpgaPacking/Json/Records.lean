/-
The JSON forms of the library's types.

Handles and identifiers are bare numbers, choices are their names, and everything
else is a record of its fields.  A vector of logic values is written as it is
stored, and reading one does not check that its words fit its width.
-/
import FpgaPacking.Diagnostic.Basic
import FpgaPacking.Digest.Basic
import FpgaPacking.Json.Form
import FpgaPacking.Netlist.Canonical

namespace FpgaPacking
namespace Json
namespace Form

/-! ## Numbers -/

/-- Identifiers. -/
def ident : Form Ident := (natural 32).via (·.index) fun n => some ⟨n⟩

/-- Handles. -/
def handle (k : Kind) : Form (Id k) := (natural 32).via (·.index) fun n => some ⟨n⟩

/-- Digests, as sixteen bytes. -/
def digest : Form Digest :=
  (list (natural 8)).via (fun d => d.bytes.toList.map (·.toNat)) fun bytes =>
    if h : bytes.length = 16 then
      some ⟨⟨(bytes.map UInt8.ofNat).toArray, by simpa using h⟩⟩
    else
      none

/-! ## Choices -/

/-- Logic values. -/
def logic : Form Logic := enumeration Logic.all fun
  | .zero => "Zero"
  | .one => "One"
  | .x => "X"
  | .z => "Z"

/-- Port directions. -/
def direction : Form Direction := enumeration [.input, .output, .inout] Direction.word

/-- Cell roles. -/
def role : Form Role := enumeration Role.all fun
  | .normal => "Normal"
  | .feedIn => "FeedIn"
  | .passThrough => "PassThrough"
  | .passOut => "PassOut"

/-- Values of constant nets. -/
def constValue : Form ConstValue := enumeration [.zero, .one] ConstValue.word

/-- Severities. -/
def severity : Form Severity := enumeration Severity.all Severity.label

/-- Categories of diagnostics. -/
def category : Form Category := enumeration Category.all Category.name

/-! ## Records -/

/-- Vectors of logic values. -/
def logicVec : Form LogicVec where
  write v := record
    [("width", (natural 32).write v.width),
     ("words", (list (natural 64)).write (v.words.toList.map (·.toNat)))]
  read? document := do
    let found ← fields? ["width", "words"] document
    let width ← field? (natural 32) found "width"
    let words ← field? (list (natural 64)) found "words"
    return ⟨width, (words.map UInt64.ofNat).toArray⟩

/-- Integers of 64 bits with sign. -/
def int64 : Form Int64 :=
  (integer Int64.minValue.toInt Int64.maxValue.toInt).via (·.toInt) fun n => some (Int64.ofInt n)

/-- Parameter values: an object whose only member is named for the sort of value. -/
def paramValue : Form ParamValue where
  write
    | .int n => record [("Int", int64.write n)]
    | .bits v => record [("Bits", logicVec.write v)]
    | .text content => record [("Str", text.write content)]
  read? document := do
    match ← choice? document with
    | ("Int", some content) => (int64.read? content).map .int
    | ("Bits", some content) => (logicVec.read? content).map .bits
    | ("Str", some content) => (text.read? content).map .text
    | _ => none

/-- Ports of cells. -/
def portRef : Form PortRef where
  write p := record [("cell", (handle .cell).write p.cell), ("port", ident.write p.port)]
  read? document := do
    let found ← fields? ["cell", "port"] document
    return ⟨← field? (handle .cell) found "cell", ← field? ident found "port"⟩

/-- Diagnostic codes. -/
def diagnosticCode : Form DiagnosticCode where
  write code := record
    [("category", category.write code.category), ("number", (natural 16).write code.number)]
  read? document := do
    let found ← fields? ["category", "number"] document
    return ⟨← field? category found "category", ← field? (natural 16) found "number"⟩

/-- Diagnostics.  The subject may be missing, the other fields may not. -/
def diagnostic : Form Diagnostic where
  write d := record
    [("severity", severity.write d.severity),
     ("code", diagnosticCode.write d.code),
     ("message", text.write d.message),
     ("subject", (optional text).write d.subject),
     ("notes", (list text).write d.notes),
     ("help", (list text).write d.help)]
  read? document := do
    let found ← fields? ["severity", "code", "message", "subject", "notes", "help"] document
    let severity ← field? severity found "severity"
    let code ← field? diagnosticCode found "code"
    let message ← field? text found "message"
    let subject ← (optional text).read? ((found.find? "subject").getD .null)
    let notes ← field? (list text) found "notes"
    let help ← field? (list text) found "help"
    return ⟨severity, code, message, subject, notes, help⟩

end Form
end Json
end FpgaPacking
