/-
TOML documents.

A document is read into statements, one for each line that holds one, and the
statements are carried out in order on a table that starts empty.  A document
that is no TOML, or whose statements contradict each other, has no table.
-/
import FpgaPacking.Toml.Number

namespace FpgaPacking
namespace Toml

open Text Text.Reader

/-! ## Values -/

/-- A boolean. -/
def boolean : Reader Bool :=
  (do exactly ['t', 'r', 'u', 'e']; return true) <|>
  (do exactly ['f', 'a', 'l', 's', 'e']; return false)

/-- An array of values with gaps around them.  A comma may follow the last one. -/
def array (item : Reader Value) : Reader (List Value) := do
  char '['
  let first ← maybe (do gaps; let v ← item; gaps; return v)
  match first with
  | none => do
    gaps
    char ']'
    return []
  | some v => do
    let more ← many (do char ','; gaps; let v ← item; gaps; return v)
    let _ ← maybe (char ',')
    gaps
    char ']'
    return v :: more

/-- A key and a value. -/
def assignment (item : Reader Value) : Reader (List String × Value) := do
  let path ← key
  char '='
  blanks
  return (path, ← item)

/-- A table between braces, on one line and without a comma at the end. -/
def inlineTable (item : Reader Value) : Reader Entries := do
  char '\x7b'
  let pair := do
    let pair ← assignment item
    blanks
    return pair
  let pairs ← maybe (separated1 pair (char ','))
  blanks
  char '\x7d'
  (pairs.getD []).foldlM (fun entries (path, v) => Entries.assign path v .inline entries) []

/-- A value that holds no other values. -/
def scalar : Reader Value :=
  (do return .text (← string)) <|> numeric <|> (do return .boolean (← boolean))

/-- A value in which arrays and inline tables are nested at most `depth` deep. -/
def value : Nat → Reader Value
  | 0 => scalar
  | depth + 1 =>
    scalar <|>
    (do return .array (← array (value depth))) <|>
    (do return .table .inline (← inlineTable (value depth)))

/-! ## Statements -/

/-- What one line of a document says. -/
inductive Statement where
  | assign (path : List String) (value : Value)
  /-- A header. -/
  | openTable (path : List String)
  /-- A header of an array of tables. -/
  | appendTable (path : List String)

/-- A header with its brackets. -/
def header : Reader Statement :=
  (do
    exactly ['[', '[']
    let path ← key
    exactly [']', ']']
    return .appendTable path) <|>
  (do
    char '['
    let path ← key
    char ']'
    return .openTable path)

/-- A line, with the blanks at the start of the next one. -/
def line : Reader (Option Statement) := do
  let statement ←
    (do comment; lineEnd; return none) <|>
    (do newline; return none) <|>
    (do let s ← header; lineRest; return some s) <|>
    (do
      let (path, v) ← assignment (value maxDepth)
      lineRest
      return some (.assign path v))
  blanks
  return statement

/-- All statements of a text.  A byte order mark may stand at the start. -/
def statements (text : String) : Option (List Statement) :=
  Reader.run? (do
    let _ ← maybe (char '\ufeff')
    blanks
    return (← many line).filterMap id) text

/-! ## Tables -/

/-- A document while it is carried out. -/
structure Progress where
  root : Entries
  /-- The header under which values are entered. -/
  current : List String

/-- Carries out one statement. -/
def Progress.step (p : Progress) : Statement → Option Progress
  | .assign path v => do
    let root ← Entries.descend .implied (Entries.assign path v) p.current .header p.root
    return { p with root }
  | .openTable path => do
    let last ← path.getLast?
    let root ← Entries.descend .implied (Entries.openLast last) path.dropLast .header p.root
    return ⟨root, path⟩
  | .appendTable path => do
    let last ← path.getLast?
    let root ← Entries.descend .implied (Entries.appendLast last) path.dropLast .header p.root
    return ⟨root, path⟩

/-- The table a document denotes. -/
def parse (text : String) : Option Entries := do
  let statements ← statements text
  let progress ← statements.foldlM Progress.step ⟨[], []⟩
  return progress.root

end Toml
end FpgaPacking
