/-
Forms: how values are exchanged as JSON.

A `Form` writes the values of a type as documents and reads them back.  Reading
is strict: a number must be in range, a record must have all its fields, and no
field may be given twice.  Members that are no fields are ignored whatever they
hold.
-/
import FpgaPacking.Json.Printer
import FpgaPacking.Json.Reader
import FpgaPacking.Table

namespace FpgaPacking
namespace Json

/-- How the values of a type are exchanged. -/
structure Form (α : Type) where
  write : α → Json
  read? : Json → Option α

namespace Form

variable {α β : Type}

/-- The text of a value. -/
def print (form : Form α) (a : α) : String := (form.write a).compact

/-- The value of a text. -/
def parse? (form : Form α) (text : String) : Option α := (Json.parse? text).bind form.read?

/-- Reads a text and writes its value again. -/
def reprint? (form : Form α) (text : String) : Option String := (form.parse? text).map form.print

/-- A form by way of another type. -/
def via (form : Form α) (into : β → α) (from? : α → Option β) : Form β where
  write b := form.write (into b)
  read? document := (form.read? document).bind from?

/-! ## Leaves -/

/-- Texts. -/
def text : Form String := ⟨Json.text, Json.text?⟩

/-- Integers from `least` to `greatest`. -/
def integer (least greatest : Int) : Form Int where
  write := Json.integer
  read? document :=
    document.integer?.bind fun n => if least ≤ n ∧ n ≤ greatest then some n else none

/-- Natural numbers of at most the given number of bits. -/
def natural (bits : Nat) : Form Nat :=
  (integer 0 ((1 <<< bits : Nat) - 1)).via Int.ofNat fun n => some n.toNat

/-! ## Containers -/

/-- Lists. -/
def list (form : Form α) : Form (List α) where
  write items := .array (items.map form.write)
  read?
    | .array items => items.mapM form.read?
    | _ => none

/-- A value that may be absent. -/
def optional (form : Form α) : Form (Option α) where
  write
    | none => .null
    | some a => form.write a
  read?
    | .null => some none
    | document => (form.read? document).map some

/-! ## Choices -/

/-- The name and the content of a choice: a name alone, or an object with a single member. -/
def choice? : Json → Option (String × Option Json)
  | .string written => (textOf? written).map fun name => (name, none)
  | .object [(written, content)] => (textOf? written).map fun name => (name, some content)
  | _ => none

/-- The values of a list by their names.  The name may also stand as the member of an object, with
nothing as its content. -/
def enumeration (all : List α) (name : α → String) : Form α where
  write a := .text (name a)
  read? document := do
    match ← choice? document with
    | (chosen, none) | (chosen, some .null) => all.find? fun a => name a = chosen
    | _ => none

/-! ## Records -/

/-- Enters the members that are fields into a table. -/
def addField (known : List String) (found : Table String Json) (m : String × Json) :
    Option (Table String Json) := do
  let name ← textOf? m.1
  if known.contains name then
    if found.contains name then none else some (found.insert name m.2)
  else
    some found

/-- The fields of a record. -/
def fields? (known : List String) : Json → Option (Table String Json)
  | .object members => members.foldlM (addField known) .empty
  | _ => none

/-- Reads one field. -/
def field? (form : Form α) (found : Table String Json) (name : String) : Option α :=
  (found.find? name).bind form.read?

/-- A document of the given fields. -/
def record (fields : List (String × Json)) : Json := .object fields

end Form

end Json
end FpgaPacking
