/-
Parameter values.

A parameter or attribute of a cell is an integer, a vector of logic values or a
text.  `parse` reads the textual form in which configurations and netlists give
a value, and `display` writes a value so that vectors can be read again.
-/
import FpgaPacking.Logic.Vec
import FpgaPacking.Text.Quoted

namespace FpgaPacking

/-- The value of a cell parameter or attribute. -/
inductive ParamValue where
  | int (value : Int64)
  /-- A vector such as a truth table. -/
  | bits (vector : LogicVec)
  /-- An enumerated or free-form value. -/
  | text (content : String)
deriving DecidableEq

namespace ParamValue

/-- The vector a text denotes: binary digits after `0b` or hexadecimal digits after `0x`. -/
def vectorOf? (content : String) : Option LogicVec :=
  match content.toList with
  | '0' :: 'b' :: digits => LogicVec.ofBinaryDigits? digits
  | '0' :: 'x' :: digits => LogicVec.ofHexDigits? digits
  | _ => none

/-- Reads a text: a vector if it denotes one that is not empty, otherwise the text itself. -/
def parse (content : String) : ParamValue :=
  match vectorOf? content with
  | some vector => if vector.width = 0 then .text content else .bits vector
  | none => .text content

/-- The integer, if the value is one. -/
def asInt? : ParamValue → Option Int64
  | .int value => some value
  | _ => none

/-- The text, if the value is one. -/
def asText? : ParamValue → Option String
  | .text content => some content
  | _ => none

/-- The value as a vector of the given width.  An integer is cut or extended with low values, a
vector must have the width already, and a text has no vector form. -/
def toBits? (width : Nat) : ParamValue → Option LogicVec
  | .int value => some (LogicVec.ofUInt64 value.toUInt64 width)
  | .bits vector => if vector.width = width then some vector else none
  | .text _ => none

/-- The value as text: an integer in decimal, a vector after `0b`, a text in quotes. -/
def display : ParamValue → Except Fault String
  | .int value => .ok (toString value.toInt)
  | .bits vector => vector.display.map fun digits => "0b" ++ digits
  | .text content => .ok (Text.quoted content)

end ParamValue

end FpgaPacking
