/-
Four-valued logic.

A bit of a truth table is low, high, unknown or high impedance.  Each value has
a two-bit code, under which vectors store it, and a character, under which texts
show it.
-/
namespace FpgaPacking

/-- One bit of a truth table or of a bit-vector parameter. -/
inductive Logic where
  | zero
  | one
  /-- Unknown. -/
  | x
  /-- High impedance. -/
  | z
deriving DecidableEq, Repr

namespace Logic

/-- The values in the order of their codes. -/
def all : List Logic := [.zero, .one, .x, .z]

/-- The two-bit code. -/
def code : Logic → UInt64
  | .zero => 0
  | .one => 1
  | .x => 2
  | .z => 3

/-- The value whose code is in the low two bits of a word. -/
def ofCode (word : UInt64) : Logic :=
  let low := word &&& 3
  if low = 0 then .zero else if low = 1 then .one else if low = 2 then .x else .z

/-- The character of a value. -/
def char : Logic → Char
  | .zero => '0'
  | .one => '1'
  | .x => 'X'
  | .z => 'Z'

/-- The value of a character.  Unknown and high impedance are read in either case. -/
def ofChar? : Char → Option Logic
  | '0' => some .zero
  | '1' => some .one
  | 'x' | 'X' => some .x
  | 'z' | 'Z' => some .z
  | _ => none

/-- High for `true`, low for `false`. -/
def ofBool : Bool → Logic
  | true => .one
  | false => .zero

/-- The boolean of a defined value. -/
def toBool? : Logic → Option Bool
  | .zero => some false
  | .one => some true
  | .x | .z => none

/-- Reading the character of a value gives the value back. -/
theorem ofChar?_char (v : Logic) : ofChar? v.char = some v := by cases v <;> rfl

/-- Reading the code of a value gives the value back. -/
theorem ofCode_code (v : Logic) : ofCode v.code = v := by cases v <;> rfl

end Logic

end FpgaPacking
