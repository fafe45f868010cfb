/-
Packed vectors of logic values.

A `LogicVec` stores its values in 64-bit words, two bits per value and value 0 in
the low bits of word 0.  A truth table over `k` inputs is a vector of width
`2 ^ k`, whose value at `i` is the output for the input combination `i`.

Reading and writing are checked: a position outside the width, or one whose word
is not stored, is a fault.  `values` is the vector as a plain list and the
conversions to text and to integers go through it.
-/
import FpgaPacking.Fault
import FpgaPacking.Logic.Value

namespace FpgaPacking

/-- A fixed-width vector of logic values. -/
structure LogicVec where
  /-- The number of values. -/
  width : Nat
  /-- The packed values. -/
  words : Array UInt64
deriving DecidableEq, Repr

namespace LogicVec

/-- The number of values in one word. -/
def perWord : Nat := 32

/-- `width` low values. -/
def zeros (width : Nat) : LogicVec := ⟨width, Array.replicate ((width + 31) / perWord) 0⟩

/-- The position of the low bit of value `index` within its word. -/
def shift (index : Nat) : UInt64 := UInt64.ofNat (2 * (index % perWord))

/-- The value at `index`, read from its word. -/
def readField (word : UInt64) (index : Nat) : Logic := Logic.ofCode (word >>> shift index)

/-- The word with the value at `index` replaced. -/
def writeField (word : UInt64) (index : Nat) (value : Logic) : UInt64 :=
  (word &&& ~~~(3 <<< shift index)) ||| (value.code <<< shift index)

/-! ## Access -/

/-- The value at `index`. -/
def get (v : LogicVec) (index : Nat) : Except Fault Logic :=
  if index < v.width then
    match v.words[index / perWord]? with
    | some word => .ok (readField word index)
    | none => .error (.wordOutside (index / perWord) v.words.size)
  else
    .error (.bitOutside index v.width)

/-- The vector with the value at `index` replaced.  A position without a word leaves it unchanged. -/
def put (v : LogicVec) (index : Nat) (value : Logic) : LogicVec :=
  { v with words := v.words.modify (index / perWord) (writeField · index value) }

/-- Replaces the value at `index`. -/
def set (v : LogicVec) (index : Nat) (value : Logic) : Except Fault LogicVec :=
  if index < v.width then
    if index / perWord < v.words.size then
      .ok (v.put index value)
    else
      .error (.wordOutside (index / perWord) v.words.size)
  else
    .error (.bitOutside index v.width)

/-- All values, lowest position first. -/
def values (v : LogicVec) : Except Fault (List Logic) := (List.range v.width).mapM v.get

/-- The vector of the given values, lowest position first. -/
def ofValues (values : List Logic) : LogicVec :=
  values.zipIdx.foldl (fun v entry => v.put entry.2 entry.1) (zeros values.length)

/-! ## Integers -/

/-- The number whose binary digits are `bits`, lowest first. -/
def binaryNumber (bits : List Bool) : Nat := bits.foldr (fun bit n => 2 * n + bit.toNat) 0

/-- The low `width` bits of `value`; positions from 64 on are low. -/
def ofUInt64 (value : UInt64) (width : Nat) : LogicVec :=
  (List.range (min width 64)).foldl
    (fun v i => if value.toNat.testBit i then v.put i .one else v) (zeros width)

/-- The vector as an integer, if it has at most 64 values and all are defined. -/
def toUInt64? (v : LogicVec) : Except Fault (Option UInt64) :=
  if v.width > 64 then
    .ok none
  else
    v.values.map fun values => (values.mapM Logic.toBool?).map fun bits => UInt64.ofNat (binaryNumber bits)

/-! ## Text -/

/-- Reads digits of the four values, highest position first. -/
def ofBinaryDigits? (digits : List Char) : Option LogicVec :=
  (digits.reverse.mapM Logic.ofChar?).map ofValues

/-- The value of a hexadecimal digit in either case. -/
def hexDigit? (c : Char) : Option Nat :=
  if '0' ≤ c ∧ c ≤ '9' then some (c.toNat - '0'.toNat)
  else if 'a' ≤ c ∧ c ≤ 'f' then some (c.toNat - 'a'.toNat + 10)
  else if 'A' ≤ c ∧ c ≤ 'F' then some (c.toNat - 'A'.toNat + 10)
  else none

/-- The four values of a hexadecimal digit, lowest first. -/
def nibble (digit : Nat) : List Logic := (List.range 4).map fun i => Logic.ofBool (digit.testBit i)

/-- Reads hexadecimal digits, highest position first and four values each. -/
def ofHexDigits? (digits : List Char) : Option LogicVec :=
  (digits.reverse.mapM hexDigit?).map fun numbers => ofValues (numbers.flatMap nibble)

/-- Reads a text of the characters of the four values, highest position first. -/
def ofBinary? (text : String) : Option LogicVec := ofBinaryDigits? text.toList

/-- Reads a text of hexadecimal digits, highest position first. -/
def ofHex? (text : String) : Option LogicVec := ofHexDigits? text.toList

/-- The characters of the values, highest position first. -/
def display (v : LogicVec) : Except Fault String :=
  v.values.map fun values => String.ofList (values.reverse.map Logic.char)

/-- The display under the name of the type. -/
def summary (v : LogicVec) : Except Fault String := v.display.map fun text => s!"LogicVec({text})"

end LogicVec

end FpgaPacking
