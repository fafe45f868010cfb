/-
JSON documents.

A document is a tree.  Its numbers and strings are kept as they are written:
a number by its characters and a string by what stands between its quotes.  What
a leaf denotes is a question of its own.  A number denotes an integer if it is
written without fraction and exponent, and a string denotes a text unless it has
an escape of one half of a surrogate pair without the other.
-/
import FpgaPacking.Text.Reader

namespace FpgaPacking

/-- A JSON document. -/
inductive Json where
  | null
  | bool (value : Bool)
  /-- A number as it is written. -/
  | number (written : String)
  /-- A string as it is written between its quotes. -/
  | string (written : String)
  | array (items : List Json)
  /-- The members in order; their names are written like strings. -/
  | object (members : List (String × Json))

namespace Json

open Text (Reader isDigit isHexDigit numberOf charOf?)

/-! ## Numbers -/

/-- The integer that digits after an optional minus sign denote.  A zero with a sign is no integer. -/
def integerOf? : List Char → Option Int
  | '-' :: digits =>
    if digits.all isDigit && digits ≠ ['0'] then some (-(numberOf 10 digits : Int)) else none
  | digits => if digits.all isDigit then some (numberOf 10 digits) else none

/-- The integer a document denotes. -/
def integer? : Json → Option Int
  | .number written => integerOf? written.toList
  | _ => none

/-- The document that denotes an integer. -/
def integer (n : Int) : Json := .number (toString n)

/-! ## Strings -/

/-- What the letter after a backslash stands for, besides `u`. -/
def shortEscapes : List (Char × Char) :=
  [('"', '"'), ('\\', '\\'), ('/', '/'), ('b', '\x08'), ('f', '\x0c'), ('n', '\n'), ('r', '\r'),
    ('t', '\t')]

/-- Whether a character may stand in a string for itself. -/
def isPlain (c : Char) : Bool := c ≠ '"' && c ≠ '\\' && 0x20 ≤ c.toNat

/-- Reads the four digits of a code unit. -/
def codeUnit : Reader Nat := numberOf 16 <$> Reader.times 4 (Reader.satisfy isHexDigit)

/-- Reads the second half of a surrogate pair after its first half. -/
def afterHighSurrogate (high : Nat) : Reader Char := do
  Reader.exactly ['\\', 'u']
  let low ← codeUnit
  if 0xDC00 ≤ low ∧ low ≤ 0xDFFF then
    StateT.lift (charOf? (0x10000 + (high - 0xD800) * 0x400 + (low - 0xDC00)))
  else
    failure

/-- Reads the rest of an escape that begins with a code unit. -/
def unicodeEscape : Reader Char := do
  let unit ← codeUnit
  if 0xD800 ≤ unit ∧ unit ≤ 0xDBFF then afterHighSurrogate unit else StateT.lift (charOf? unit)

/-- Reads what a backslash introduces. -/
def escape : Reader Char := do
  let c ← Reader.satisfy fun _ => true
  if c = 'u' then unicodeEscape else StateT.lift (shortEscapes.lookup c)

/-- Reads one character of a string. -/
def stringChar : Reader Char := Reader.satisfy isPlain <|> (Reader.char '\\' *> escape)

/-- The text that a written string denotes. -/
def textOf? (written : String) : Option String :=
  (Reader.many stringChar).run? written |>.map String.ofList

/-- The text a document denotes. -/
def text? : Json → Option String
  | .string written => textOf? written
  | _ => none

/-- A control character as a code unit with four digits. -/
def controlEscape (c : Char) : String :=
  let digits := Nat.toDigits 16 c.toNat
  "\\u" ++ String.ofList (List.replicate (4 - digits.length) '0' ++ digits)

/-- A character as it is written in a string: itself, except for quotes, backslashes and control
characters. -/
def writeChar (c : Char) : String :=
  if isPlain c then c.toString
  else match shortEscapes.find? fun entry => entry.2 = c with
    | some (letter, _) => "\\" ++ letter.toString
    | none => controlEscape c

/-- The document that denotes a text. -/
def text (content : String) : Json := .string (String.join (content.toList.map writeChar))

end Json

end FpgaPacking
