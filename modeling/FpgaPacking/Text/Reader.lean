/-
Readers of text.

A `Reader` takes a value off the front of a list of characters or fails.  It has
no error texts: a format is accepted or it is not.  An alternative that fails
gives back what it had taken, so `a <|> b` tries both from the same place.

`many` repeats a reader as often as it succeeds.  Its bound is the number of
characters left, which is enough because the readers it is given take at least
one character each time they succeed.
-/
namespace FpgaPacking
namespace Text

/-- Takes a value off the front of a text, or fails. -/
abbrev Reader := StateT (List Char) Option

namespace Reader

variable {α β : Type}

/-- The next character, which is taken if it satisfies `p`. -/
def satisfy (p : Char → Bool) : Reader Char := fun text =>
  match text with
  | c :: rest => if p c then some (c, rest) else none
  | [] => none

/-- The next character, which is not taken. -/
def peek : Reader (Option Char) := fun text => some (text.head?, text)

/-- Takes exactly the given character. -/
def char (c : Char) : Reader Unit := do let _ ← satisfy (· = c)

/-- Takes exactly the given characters. -/
def exactly (cs : List Char) : Reader Unit := cs.forM char

/-- Takes as many characters as satisfy `p`. -/
def takeWhile (p : Char → Bool) : Reader (List Char) := fun text =>
  some (text.takeWhile p, text.dropWhile p)

/-- Succeeds at the end of the text. -/
def atEnd : Reader Unit := fun text => if text.isEmpty then some ((), text) else none

/-- What the reader takes, or nothing if it fails. -/
def maybe (r : Reader α) : Reader (Option α) := (some <$> r) <|> pure none

/-- Repeats a reader at most `bound` times. -/
def upTo (r : Reader α) : Nat → Reader (List α)
  | 0 => pure []
  | bound + 1 => fun text =>
    match r text with
    | some (a, rest) => (upTo r bound rest).map fun (as, rest) => (a :: as, rest)
    | none => some ([], text)

/-- Repeats a reader as often as it succeeds. -/
def many (r : Reader α) : Reader (List α) := fun text => upTo r text.length text

/-- Repeats a reader as often as it succeeds, at least once. -/
def many1 (r : Reader α) : Reader (List α) := do return (← r) :: (← many r)

/-- Reads items with a separator between them, at least one. -/
def separated1 (item : Reader α) (separator : Reader β) : Reader (List α) := do
  return (← item) :: (← many (separator *> item))

/-- Repeats a reader exactly `count` times. -/
def times (count : Nat) (r : Reader α) : Reader (List α) := (List.replicate count ()).mapM fun _ => r

/-- What the reader takes from a whole text. -/
def run? (r : Reader α) (text : String) : Option α := do
  let (a, rest) ← r text.toList
  if rest.isEmpty then some a else none

end Reader

/-- A decimal digit. -/
def isDigit (c : Char) : Bool := '0' ≤ c && c ≤ '9'

/-- The value of a decimal or hexadecimal digit in either case; other characters count as zero. -/
def digitValue (c : Char) : Nat :=
  if isDigit c then c.toNat - '0'.toNat
  else if 'a' ≤ c ∧ c ≤ 'f' then c.toNat - 'a'.toNat + 10
  else if 'A' ≤ c ∧ c ≤ 'F' then c.toNat - 'A'.toNat + 10
  else 0

/-- A hexadecimal digit in either case. -/
def isHexDigit (c : Char) : Bool :=
  isDigit c || ('a' ≤ c && c ≤ 'f') || ('A' ≤ c && c ≤ 'F')

/-- The number that digits denote to a base, most significant first. -/
def numberOf (base : Nat) (digits : List Char) : Nat :=
  digits.foldl (fun n c => base * n + digitValue c) 0

/-- The character of a code point, unless the code point belongs to no character. -/
def charOf? (codePoint : Nat) : Option Char :=
  if h : codePoint.isValidChar then some (Char.ofNatAux codePoint h) else none

end Text
end FpgaPacking
