/-
Reading JSON documents.

A text is one document with blanks around it.  Numbers have no leading zeros and
no plus sign, strings contain no control characters, and nothing follows the last
item of an array or the last member of an object but the closing bracket.
-/
import FpgaPacking.Json.Value

namespace FpgaPacking
namespace Json

open Text (Reader isDigit isHexDigit)

/-- Skips blanks. -/
def blanks : Reader Unit := do
  let _ ← Reader.takeWhile fun c => c = ' ' || c = '\n' || c = '\t' || c = '\r'

/-- Reads a mark and the blanks after it. -/
def mark (c : Char) : Reader Unit := Reader.char c *> blanks

/-! ## Leaves -/

/-- Reads at least one digit. -/
def digits : Reader (List Char) := Reader.many1 (Reader.satisfy isDigit)

/-- Reads the digits before the point: a zero alone or digits that begin with another. -/
def wholePart : Reader (List Char) := do
  let whole ← digits
  if whole.head? = some '0' ∧ whole ≠ ['0'] then failure else return whole

/-- Reads a point and the digits after it. -/
def fraction : Reader (List Char) := do
  Reader.char '.'
  return '.' :: (← digits)

/-- Reads the mark of an exponent, its sign and its digits. -/
def exponent : Reader (List Char) := do
  let e ← Reader.satisfy fun c => c = 'e' || c = 'E'
  let sign ← Reader.maybe (Reader.satisfy fun c => c = '+' || c = '-')
  return e :: sign.toList ++ (← digits)

/-- Reads a number as it is written. -/
def numeral : Reader Json := do
  let sign ← Reader.maybe (Reader.satisfy (· = '-'))
  let whole ← wholePart
  let fraction ← Reader.maybe fraction
  let exponent ← Reader.maybe exponent
  return .number (String.ofList
    (sign.toList ++ whole ++ fraction.getD [] ++ exponent.getD []))

/-- Reads an escape as it is written. -/
def writtenEscape : Reader (List Char) := do
  Reader.char '\\'
  let c ← Reader.satisfy fun c => c = 'u' || (shortEscapes.lookup c).isSome
  let unit ← if c = 'u' then Reader.times 4 (Reader.satisfy isHexDigit) else pure []
  return '\\' :: c :: unit

/-- Reads one character of a string as it is written. -/
def writtenChar : Reader (List Char) := List.singleton <$> Reader.satisfy isPlain <|> writtenEscape

/-- Reads what stands between the quotes of a string. -/
def written : Reader String := do
  Reader.char '"'
  let content ← Reader.many writtenChar
  Reader.char '"'
  return String.ofList content.flatten

/-- Reads a word that is a document. -/
def word (name : String) (meaning : Json) : Reader Json := do
  Reader.exactly name.toList
  return meaning

/-! ## Documents -/

/-- Reads items between brackets, separated by commas. -/
def bracketed {α : Type} (opening closing : Char) (item : Reader α) : Reader (List α) := do
  mark opening
  let items ← Reader.maybe (Reader.separated1 item (mark ','))
  Reader.char closing
  return items.getD []

/-- Reads a member of an object, given a reader of values. -/
def member (value : Reader Json) : Reader (String × Json) := do
  let name ← written
  blanks
  mark ':'
  return (name, ← value)

/-- Reads a document and the blanks after it, nested no deeper than the bound. -/
def value : Nat → Reader Json
  | 0 => failure
  | depth + 1 =>
    (word "null" .null <|> word "true" (.bool true) <|> word "false" (.bool false) <|> numeral
      <|> Json.string <$> written
      <|> Json.array <$> bracketed '[' ']' (value depth)
      <|> Json.object <$> bracketed '\x7b' '\x7d' (member (value depth))) <* blanks

/-- The document a text denotes. -/
def parse? (text : String) : Option Json := (blanks *> value (text.length + 1)).run? text

end Json
end FpgaPacking
