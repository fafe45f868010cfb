/-
TOML white space, comments, strings and keys.
-/
import FpgaPacking.Text.Reader

namespace FpgaPacking
namespace Toml

open Text Text.Reader

/-! ## White space and comments -/

/-- A space or a tab. -/
def isBlank (c : Char) : Bool := c = ' ' || c = '\t'

/-- A character that may stand on a line: tabs, and all that is no control character of ASCII. -/
def isLineChar (c : Char) : Bool := c = '\t' || (' ' ≤ c && c ≠ '\x7f')

/-- Spaces and tabs, if any. -/
def blanks : Reader Unit := do let _ ← takeWhile isBlank

/-- The end of a line: a line feed, or a carriage return and a line feed. -/
def newline : Reader Unit := char '\n' <|> exactly ['\r', '\n']

/-- The end of a line or of the text. -/
def lineEnd : Reader Unit := newline <|> atEnd

/-- A comment up to the end of its line. -/
def comment : Reader Unit := do
  char '#'
  let _ ← takeWhile isLineChar

/-- What may follow a statement on its line. -/
def lineRest : Reader Unit := do
  blanks
  let _ ← maybe comment
  lineEnd

/-- Blanks, line ends and whole comments, if any. -/
def gaps : Reader Unit := do
  let _ ← many (char ' ' <|> char '\t' <|> newline <|> (do comment; newline))

/-! ## Strings -/

/-- The character of a code point with the given number of hexadecimal digits. -/
def codePoint (count : Nat) : Reader Char := do
  let digits ← times count (satisfy isHexDigit)
  charOf? (numberOf 16 digits)

/-- The character an escape denotes, read after its backslash. -/
def escape : Reader Char := do
  match ← satisfy fun _ => true with
  | 'b' => return '\x08'
  | 'f' => return '\x0c'
  | 'n' => return '\n'
  | 'r' => return '\r'
  | 't' => return '\t'
  | '"' => return '"'
  | '\\' => return '\\'
  | 'u' => codePoint 4
  | 'U' => codePoint 8
  | _ => failure

/-- A character between double quotes. -/
def basicChar : Reader Char :=
  satisfy (fun c => isLineChar c && c ≠ '"' && c ≠ '\\') <|> (do char '\\'; escape)

/-- A string between double quotes. -/
def basicString : Reader String := do
  char '"'
  let content ← many basicChar
  char '"'
  return String.ofList content

/-- A string between single quotes, which has no escapes. -/
def literalString : Reader String := do
  char '\''
  let content ← takeWhile fun c => isLineChar c && c ≠ '\''
  char '\''
  return String.ofList content

/-- The end of a string between triple quotes.  Up to two more quotes before the three that end the
string belong to it. -/
def tripleEnd (quote : Char) : Reader (List Char) :=
  (do exactly (List.replicate 5 quote); return [quote, quote]) <|>
  (do exactly (List.replicate 4 quote); return [quote]) <|>
  (do exactly (List.replicate 3 quote); return [])

/-- A piece of the content between triple quotes: a line end counts as a line feed. -/
def triplePiece (plain : Char → Bool) (quote : Char) : Reader (List Char) :=
  (do return [← satisfy fun c => isLineChar c && plain c && c ≠ quote]) <|>
  (do newline; return ['\n'])

/-- A backslash at the end of a line, with the blanks and line ends after it. -/
def lineJoin : Reader (List Char) := do
  char '\\'
  blanks
  newline
  let _ ← many (char ' ' <|> char '\t' <|> newline)
  return []

/-- A quote between triple quotes that does not begin the end of the string. -/
def innerQuote (quote : Char) : Reader (List Char) := fun text =>
  if (List.replicate 3 quote).isPrefixOf text then none
  else (do char quote; return [quote] : Reader (List Char)) text

/-- A string between triple quotes.  A line end right after the opening quotes is skipped. -/
def tripleString (quote : Char) (piece : Reader (List Char)) : Reader String := do
  exactly (List.replicate 3 quote)
  let _ ← maybe newline
  let content ← many (piece <|> innerQuote quote)
  let ending ← tripleEnd quote
  return String.ofList (content.flatten ++ ending)

/-- A string of any of the four forms. -/
def string : Reader String :=
  tripleString '"' (triplePiece (· ≠ '\\') '"' <|> lineJoin <|>
    (do char '\\'; return [← escape])) <|>
  basicString <|>
  tripleString '\'' (triplePiece (fun _ => true) '\'') <|>
  literalString

/-! ## Keys -/

/-- A character of a key without quotes. -/
def isKeyChar (c : Char) : Bool :=
  ('a' ≤ c && c ≤ 'z') || ('A' ≤ c && c ≤ 'Z') || isDigit c || c = '-' || c = '_'

/-- A key without dots. -/
def simpleKey : Reader String :=
  basicString <|> literalString <|> (do return String.ofList (← many1 (satisfy isKeyChar)))

/-- The greatest number of parts of a dotted key and of nested arrays and inline tables. -/
def maxDepth : Nat := 79

/-- A key, with its parts in order. -/
def key : Reader (List String) := do
  let path ← separated1 (do blanks; let part ← simpleKey; blanks; return part) (char '.')
  if path.length ≤ maxDepth then return path else failure

end Toml
end FpgaPacking
