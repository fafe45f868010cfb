/-
Quoted text.

A text is shown between double quotes, with the quote, the backslash and the
characters that could not be seen written as escapes.  Line feed, carriage
return, tab and the null character have short escapes.  All other characters
without a printed form, and those that would attach to the character before
them, are written by their hexadecimal code point.
-/
import FpgaPacking.Text.Extending
import FpgaPacking.Text.Unprintable

namespace FpgaPacking
namespace Text

/-- The escape of a character by its code point. -/
def codePointEscape (c : Char) : String :=
  "\\u\x7b" ++ String.ofList (Nat.toDigits 16 c.toNat) ++ "\x7d"

/-- A character as it stands between the quotes. -/
def quotedChar (c : Char) : String :=
  if c = '"' then "\\\""
  else if c = '\\' then "\\\\"
  else if c = '\n' then "\\n"
  else if c = '\r' then "\\r"
  else if c = '\t' then "\\t"
  else if c.toNat = 0 then "\\0"
  else if isUnprintable c || isExtending c then codePointEscape c
  else c.toString

/-- A text between double quotes. -/
def quoted (text : String) : String :=
  "\"" ++ String.join (text.toList.map quotedChar) ++ "\""

end Text
end FpgaPacking
