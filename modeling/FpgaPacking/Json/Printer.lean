/-
Writing JSON documents.

The compact form has no blanks.  Leaves are written as they are kept.
-/
import FpgaPacking.Json.Value

namespace FpgaPacking
namespace Json

/-- A written string in its quotes. -/
def inQuotes (written : String) : String := "\"" ++ written ++ "\""

mutual

/-- The compact form of a document. -/
def compact : Json → String
  | .null => "null"
  | .bool true => "true"
  | .bool false => "false"
  | .number written => written
  | .string written => inQuotes written
  | .array items => "[" ++ ",".intercalate (compactItems items) ++ "]"
  | .object members => "\x7b" ++ ",".intercalate (compactMembers members) ++ "\x7d"

/-- The compact forms of the items of an array. -/
def compactItems : List Json → List String
  | [] => []
  | item :: rest => compact item :: compactItems rest

/-- The compact forms of the members of an object. -/
def compactMembers : List (String × Json) → List String
  | [] => []
  | (name, value) :: rest => (inQuotes name ++ ":" ++ compact value) :: compactMembers rest

end

end Json
end FpgaPacking
