/-
TOML numbers.

An integer is read in decimal, hexadecimal, octal or binary and must fit into 64
bits with sign.  A floating-point number must not round to positive infinity.
Nothing computes with floating-point numbers, so they are only recognized.
-/
import FpgaPacking.Toml.Moment
import FpgaPacking.Toml.Value

namespace FpgaPacking
namespace Toml

open Text Text.Reader

/-! ## Integers -/

/-- Further digits, each of which may follow one underscore. -/
def moreDigits (p : Char → Bool) : Reader (List Char) :=
  many (do let _ ← maybe (char '_'); satisfy p)

/-- Digits with single underscores between them. -/
def digits (p : Char → Bool) : Reader (List Char) := do
  return (← satisfy p) :: (← moreDigits p)

/-- Decimal digits without a leading zero. -/
def unsigned : Reader (List Char) := do
  let first ← satisfy isDigit
  if first = '0' then return [first] else return first :: (← moreDigits isDigit)

/-- Whether a minus sign stands in front of a number. -/
def sign : Reader Bool :=
  (do char '-'; return true) <|> (do char '+'; return false) <|> pure false

/-- A number as a 64-bit integer, if it fits. -/
def int64? (n : Int) : Option Int64 :=
  if Int64.minValue.toInt ≤ n ∧ n ≤ Int64.maxValue.toInt then some (Int64.ofInt n) else none

/-- A decimal integer. -/
def decimalInteger : Reader Int64 := do
  let negative ← sign
  let n := numberOf 10 (← unsigned)
  int64? (if negative then -n else n)

/-- An integer to another base, after the letter that announces the base. -/
def basedInteger (letter : Char) (base : Nat) (p : Char → Bool) : Reader Int64 := do
  exactly ['0', letter]
  int64? (numberOf base (← digits p))

/-- Whether a base other than ten is announced. -/
def announcesBase (text : List Char) : Bool :=
  match text with
  | '0' :: c :: _ => c = 'x' || c = 'o' || c = 'b'
  | _ => false

/-- An integer. -/
def integer : Reader Int64 := fun text =>
  if announcesBase text then
    (basedInteger 'x' 16 isHexDigit <|>
      basedInteger 'o' 8 (fun c => '0' ≤ c && c ≤ '7') <|>
      basedInteger 'b' 2 (fun c => c = '0' || c = '1')) text
  else
    decimalInteger text

/-! ## Floating-point numbers -/

/-- Whether `digits · 10 ^ exponent` rounds to infinity in double precision.  The greatest finite
double is `2 ^ 1024 - 2 ^ 971`, so the numbers from `2 ^ 1024 - 2 ^ 970` on do. -/
def isInfinite (digits : Nat) (exponent : Int) : Bool :=
  let limit := Nat.pow 2 1024 - Nat.pow 2 970
  let magnitude : Int := (Nat.toDigits 10 digits).length + exponent
  if digits = 0 ∨ magnitude < 300 then false
  else if magnitude > 320 then true
  else if exponent ≥ 0 then limit ≤ digits * Nat.pow 10 exponent.toNat
  else limit * Nat.pow 10 (-exponent).toNat ≤ digits

/-- An exponent: a sign and digits. -/
def exponent : Reader Int := do
  let _ ← satisfy fun c => c = 'e' || c = 'E'
  let negative ← sign
  let n := numberOf 10 (← digits isDigit)
  return if negative then -n else n

/-- The digits after a decimal point. -/
def fraction : Reader (List Char) := do
  char '.'
  digits isDigit

/-- A floating-point number with a fraction, an exponent or both. -/
def decimalFloat : Reader Unit := do
  let negative ← sign
  let whole ← unsigned
  let part ← maybe fraction
  let power ← maybe exponent
  if part.isNone && power.isNone then failure
  let shown := part.getD []
  let tooLarge := isInfinite (numberOf 10 (whole ++ shown)) (power.getD 0 - shown.length)
  if tooLarge && !negative then failure

/-- Infinity or not-a-number, with or without a sign. -/
def specialFloat : Reader Unit := do
  let _ ← sign
  exactly ['i', 'n', 'f'] <|> exactly ['n', 'a', 'n']

/-- A floating-point number. -/
def float : Reader Unit := decimalFloat <|> specialFloat

/-! ## Numeric values -/

/-- A moment or a number. -/
def numeric : Reader Value :=
  (do return .moment (← moment)) <|>
  (do float; return .float) <|>
  (do return .integer (← integer))

end Toml
end FpgaPacking
