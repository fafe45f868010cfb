/-
TOML moments: dates, times of day and both together.

Days are checked against the calendar.  A moment is read as its normal text, which
has a capital `T` between date and time, at most nine decimals of a second and no
zeros at their end, and no minus sign before an offset of nothing.
-/
import FpgaPacking.Toml.Text

namespace FpgaPacking
namespace Toml

open Text Text.Reader

/-- Exactly `count` digits of a number in a range. -/
def fixedDigits (count least greatest : Nat) : Reader (List Char) := do
  let digits ← times count (satisfy isDigit)
  let n := numberOf 10 digits
  if least ≤ n ∧ n ≤ greatest then return digits else failure

/-- The number of days of a month. -/
def daysOf (year month : Nat) : Nat :=
  if month = 2 then
    if year % 4 = 0 ∧ (year % 100 ≠ 0 ∨ year % 400 = 0) then 29 else 28
  else if month = 4 ∨ month = 6 ∨ month = 9 ∨ month = 11 then 30
  else 31

/-- A date. -/
def date : Reader (List Char) := do
  let year ← fixedDigits 4 0 9999
  char '-'
  let month ← fixedDigits 2 1 12
  char '-'
  let day ← fixedDigits 2 1 31
  if daysOf (numberOf 10 year) (numberOf 10 month) < numberOf 10 day then failure
  return year ++ '-' :: month ++ '-' :: day

/-- The decimals of a second with their point: at most nine, and none if they are all zero. -/
def decimals : Reader (List Char) := do
  char '.'
  let digits ← many1 (satisfy isDigit)
  let kept := ((digits.take 9).reverse.dropWhile (· = '0')).reverse
  return if kept.isEmpty then [] else '.' :: kept

/-- A time of day; its second may be a leap second. -/
def time : Reader (List Char) := do
  let hour ← fixedDigits 2 0 23
  char ':'
  let minute ← fixedDigits 2 0 59
  char ':'
  let second ← fixedDigits 2 0 60
  return hour ++ ':' :: minute ++ ':' :: second ++ ((← maybe decimals).getD [])

/-- A distance from universal time. -/
def timeOffset : Reader (List Char) :=
  (do let _ ← satisfy fun c => c = 'Z' || c = 'z'; return ['Z']) <|> do
    let sign ← satisfy fun c => c = '+' || c = '-'
    let hour ← fixedDigits 2 0 23
    char ':'
    let minute ← fixedDigits 2 0 59
    let isZero := numberOf 10 (hour ++ minute) = 0
    return (if isZero then '+' else sign) :: hour ++ ':' :: minute

/-- A time after a date, with the mark between them. -/
def timeAfterDate : Reader (List Char) := do
  let _ ← satisfy fun c => c = 'T' || c = 't' || c = ' '
  let clock ← time
  return 'T' :: clock ++ ((← maybe timeOffset).getD [])

/-- A date with or without a time, or a time. -/
def moment : Reader String :=
  (do
    let day ← date
    return String.ofList (day ++ ((← maybe timeAfterDate).getD []))) <|>
  (do return String.ofList (← time))

end Toml
end FpgaPacking
