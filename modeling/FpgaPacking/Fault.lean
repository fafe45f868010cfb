/-
Faults.

A fault is an access to something that does not exist: a removed cell, a removed
net, a position outside a vector.  Faults are kept apart from the errors a
packing operation reports about its input.  No input may lead an operation to a
fault, so each place where one could arise is an obligation to prove that it
does not.
-/
import FpgaPacking.Identity

namespace FpgaPacking

/-- An access to something that does not exist. -/
inductive Fault where
  /-- The cell was never created or was removed. -/
  | missingCell (id : CellId)
  /-- The net was never created or was removed. -/
  | missingNet (id : NetId)
  /-- A bit position at or past the width of its vector. -/
  | bitOutside (index width : Nat)
  /-- A bit whose word is not stored, because the vector's word list is too short. -/
  | wordOutside (index count : Nat)
  /-- A shift of a 32-bit quantity by 32 or more positions. -/
  | shiftOutside (amount : Nat)
  /-- A division by zero. -/
  | zeroDivisor
  /-- A loop used up the number of rounds it was given. -/
  | roundsExhausted
deriving DecidableEq, Repr

namespace Fault

/-- The text of a fault. -/
def message : Fault → String
  | .missingCell id => s!"cell {id.label} does not exist"
  | .missingNet id => s!"net {id.label} does not exist"
  | .bitOutside index width => s!"bit {index} outside a {width}-bit vector"
  | .wordOutside index count => s!"word {index} outside a list of {count} words"
  | .shiftOutside amount => s!"shift by {amount} positions outside a 32-bit word"
  | .zeroDivisor => "division by zero"
  | .roundsExhausted => "no fixed point within the allotted rounds"

end Fault

end FpgaPacking
