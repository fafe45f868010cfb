/-
Handles of cells and nets.

A handle is the position at which its object was created, counted from zero and
separately for cells and for nets.  Handles are never reused, so they order
objects by creation.  The kind is part of the type: a cell handle cannot be used
where a net handle is meant.
-/
namespace FpgaPacking

/-- The two sorts of object a netlist owns. -/
inductive Kind where
  | cell
  | net
deriving DecidableEq, Repr

/-- The handle of one object of kind `k`. -/
structure Id (k : Kind) where
  /-- How many objects of the kind were created before this one. -/
  index : Nat
deriving DecidableEq, Repr

/-- The handle of a cell. -/
abbrev CellId := Id .cell

/-- The handle of a net. -/
abbrev NetId := Id .net

namespace Id

variable {k : Kind}

/-- The letter that introduces a handle of the kind in messages. -/
def letter : Kind → String
  | .cell => "c"
  | .net => "n"

/-- The handle as messages show it, such as `c3` or `n0`. -/
def label (id : Id k) : String := letter k ++ toString id.index

/-- Handles order by creation. -/
instance : Ord (Id k) := ⟨fun a b => compare a.index b.index⟩

instance : Std.TransOrd (Id k) := inferInstanceAs (Std.TransCmp (compareOn Id.index))

instance : Std.LawfulEqOrd (Id k) where
  compare_self {a} := Nat.compare_eq_eq.mpr (Eq.refl a.index)
  eq_of_compare {a b} h := by
    have : a.index = b.index := Nat.compare_eq_eq.mp h
    cases a; cases b; exact congrArg Id.mk this

end Id

end FpgaPacking
