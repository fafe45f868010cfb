/-
TOML values.

A document denotes a table.  Tables remember how they came to be, because that
decides how later lines may extend them: a table that a header opened cannot be
opened again, one that a longer header implied can be opened once, one that
dotted keys made grows by further dotted keys, and an inline table is complete
where it stands.

Nothing reads the value of a floating-point number, so it is not kept.
-/
namespace FpgaPacking
namespace Toml

/-- How a table came to be. -/
inductive Origin where
  /-- A header opened the table. -/
  | header
  /-- A longer header or key passes through the table. -/
  | implied
  /-- Dotted keys made the table. -/
  | dotted
  /-- The table was written between braces. -/
  | inline
deriving DecidableEq, Repr

/-- A TOML value. -/
inductive Value where
  | text (content : String)
  | integer (value : Int64)
  | float
  | boolean (value : Bool)
  /-- A date, a time or both, as its normal text. -/
  | moment (written : String)
  | array (items : List Value)
  | table (origin : Origin) (entries : List (String × Value))
  /-- An array of tables that headers opened one by one. -/
  | tables (elements : List (List (String × Value)))

/-- The entries of a table in the order in which they appeared. -/
abbrev Entries := List (String × Value)

namespace Entries

/-- Puts a new value under a key that is present. -/
def replace (entries : Entries) (key : String) (value : Value) : Entries :=
  entries.map fun entry => if entry.1 = key then (key, value) else entry

/-- Follows a path of keys and changes the table it leads to.

Missing tables on the way are created with origin `created`.  The path passes through the last
element of an array of tables.  It cannot pass through other values or inline tables, and one of
dotted keys cannot pass through a table that a header opened. -/
def descend (created : Origin) (change : Origin → Entries → Option Entries) :
    List String → Origin → Entries → Option Entries
  | [], origin, entries => change origin entries
  | key :: path, _, entries =>
    match entries.lookup key with
    | none => do
      let inner ← descend created change path created []
      return entries ++ [(key, .table created inner)]
    | some (.table origin inner) =>
      if origin = .inline ∨ (created = .dotted ∧ origin = .header) then
        none
      else do
        let inner ← descend created change path origin inner
        return entries.replace key (.table origin inner)
    | some (.tables elements) => do
      let last ← elements.getLast?
      let last ← descend created change path .header last
      return entries.replace key (.tables (elements.dropLast ++ [last]))
    | some _ => none

/-- Enters a value under a new key.  After dotted keys the table must be one that dotted keys made. -/
def assignLast (dotted : Bool) (key : String) (value : Value) (origin : Origin) (entries : Entries) :
    Option Entries :=
  if dotted && origin ≠ .dotted then none
  else if (entries.lookup key).isSome then none
  else some (entries ++ [(key, value)])

/-- Enters a value under a key that may be dotted. -/
def assign (path : List String) (value : Value) (origin : Origin) (entries : Entries) :
    Option Entries := do
  let key ← path.getLast?
  let before := path.dropLast
  descend .dotted (assignLast (!before.isEmpty) key value) before origin entries

/-- Opens the table of a header.  A table that was only implied keeps its entries. -/
def openLast (key : String) (_ : Origin) (entries : Entries) : Option Entries :=
  match entries.lookup key with
  | none => some (entries ++ [(key, .table .header [])])
  | some (.table .implied inner) => some (entries.replace key (.table .header inner))
  | some _ => none

/-- Opens one more element of the array of tables of a header. -/
def appendLast (key : String) (_ : Origin) (entries : Entries) : Option Entries :=
  match entries.lookup key with
  | none => some (entries ++ [(key, .tables [[]])])
  | some (.tables elements) => some (entries.replace key (.tables (elements ++ [[]])))
  | some _ => none

end Entries

end Toml
end FpgaPacking
