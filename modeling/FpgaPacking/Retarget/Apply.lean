/-
Retargeting cells.

Retargeting a cell takes all its ports off their nets and adds the new ports in
their place, so that a new name may be the old name of another port.  What the
cell was before is recorded in its attributes: the type always, and for a port
with a new name the old one.
-/
import FpgaPacking.Retarget.Rule
import FpgaPacking.Session

namespace FpgaPacking
namespace Retarget

open Packing (resolve)

/-- The attribute that records the type of a cell before it was retargeted. -/
def formerTypeKey : String := "X_ORIG_TYPE"

/-- The attribute that records the former name of a port. -/
def formerPortKey (port : String) : String := "X_ORIG_PORT_" ++ port

/-! ## Ports -/

/-- A name without square brackets. -/
def stripBrackets (name : String) : String :=
  String.ofList (name.toList.filter fun c => c ≠ '[' && c ≠ ']')

/-- The names a port gets: those of a fan-out, else the new name, else its own without brackets. -/
def newPortNames (rule : RetargetRule) (old : Ident) : Naming (List Ident) := do
  match rule.portFanoutRename.find? old with
  | some names => return names
  | none =>
    match rule.portRename.find? old with
    | some name => return [name]
    | none => return [← naming (stripBrackets ((← get).resolve old))]

/-- The first of the pairs of a new and an old name whose new name occurred before, with the old name
it had there. -/
def collision? (taken : List (Ident × Ident)) : List (Ident × Ident) → Option (Ident × Ident × Ident)
  | [] => none
  | (new, old) :: rest =>
    match taken.lookup new with
    | some first => some (first, old, new)
    | none => collision? ((new, old) :: taken) rest

/-- Takes a port off its net and removes it. -/
def takePort (id : CellId) (p : Port) : Edit Unit := do
  let _ ← Edit.disconnect id p.name
  Edit.removePort id p.name

/-- Adds a port in the place of `old`. -/
def givePort (id : CellId) (old : Port) (new : Ident) : Packing Unit := do
  Edit.addPort id new old.direction
  match old.net with
  | some onNet => Edit.connect id new onNet
  | none => pure ()
  if new ≠ old.name then
    let key ← naming (formerPortKey (← resolve new))
    let value := ParamValue.text (← resolve old.name)
    Edit.updateCell id fun c => { c with attrs := c.attrs.insert key value }

/-! ## Parameters -/

/-- Copies a parameter under a new name, if it exists. -/
def copyParam (params : Table Ident ParamValue) (rename : Ident × Ident) : Table Ident ParamValue :=
  match params.find? rename.1 with
  | some value => params.insert rename.2 value
  | none => params

/-- The parameters after the copies, the defaults and the fixed values of a rule, in this order. -/
def newParams (rule : RetargetRule) (params : Table Ident ParamValue) : Table Ident ParamValue :=
  let copied := rule.paramRename.entries.foldl copyParam params
  let filled := rule.defaultParams.entries.foldl (fun ps e => ps.insertIfAbsent e.1 e.2) copied
  rule.fixedParams.entries.foldl (fun ps e => ps.insert e.1 e.2) filled

/-- The attributes after the fixed ones of a rule. -/
def newAttrs (rule : RetargetRule) (attrs : Table Ident ParamValue) : Table Ident ParamValue :=
  rule.fixedAttrs.entries.foldl (fun attrs e => attrs.insert e.1 e.2) attrs

/-! ## Cells -/

/-- Retargets one cell by a rule.  Fails if two ports would get the same name. -/
def retargetCell (rule : RetargetRule) (id : CellId) : Packing Unit := do
  let c ← Edit.cell id
  let ports ← c.ports.mapM fun p => return (p, ← newPortNames rule p.name)
  let pairs := ports.flatMap fun (p, new) => new.map fun name => (name, p.name)
  match collision? [] pairs with
  | some (first, second, new) =>
    Packing.violate
      (.joinsPorts c.name (← resolve first) (← resolve second) (← resolve new))
  | none => do
    let key ← naming formerTypeKey
    let formerType := ParamValue.text (← resolve c.cellType)
    Edit.updateCell id fun c =>
      { c with cellType := rule.newType, attrs := c.attrs.insert key formerType }
    c.ports.forM fun p => takePort id p
    ports.forM fun (p, new) => new.forM (givePort id p)
    Edit.updateCell id fun c =>
      { c with params := newParams rule c.params, attrs := newAttrs rule c.attrs }

/-! ## Summary -/

/-- How many cells became one new type, and from which types. -/
structure Count where
  total : Nat
  /-- The number of cells by their former type. -/
  sources : Table String Nat
deriving DecidableEq

namespace Count

/-- No cells. -/
def none : Count := ⟨0, .empty⟩

/-- One more cell of the former type. -/
def add (count : Count) (source : String) : Count :=
  ⟨count.total + 1, count.sources.insert source ((count.sources.find? source).getD 0 + 1)⟩

end Count

/-- The retargeted cells by their new type. -/
abbrev Summary := Table String Count

namespace Summary

/-- One more retargeted cell. -/
def add (summary : Summary) (newType source : String) : Summary :=
  summary.insert newType (((summary.find? newType).getD .none).add source)

/-- The number of retargeted cells. -/
def total (summary : Summary) : Nat := summary.values.foldl (fun n count => n + count.total) 0

end Summary

/-- The note about the cells of one new type. -/
def createdNote (newType : String) (count : Count) : Diagnostic :=
  let sources := count.sources.entries.map fun (source, n) => s!"{n}x {source}"
  .note .retarget 1
    (s!"Created {count.total} {newType} cells from: " ++ ", ".intercalate sources)

/-- Retargets a cell if its type has a rule, and counts it. -/
def retargetIfRuled (rules : RuleSet) (summary : Summary) (id : CellId) : Packing Summary := do
  let c ← Edit.cell id
  match rules.find? c.cellType with
  | none => return summary
  | some rule => do
    retargetCell rule id
    return summary.add (← resolve rule.newType) (← resolve c.cellType)

end Retarget

/-- Retargets every cell whose type has a rule and reports the cells of each new type. -/
def retarget (rules : RuleSet) : Packing Retarget.Summary := do
  let summary ← (← Packing.netlist).cellIds.foldlM (Retarget.retargetIfRuled rules) Table.empty
  summary.entries.forM fun (newType, count) => Packing.emit (Retarget.createdNote newType count)
  return summary

end FpgaPacking
