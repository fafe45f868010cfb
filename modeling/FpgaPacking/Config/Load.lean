/-
Reading configurations.

A configuration is a TOML document.  Sections and values it does not know are
ignored; the known ones must have the right types, and those that are required
must be present.  Only then is the configuration validated.
-/
import FpgaPacking.Config.Validate
import FpgaPacking.Toml.Document

namespace FpgaPacking
namespace Config

open Toml (Entries Value)

/-! ## Values -/

/-- A text. -/
def asText : Value → Option String
  | .text content => some content
  | _ => none

/-- A size: an integer that is not negative. -/
def asSize : Value → Option Nat
  | .integer n => if 0 ≤ n.toInt then some n.toInt.toNat else none
  | _ => none

/-- A parameter: an integer or a text. -/
def asParam : Value → Option Param
  | .integer n => some (.int n)
  | .text content => some (.text content)
  | _ => none

/-- A list of texts. -/
def asTexts : Value → Option (List String)
  | .array items => items.mapM asText
  | _ => none

/-- The reserved key under which a moment stands where a section is expected. -/
def momentKey : String := "$__toml_private_datetime"

/-- A section.  A moment counts as one with a single entry, its text under the reserved key. -/
def asSection : Value → Option Entries
  | .table _ entries => some entries
  | .moment written => some [(momentKey, .text written)]
  | _ => none

/-- A section whose keys are free and whose values have one form. -/
def asTable {α : Type} (item : Value → Option α) (v : Value) : Option (Table String α) := do
  let entries ← asSection v
  return .ofList (← entries.mapM fun (key, v) => return (key, ← item v))

/-! ## Fields -/

/-- The value of a required key. -/
def required {α : Type} (key : String) (item : Value → Option α) (entries : Entries) : Option α := do
  item (← entries.lookup key)

/-- The value of a key that may be absent. -/
def optional {α : Type} (key : String) (item : Value → Option α) (entries : Entries) :
    Option (Option α) :=
  match entries.lookup key with
  | none => some none
  | some v => (item v).map some

/-- The value of a key, or the given one if the key is absent. -/
def defaulted {α : Type} (key : String) (item : Value → Option α) (absent : α) (entries : Entries) :
    Option α :=
  return (← optional key item entries).getD absent

/-! ## Sections -/

/-- The chain section. -/
def asChain (v : Value) : Option Chain := do
  let s ← asSection v
  return {
    tileCapacity := ← required "tile_capacity" asSize s
    maxChainLength := ← optional "max_chain_length" asSize s
    minLength := ← defaulted "min_length" asSize 1 s
    chainIn := ← required "chain_in" asText s
    chainOut := ← required "chain_out" asText s
    cellTypes := ← required "cell_types" asTexts s
    compatPorts := ← defaulted "compat_ports" asTexts [] s
    slotsPerTile := ← optional "slots_per_tile" asSize s }

/-- The section of a boundary cell. -/
def asBoundaryCell (v : Value) : Option BoundaryCell := do
  let s ← asSection v
  return {
    cellType := ← required "cell_type" asText s
    input := ← required "input" asText s
    chainOutput := ← optional "chain_output" asText s
    fabricOutput := ← optional "fabric_output" asText s
    params := ← defaulted "params" (asTable asParam) .empty s }

/-- The section of all boundary cells. -/
def asBoundary (v : Value) : Option Boundary := do
  let s ← asSection v
  return {
    feedIn := ← optional "feed_in" asBoundaryCell s
    passThrough := ← optional "pass_through" asBoundaryCell s
    passOut := ← optional "pass_out" asBoundaryCell s }

/-- The section of a truth-table shape. -/
def asLutShape (v : Value) : Option LutShape := do
  let s ← asSection v
  return { param := ← required "param" asText s, inputs := ← required "inputs" asTexts s }

/-- The normalization section. -/
def asNormalize (v : Value) : Option Normalize := do
  let s ← asSection v
  return {
    keepTypes := ← defaulted "keep_types" asTexts [] s
    gndDriverTypes := ← defaulted "gnd_driver_types" asTexts [] s
    vccDriverTypes := ← defaulted "vcc_driver_types" asTexts [] s }

/-- The section of a retargeting rule. -/
def asRule (v : Value) : Option Rule := do
  let s ← asSection v
  return {
    newType := ← required "new_type" asText s
    portRename := ← defaulted "port_rename" (asTable asText) .empty s
    portFanoutRename := ← defaulted "port_fanout_rename" (asTable asTexts) .empty s
    paramRename := ← defaulted "param_rename" (asTable asText) .empty s
    fixedAttrs := ← defaulted "fixed_attrs" (asTable asParam) .empty s
    fixedParams := ← defaulted "fixed_params" (asTable asParam) .empty s
    defaultParams := ← defaulted "default_params" (asTable asParam) .empty s }

/-- A whole document. -/
def ofEntries? (s : Entries) : Option Config := do
  return {
    chain := ← optional "chain" asChain s
    boundary := ← defaulted "boundary" asBoundary ⟨none, none, none⟩ s
    lut := ← defaulted "lut" (asTable asLutShape) .empty s
    normalize := ← defaulted "normalize" asNormalize ⟨[], [], []⟩ s
    rules := ← defaulted "rules" (asTable asRule) .empty s }

/-! ## Documents -/

/-- Reads and validates a configuration. -/
def load (text : String) : Except Error Config := do
  match (Toml.parse text).bind ofEntries? with
  | none => throw .malformed
  | some config => do
    config.validate
    return config

/-- Reads and validates the configuration in a file, given by its bytes; a file that cannot be read
has none. -/
def loadFile (bytes : Option ByteArray) : Except Error Config :=
  match bytes.bind String.fromUTF8? with
  | none => .error .unreadable
  | some text => load text

end Config
end FpgaPacking
