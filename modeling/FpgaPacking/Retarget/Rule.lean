/-
Retargeting rules.

A rule turns cells of one type into cells of another: it renames ports one to
one, sends a port to several, copies parameters under new names, and sets
attributes and parameters.  A rule set has at most one rule for each type.
-/
import FpgaPacking.Fabric.Template

namespace FpgaPacking

/-- How cells of one type become cells of another. -/
structure RetargetRule where
  /-- The type the cells get. -/
  newType : Ident
  /-- New names of ports. -/
  portRename : Table Ident Ident
  /-- Ports that become several ports on the same net. -/
  portFanoutRename : Table Ident (List Ident)
  /-- New names under which parameters are copied; the old ones stay. -/
  paramRename : Table Ident Ident
  /-- Attributes that are set in any case. -/
  fixedAttrs : Table Ident ParamValue
  /-- Parameters that are set in any case. -/
  fixedParams : Table Ident ParamValue
  /-- Parameters that are set if the cell lacks them. -/
  defaultParams : Table Ident ParamValue
deriving DecidableEq

namespace RetargetRule

/-- The rule a configuration gives. -/
def ofConfig (rule : Config.Rule) : Naming RetargetRule := do
  let newType ← naming rule.newType
  let portRename ← rule.portRename.named naming
  let portFanoutRename ← rule.portFanoutRename.named fun ports => ports.mapM naming
  let paramRename ← rule.paramRename.named naming
  let fixedAttrs ← Config.paramTable rule.fixedAttrs
  let fixedParams ← Config.paramTable rule.fixedParams
  let defaultParams ← Config.paramTable rule.defaultParams
  return { newType, portRename, portFanoutRename, paramRename, fixedAttrs, fixedParams, defaultParams }

end RetargetRule

/-- Retargeting rules by the type of the cells they apply to. -/
abbrev RuleSet := Table Ident RetargetRule

namespace RuleSet

/-- The rules a configuration gives. -/
def ofConfig (config : Config) : Naming RuleSet := config.rules.named RetargetRule.ofConfig

end RuleSet

end FpgaPacking
