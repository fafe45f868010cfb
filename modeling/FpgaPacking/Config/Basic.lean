/-
Packer configurations.

A configuration describes the chain fabric, the boundary cells, the shapes of
truth tables, what normalization keeps and ties, and the retargeting rules.  Names
are plain texts here; they get identifiers when a fabric, options or rules are
built from the configuration.
-/
import FpgaPacking.Table

namespace FpgaPacking
namespace Config

/-- A parameter or attribute value as a configuration gives it. -/
inductive Param where
  | int (value : Int64)
  /-- A text, which may denote a vector. -/
  | text (content : String)
deriving DecidableEq, Repr

/-- The chain fabric, such as a carry chain. -/
structure Chain where
  /-- How many chain cells one tile holds. -/
  tileCapacity : Nat
  /-- The greatest length of a segment, boundary cells included. -/
  maxChainLength : Option Nat
  /-- The least number of cells of a chain that is packed as one. -/
  minLength : Nat
  /-- The port that continues the chain from the cell before. -/
  chainIn : String
  /-- The port that continues the chain to the cell after. -/
  chainOut : String
  /-- The types of the cells that take part. -/
  cellTypes : List String
  /-- The ports on which the cells of one tile must share their nets. -/
  compatPorts : List String
  /-- How many slots of a tile cluster offsets count. -/
  slotsPerTile : Option Nat
deriving DecidableEq, Repr

namespace Chain

/-- The slots of a tile, which are its capacity unless stated. -/
def slots (chain : Chain) : Nat := chain.slotsPerTile.getD chain.tileCapacity

end Chain

/-- A boundary cell. -/
structure BoundaryCell where
  cellType : String
  /-- The port that reads the signal. -/
  input : String
  /-- The port that drives the chain input of the next member. -/
  chainOutput : Option String
  /-- The port that drives general routing. -/
  fabricOutput : Option String
  /-- The parameters of every instance. -/
  params : Table String Param
deriving DecidableEq, Repr

/-- The boundary cells of the fabric. -/
structure Boundary where
  feedIn : Option BoundaryCell
  passThrough : Option BoundaryCell
  passOut : Option BoundaryCell
deriving DecidableEq, Repr

/-- Where cells of a type keep their truth table. -/
structure LutShape where
  /-- The parameter that holds the table. -/
  param : String
  /-- The input ports, least significant first. -/
  inputs : List String
deriving DecidableEq, Repr

/-- What normalization keeps and which cells tie their nets. -/
structure Normalize where
  keepTypes : List String
  gndDriverTypes : List String
  vccDriverTypes : List String
deriving DecidableEq, Repr

/-- How cells of one type are retargeted. -/
structure Rule where
  newType : String
  portRename : Table String String
  portFanoutRename : Table String (List String)
  paramRename : Table String String
  fixedAttrs : Table String Param
  fixedParams : Table String Param
  defaultParams : Table String Param
deriving DecidableEq, Repr

end Config

/-- A packer configuration. -/
structure Config where
  /-- Absent for families without chains. -/
  chain : Option Config.Chain
  boundary : Config.Boundary
  /-- Truth-table shapes by cell type. -/
  lut : Table String Config.LutShape
  normalize : Config.Normalize
  /-- Retargeting rules by cell type. -/
  rules : Table String Config.Rule
deriving DecidableEq, Repr

end FpgaPacking
