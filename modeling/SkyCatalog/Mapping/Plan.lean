import SkyCatalog.Datum.Parameter
import SkyCatalog.Mapping.Rule

/-!
# Mapping plans

Rules are resolved against the columns of one table before any row is read. Every
column that a rule accepts is a candidate for the slot of the rule. Of the
candidates for a slot the one of the greatest priority wins, the earliest column
among equals. The winners are grouped by object, and constants join the objects that
have a column.

The units of the winning columns are read last, so a column that wins nothing may
carry any unit.
-/

namespace SkyCatalog

/-- The cause for which no plan can be made. -/
inductive ConversionError where
  | noColumnsMatched (table : String)
  | unknownUnit (column unit : String)
deriving DecidableEq, Repr

/-- The wording of the error. -/
def ConversionError.message : ConversionError → String
  | .noColumnsMatched table =>
      "no column of table '" ++ table ++ "' matches any homogenization rule"
  | .unknownUnit column unit => "column '" ++ column ++ "' has unknown unit '" ++ unit ++ "'"

/-- A column that is offered for a slot. -/
structure Candidate where
  column : Column
  priority : Int
deriving DecidableEq, Repr

/-- The column that feeds a slot. -/
structure Source where
  column : String
  unit : MeasureUnit
  priority : Int
deriving DecidableEq, Repr

/-- The columns and constants of an object, each under the name of a parameter. -/
structure Group where
  columns : Keyed String Source
  constants : Parameters

/-- How the rows of one table become objects. -/
structure Plan where
  groups : Keyed ObjectKey Group

namespace Plan

/-- The offers that rules make for the columns of a table, by column and then by
rule. -/
def offers (rules : List Rule) (t : Table) : List (Slot × Candidate) :=
  t.columns.flatMap fun c =>
    (rules.filter fun r => r.filter.accepts t c).map fun r => (r.slot, ⟨c, r.priority⟩)

/-- Let an offer contest its slot: it takes the slot if it is free or held by a lesser
priority. -/
def contest (winners : Keyed Slot Candidate) (offer : Slot × Candidate) :
    Keyed Slot Candidate :=
  match winners.get? offer.1 with
  | none => winners.put offer.1 offer.2
  | some holder =>
      if holder.priority < offer.2.priority then winners.put offer.1 offer.2 else winners

/-- The winner of every slot for which there is an offer. -/
def winners (rules : List Rule) (t : Table) : Keyed Slot Candidate :=
  (offers rules t).foldl contest .empty

/-- A winner with its unit read; a column without a unit counts as dimensionless. -/
def Source.ofCandidate (c : Candidate) : Except ConversionError Source :=
  match MeasureUnit.read (c.column.unit.getD "") with
  | .ok unit => .ok ⟨c.column.name, unit, c.priority⟩
  | .error e => .error (.unknownUnit c.column.name e.written)

/-- Add a column to the group of its object. -/
def addSource (groups : Keyed ObjectKey Group) (slot : Slot) (source : Source) :
    Keyed ObjectKey Group :=
  let group := (groups.get? slot.object).getD ⟨.empty, .empty⟩
  groups.put slot.object { group with columns := group.columns.put slot.parameter source }

/-- The groups that the winners form; the first unit that is not understood is the
error. -/
def groupWinners (winners : Keyed Slot Candidate) :
    Except ConversionError (Keyed ObjectKey Group) :=
  winners.entries.foldlM (fun groups e => (Source.ofCandidate e.2).map (addSource groups e.1))
    .empty

/-- The name of a constant in errors. -/
def constantName (object : ObjectKey) (parameter : String) : String :=
  object.family.text ++ "[" ++ object.key ++ "]." ++ parameter

/-- Add a constant to a group, unless it is absent. -/
def addConstant (object : ObjectKey) (group : Group) (entry : String × Json) :
    Except ConversionError Group :=
  match Parameter.ofConstant entry.2 with
  | .error e => .error (.unknownUnit (constantName object entry.1) e.written)
  | .ok none => .ok group
  | .ok (some value) => .ok { group with constants := group.constants.put entry.1 value }

/-- Add constants to the group of their object. Where no column feeds the object they
are passed over. -/
def addConstants (groups : Keyed ObjectKey Group) (c : Constants) :
    Except ConversionError (Keyed ObjectKey Group) :=
  match groups.get? c.object with
  | none => .ok groups
  | some group =>
      (c.values.entries.foldlM (addConstant c.object) group).map (groups.put c.object)

/-- Resolve rules and constants against a table. -/
def resolve (rules : List Rule) (constants : List Constants) (t : Table) :
    Except ConversionError Plan := do
  let winners := winners rules t
  if winners.entries.isEmpty then throw (.noColumnsMatched t.name)
  let groups ← groupWinners winners
  let groups ← constants.foldlM addConstants groups
  return ⟨groups⟩

/-- The column that feeds a slot, if any does. -/
def source? (p : Plan) (slot : Slot) : Option Source :=
  (p.groups.get? slot.object).bind fun group => group.columns.get? slot.parameter

/-- The objects that a row may hold, in the order they are built in. -/
def objects (p : Plan) : List ObjectKey :=
  p.groups.keys

end Plan

end SkyCatalog
