import SkyCatalog.Holdings
import SkyCatalog.Mapping.Plan

/-!
# From rows to records

A plan turns every row into a record. An object is built from the cells that are
present in its columns; constants fill in the parameters that no cell gives, but an
object with no cell at all is left out. A row without objects gives no record.

An object that cannot be built is left out in lenient conversion. In strict
conversion the first such object is the error of the whole conversion.
-/

namespace SkyCatalog

namespace Group

/-- The parameters that the cells of a row give. -/
def cellParameters (g : Group) (r : Row) : Parameters :=
  Keyed.ofList <| g.columns.entries.filterMap fun e =>
    ((r.cells.get? e.2.column).bind fun cell => Parameter.ofCell? cell e.2.unit).map
      fun value => (e.1, value)

/-- Parameters with the missing ones filled in. -/
def fillIn (params constants : Parameters) : Parameters :=
  params.putAll (constants.entries.filter fun e => !params.contains e.1)

/-- The object that a row gives, or why it cannot be built; none if all its cells are
absent. -/
def build? (g : Group) (family : Family) (r : Row) : Option (Except ConstructionError Datum) :=
  let params := g.cellParameters r
  if params.entries.isEmpty then none
  else some (Datum.ofParameters family (fillIn params g.constants))

end Group

/-- Whether objects that cannot be built are left out or stop the conversion. -/
inductive Strictness where
  | lenient
  | strict
deriving DecidableEq, Repr

namespace Plan

/-- What every object of the plan comes to in a row, objects without cells left
out. -/
def attempts (p : Plan) (r : Row) : List (Except ConstructionError Datum) :=
  p.groups.entries.filterMap fun e => e.2.build? e.1.family r

/-- The data of a row, as far as they can be built. -/
def lenientData (p : Plan) (r : Row) : List Datum :=
  (p.attempts r).filterMap Except.toOption

/-- The data of a row; all of them must be built. -/
def strictData (p : Plan) (r : Row) : Except ConstructionError (List Datum) :=
  (p.attempts r).mapM id

/-- The data of a row. -/
def data (p : Plan) (strictness : Strictness) (r : Row) :
    Except ConstructionError (List Datum) :=
  match strictness with
  | .lenient => .ok (p.lenientData r)
  | .strict => p.strictData r

/-- Convert rows to records. -/
def apply (p : Plan) (strictness : Strictness) (rows : List Row) :
    Except ConstructionError (List Record) := do
  let all ← rows.mapM fun r => (p.data strictness r).map fun data => Record.mk r.id data
  return all.filter fun r => !r.data.isEmpty

end Plan

end SkyCatalog
