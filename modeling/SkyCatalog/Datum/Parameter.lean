import SkyCatalog.Datum.Error
import SkyCatalog.Json.Writer

/-!
# Parameters

The cells of a row and the constants of a mapping become parameters: quantities or
texts under a name. A datum is built from such parameters alone, whatever they came
from. A number that is written as a text is read where a number is asked for.
-/

namespace SkyCatalog

/-- The value of a parameter. -/
inductive Parameter where
  | quantity (q : Quantity)
  | text (s : String)
deriving DecidableEq

/-- Parameters by name. -/
abbrev Parameters := Keyed String Parameter

namespace Parameter

/-- The parameter that a cell holds, in the unit of its column. Null and blank texts
are absent. A text in a column with a unit is a quantity if it is a number; a value
that is neither number nor text stands for its written form. -/
def ofCell? (cell : Json) (unit : MeasureUnit) : Option Parameter :=
  match cell with
  | .null => none
  | .int n => some (.quantity ⟨Float.ofInt n, unit⟩)
  | .real x => some (.quantity ⟨x, unit⟩)
  | .text s =>
      if Text.isBlankText s then none
      else if unit = .dimensionless then some (.text s)
      else
        match Decimal.readFloat? (Text.trim s) with
        | some x => some (.quantity ⟨x, unit⟩)
        | none => some (.text s)
  | .bool _ | .array _ | .object _ => some (.text cell.compact)

/-- The parameter that a constant holds: a plain value, or an object whose field
`value` is one, with the unit that its field `unit` names. -/
def ofConstant (constant : Json) : Except UnknownUnit (Option Parameter) :=
  match constant with
  | .object fields =>
      match Json.lookup "value" fields with
      | some inner =>
          match (Json.lookup "unit" fields).bind Json.toText? with
          | some written => (MeasureUnit.read written).map (ofCell? inner)
          | none => .ok (ofCell? inner .dimensionless)
      | none => .ok (ofCell? constant .dimensionless)
  | _ => .ok (ofCell? constant .dimensionless)

/-- The written form of a number that stands for a name: whole numbers below
`10 ^ 15` are written as such. -/
def numberText (x : Float) : String :=
  match Decimal.integer? x with
  | some n => if n.natAbs < Nat.pow 10 15 then toString n else Decimal.plainText x
  | none => Decimal.plainText x

/-- A parameter as a text. -/
def toText : Parameter → String
  | .text s => s
  | .quantity q => numberText q.value

end Parameter

/-! ## Reading numbers for a family -/

/-- A parameter as a finite number in a unit. -/
def Parameter.toNumber (family : Family) (name : String) (target : MeasureUnit)
    (p : Parameter) : Except ConstructionError Float := do
  let x ←
    match p with
    | .quantity q =>
        match q.inUnit? target with
        | some x => .ok x
        | none => .error (.incompatibleUnit family name q.unit)
    | .text s =>
        match Decimal.readFloat? (Text.trim s) with
        | some x => .ok x
        | none => .error (.invalidValue family name (.notANumber s))
  if x.isFinite then .ok x else .error (.invalidValue family name .notFinite)

namespace Parameters

/-- The number that a parameter holds, if it is present. -/
def number? (params : Parameters) (family : Family) (name : String) (target : MeasureUnit) :
    Except ConstructionError (Option Float) :=
  match params.get? name with
  | none => .ok none
  | some p => (p.toNumber family name target).map some

/-- The number that a parameter holds; it must be present. -/
def number (params : Parameters) (family : Family) (name : String) (target : MeasureUnit) :
    Except ConstructionError Float :=
  match params.get? name with
  | none => .error (.missingParameter family name)
  | some p => p.toNumber family name target

end Parameters

end SkyCatalog
