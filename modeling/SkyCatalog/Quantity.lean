import SkyCatalog.Text.Blank

/-!
# Units and quantities

The units that columns of uploads declare measure an angle, a velocity or nothing.
A quantity is a number with its unit and can be expressed in another unit of the
same dimension. A number without a unit counts as given in whatever unit is asked
for.
-/

namespace SkyCatalog

/-- What a unit measures. -/
inductive Dimension where
  | angle
  | velocity
  | dimensionless
deriving DecidableEq, Repr

/-- The units that a column or a constant may declare. An hour of right ascension is
fifteen degrees. -/
inductive MeasureUnit where
  | degree
  | radian
  | arcminute
  | arcsecond
  | milliarcsecond
  | hourAngle
  | kilometerPerSecond
  | meterPerSecond
  | dimensionless
deriving DecidableEq, Repr

namespace MeasureUnit

/-- What a unit measures. -/
def dimension : MeasureUnit → Dimension
  | .degree | .radian | .arcminute | .arcsecond | .milliarcsecond | .hourAngle => .angle
  | .kilometerPerSecond | .meterPerSecond => .velocity
  | .dimensionless => .dimensionless

/-- The factor that takes a number to the base unit of its dimension, degrees or
kilometres per second. -/
def scale : MeasureUnit → Float
  | .degree => 1.0
  | .radian => 180.0 / 3.141592653589793
  | .arcminute => 1.0 / 60.0
  | .arcsecond => 1.0 / 3600.0
  | .milliarcsecond => 1.0 / (3600.0 * 1000.0)
  | .hourAngle => 15.0
  | .kilometerPerSecond => 1.0
  | .meterPerSecond => 0.001
  | .dimensionless => 1.0

/-- The symbol of a unit; a number without a unit has none. -/
def symbol : MeasureUnit → String
  | .degree => "deg"
  | .radian => "rad"
  | .arcminute => "arcmin"
  | .arcsecond => "arcsec"
  | .milliarcsecond => "mas"
  | .hourAngle => "h"
  | .kilometerPerSecond => "km/s"
  | .meterPerSecond => "m/s"
  | .dimensionless => ""

/-- The name of a unit in messages. -/
def text : MeasureUnit → String
  | .dimensionless => "dimensionless"
  | unit => unit.symbol

/-- The spellings of each unit, in lower case. -/
def spellings : List (String × MeasureUnit) :=
  [("", .dimensionless),
    ("deg", .degree), ("degree", .degree), ("degrees", .degree),
    ("rad", .radian), ("radian", .radian), ("radians", .radian),
    ("arcmin", .arcminute), ("amin", .arcminute),
    ("arcsec", .arcsecond), ("asec", .arcsecond),
    ("mas", .milliarcsecond),
    ("h", .hourAngle), ("hour", .hourAngle), ("hourangle", .hourAngle),
    ("km/s", .kilometerPerSecond), ("km s-1", .kilometerPerSecond),
    ("km.s-1", .kilometerPerSecond),
    ("m/s", .meterPerSecond), ("m s-1", .meterPerSecond), ("m.s-1", .meterPerSecond)]

/-- Read a unit: blanks around it and the case of ASCII letters do not matter. -/
def read? (s : String) : Option MeasureUnit :=
  let spelling := String.ofList ((Text.trim s).toList.map Char.toLower)
  (spellings.find? (·.1 == spelling)).map (·.2)

end MeasureUnit

/-- A unit that was not understood, as it was written. -/
structure UnknownUnit where
  written : String
deriving DecidableEq, Repr

/-- The wording of the error. -/
def UnknownUnit.message (e : UnknownUnit) : String :=
  "unknown unit '" ++ e.written ++ "'"

/-- Read a unit, or say which text was not understood. -/
def MeasureUnit.read (s : String) : Except UnknownUnit MeasureUnit :=
  match MeasureUnit.read? s with
  | some unit => .ok unit
  | none => .error ⟨s⟩

/-- A number with its unit. -/
structure Quantity where
  value : Float
  unit : MeasureUnit
deriving DecidableEq

/-- The number that expresses a quantity in another unit, if both measure the same. -/
def Quantity.inUnit? (q : Quantity) (target : MeasureUnit) : Option Float :=
  if q.unit = .dimensionless then some q.value
  else if q.unit.dimension ≠ target.dimension then none
  else some (q.value * q.unit.scale / target.scale)

/-- The speed of light in kilometres per second. -/
def speedOfLight : Float := 299792.458

end SkyCatalog
