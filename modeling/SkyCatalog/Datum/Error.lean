import SkyCatalog.Datum.Family
import SkyCatalog.Decimal.Layout
import SkyCatalog.Quantity

/-!
# Why a datum is refused

A datum is built from named parameters. It is refused if a parameter is missing,
has a unit of the wrong dimension or a value that the family does not admit; and
data of different families cannot be combined.
-/

namespace SkyCatalog

/-- What is wrong with the value of a parameter. -/
inductive Defect where
  | notANumber (written : String)
  | notFinite
  | declinationOutside
  | negativeUncertainty
  | emptyName
  | notIntegral (value : Float)
  | notPositive (value : Int)
deriving DecidableEq

/-- The wording of a defect. -/
def Defect.message : Defect → String
  | .notANumber written => "'" ++ written ++ "' is not a number"
  | .notFinite => "value is not finite"
  | .declinationOutside => "declination must lie in [-90, 90] degrees"
  | .negativeUncertainty => "uncertainty must not be negative"
  | .emptyName => "designation is empty"
  | .notIntegral value => Decimal.plainText value ++ " is not an integer identifier"
  | .notPositive value => "identifier must be positive, got " ++ toString value

/-- The cause for which a datum is refused. -/
inductive ConstructionError where
  | missingParameter (family : Family) (parameter : String)
  | invalidValue (family : Family) (parameter : String) (defect : Defect)
  | incompatibleUnit (family : Family) (parameter : String) (unit : MeasureUnit)
  | mixedFamilies (expected found : Family)
deriving DecidableEq

/-- The wording of the error. -/
def ConstructionError.message : ConstructionError → String
  | .missingParameter family parameter =>
      family.text ++ ": missing required parameter '" ++ parameter ++ "'"
  | .invalidValue family parameter defect =>
      family.text ++ ": invalid value for '" ++ parameter ++ "': " ++ defect.message
  | .incompatibleUnit family parameter unit =>
      family.text ++ ": parameter '" ++ parameter ++ "' cannot be expressed in " ++ unit.text
  | .mixedFamilies expected found =>
      "cannot aggregate " ++ found.text ++ " object into " ++ expected.text

end SkyCatalog
