import SkyCatalog.Datum.Error
import SkyCatalog.Sky

/-!
# Data about an object

A datum is a position, a designation, a velocity or a permanent identifier. Each has
a checked constructor `make` that refuses what the family does not admit and brings
the rest into its normal form: right ascension on the circle, names without blanks
around them.

The predicates `Valid` state what a checked datum satisfies.
-/

namespace SkyCatalog

/-- A position in the equatorial system with the uncertainty of each axis, in
degrees. -/
structure Position where
  ra : Float
  dec : Float
  raError : Float
  decError : Float
deriving DecidableEq

/-- A name. -/
structure Designation where
  name : String
deriving DecidableEq, Repr

/-- A line-of-sight velocity in kilometres per second, with its uncertainty if one is
known. -/
structure Redshift where
  velocity : Float
  error : Option Float
deriving DecidableEq

/-- A permanent identifier. -/
structure Identifier where
  number : Int
deriving DecidableEq, Repr

/-- A datum of one of the four families. -/
inductive Datum where
  | icrs (p : Position)
  | designation (d : Designation)
  | redshift (r : Redshift)
  | pgc (i : Identifier)
deriving DecidableEq

/-- The family of a datum. -/
def Datum.family : Datum → Family
  | .icrs _ => .icrs
  | .designation _ => .designation
  | .redshift _ => .redshift
  | .pgc _ => .pgc

/-! ## Checked constructors -/

/-- Refuse a number that is not finite. -/
def requireFinite (family : Family) (parameter : String) (x : Float) :
    Except ConstructionError Unit :=
  if x.isFinite then .ok () else .error (.invalidValue family parameter .notFinite)

/-- Refuse a negative uncertainty. -/
def requireNotNegative (family : Family) (parameter : String) (x : Float) :
    Except ConstructionError Unit :=
  if x < 0.0 then .error (.invalidValue family parameter .negativeUncertainty) else .ok ()

namespace Position

/-- A position from its four numbers. -/
def make (ra dec raError decError : Float) : Except ConstructionError Position := do
  requireFinite .icrs "ra" ra
  requireFinite .icrs "dec" dec
  requireFinite .icrs "e_ra" raError
  requireFinite .icrs "e_dec" decError
  if !(-90.0 ≤ dec && dec ≤ 90.0) then
    throw (.invalidValue .icrs "dec" .declinationOutside)
  requireNotNegative .icrs "e_ra" raError
  requireNotNegative .icrs "e_dec" decError
  return ⟨Sky.wrapCircle ra, dec, raError, decError⟩

/-- All numbers are finite, right ascension lies on the circle, declination between
the poles, and no uncertainty is negative. -/
def Valid (p : Position) : Prop :=
  p.ra.isFinite ∧ p.dec.isFinite ∧ p.raError.isFinite ∧ p.decError.isFinite ∧
    0.0 ≤ p.ra ∧ p.ra < 360.0 ∧ -90.0 ≤ p.dec ∧ p.dec ≤ 90.0 ∧
    0.0 ≤ p.raError ∧ 0.0 ≤ p.decError

/-- The separation from another position in arcseconds. -/
def separation (p q : Position) : Float :=
  Sky.separation p.ra p.dec q.ra q.dec

end Position

namespace Designation

/-- A name, without the blanks around it. -/
def make (name : String) : Except ConstructionError Designation :=
  let trimmed := Text.trim name
  if trimmed.isEmpty then .error (.invalidValue .designation "design" .emptyName)
  else .ok ⟨trimmed⟩

/-- The name is not empty and has no blanks around it. -/
def Valid (d : Designation) : Prop :=
  d.name ≠ "" ∧ Text.trim d.name = d.name

end Designation

namespace Redshift

/-- A velocity and its uncertainty. -/
def make (velocity : Float) (error : Option Float) : Except ConstructionError Redshift := do
  requireFinite .redshift "cz" velocity
  match error with
  | none => return ⟨velocity, none⟩
  | some e =>
      requireFinite .redshift "e_cz" e
      requireNotNegative .redshift "e_cz" e
      return ⟨velocity, some e⟩

/-- The numbers are finite and the uncertainty is not negative. -/
def Valid (r : Redshift) : Prop :=
  r.velocity.isFinite ∧ ∀ e, r.error = some e → e.isFinite ∧ 0.0 ≤ e

end Redshift

namespace Identifier

/-- An identifier from its number. -/
def make (number : Int) : Except ConstructionError Identifier :=
  if number ≤ 0 then .error (.invalidValue .pgc "pgc" (.notPositive number)) else .ok ⟨number⟩

end Identifier

end SkyCatalog
