import SkyCatalog.Datum.Basic
import SkyCatalog.Datum.Parameter

/-!
# Building data from parameters

Each family asks for its parameters by name and in its own units. A velocity may be
given as the dimensionless redshift, which is scaled by the speed of light. An
identifier is a number that must be whole.
-/

namespace SkyCatalog

/-- A position from `ra`, `dec`, `e_ra` and `e_dec`, all of which must be given. -/
def Position.ofParameters (params : Parameters) : Except ConstructionError Position := do
  let ra ← params.number .icrs "ra" .degree
  let dec ← params.number .icrs "dec" .degree
  let raError ← params.number .icrs "e_ra" .degree
  let decError ← params.number .icrs "e_dec" .degree
  Position.make ra dec raError decError

/-- A designation from `design`. -/
def Designation.ofParameters (params : Parameters) : Except ConstructionError Designation :=
  match params.get? "design" with
  | some p => Designation.make p.toText
  | none => .error (.missingParameter .designation "design")

/-- A velocity from `cz` and `e_cz`, or else from `z` and `e_z`. -/
def Redshift.ofParameters (params : Parameters) : Except ConstructionError Redshift := do
  match ← params.number? .redshift "cz" .kilometerPerSecond with
  | some velocity =>
      let error ← params.number? .redshift "e_cz" .kilometerPerSecond
      Redshift.make velocity error
  | none =>
      match ← params.number? .redshift "z" .dimensionless with
      | some z =>
          let error ← params.number? .redshift "e_z" .dimensionless
          Redshift.make (z * speedOfLight) (error.map (· * speedOfLight))
      | none => .error (.missingParameter .redshift "cz")

/-- The whole number of sixty-four bits that a double stands for. The double just
above the greatest of them counts as the greatest; larger ones stand for none. -/
def wholeNumber? (x : Float) : Option Int :=
  match Decimal.integer? x with
  | none => none
  | some n => if n.natAbs ≤ Nat.pow 2 63 then some (min n Decimal.maxInt64) else none

/-- An identifier from `pgc`. -/
def Identifier.ofParameters (params : Parameters) : Except ConstructionError Identifier := do
  let x ← params.number .pgc "pgc" .dimensionless
  match wholeNumber? x with
  | some n => Identifier.make n
  | none => .error (.invalidValue .pgc "pgc" (.notIntegral x))

/-- A datum of a family from parameters. -/
def Datum.ofParameters (family : Family) (params : Parameters) :
    Except ConstructionError Datum :=
  match family with
  | .icrs => (Position.ofParameters params).map .icrs
  | .designation => (Designation.ofParameters params).map .designation
  | .redshift => (Redshift.ofParameters params).map .redshift
  | .pgc => (Identifier.ofParameters params).map .pgc

/-- A datum that is built from parameters belongs to the family asked for. -/
theorem Datum.family_ofParameters {family : Family} {params : Parameters} {d : Datum}
    (h : Datum.ofParameters family params = .ok d) : d.family = family := by
  cases family <;>
    · simp only [Datum.ofParameters, Except.map] at h
      split at h
      · cases h
      · cases h
        rfl

end SkyCatalog
