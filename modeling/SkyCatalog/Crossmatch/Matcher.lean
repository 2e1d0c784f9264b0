import SkyCatalog.Assembly.Registry
import SkyCatalog.Crossmatch.EditDistance
import SkyCatalog.Holdings
import SkyCatalog.Text.Lowercase

/-!
# Matchers

A matcher scores how likely a record and a reference object are the same, from 0 to
1. Matchers are trees: positions, names and velocities are compared at the leaves, and
the scores of parts are multiplied or waived where there is nothing to compare.
-/

namespace SkyCatalog

/-- A rule that scores a record against a reference object. -/
inductive Matcher where
  /-- 1 if the closest pair of positions lies within the radius in arcseconds. -/
  | circle (radius : Float)
  /-- The similarity of the closest pair of names. -/
  | names (maxDistance : Float) (ignoreCase : Bool)
  /-- 1 if the velocities differ by no more than the tolerance. -/
  | velocity (tolerance : Float)
  /-- Always the same score. -/
  | constant (score : Float)
  /-- The product of two scores. -/
  | both (left right : Matcher)
  /-- 1 if either side has no name. -/
  | ifNamed (inner : Matcher)
  /-- 1 if either side has no velocity. -/
  | ifVelocity (inner : Matcher)
  /-- A rule of a kind that is not among the above. -/
  | custom (score : Record → ReferenceObject → Float)

namespace Matcher

/-- The similarity of names at a distance: it falls from 1 to 0 at the greatest
distance. If that is 0, only equal names are similar. -/
def similarity (distance : Nat) (maxDistance : Float) : Float :=
  if maxDistance ≤ 0.0 then if distance = 0 then 1.0 else 0.0
  else
    let s := 1.0 - Float.ofNat distance / maxDistance
    if 0.0 ≤ s then s else 0.0

/-- The smallest separation of a position of the record from one of the object. -/
def separation? (r : Record) (o : ReferenceObject) : Option Float :=
  Decimal.least? ((Holdings.positions r).filterMap (Holdings.closestSeparation? o))

/-- The names held, in small letters if case does not matter. -/
def foldedNames {α : Type} [Holdings α] (ignoreCase : Bool) (a : α) : List String :=
  (Holdings.designations a).map fun d => if ignoreCase then Text.lower d.name else d.name

/-- The smallest distance of a name of the record from one of the object. -/
def nameDistance? (ignoreCase : Bool) (r : Record) (o : ReferenceObject) : Option Nat :=
  List.min? <| (foldedNames ignoreCase r).flatMap fun a =>
    (foldedNames ignoreCase o).map fun b => editDistance a b

/-- The score of a record against a reference object. -/
def score (r : Record) (o : ReferenceObject) : Matcher → Float
  | .circle radius =>
      match separation? r o with
      | some s => if s ≤ radius then 1.0 else 0.0
      | none => 0.0
  | .names maxDistance ignoreCase =>
      match nameDistance? ignoreCase r o with
      | some d => similarity d maxDistance
      | none => 0.0
  | .velocity tolerance =>
      match Holdings.redshift? r, Holdings.redshift? o with
      | some a, some b => if (a.velocity - b.velocity).abs ≤ tolerance then 1.0 else 0.0
      | _, _ => 0.0
  | .constant s => s
  | .both left right => score r o left * score r o right
  | .ifNamed inner =>
      if (Holdings.designations r).isEmpty || (Holdings.designations o).isEmpty then 1.0
      else score r o inner
  | .ifVelocity inner =>
      if (Holdings.redshift? r).isNone || (Holdings.redshift? o).isNone then 1.0
      else score r o inner
  | .custom f => f r o

/-! ## Assembly -/

/-- Take a finite number that is not negative. -/
def notNegative (argument : String) : Construction Matcher Float := do
  let x ← Construction.number argument
  if x.isFinite && 0.0 ≤ x then return x else Construction.refuse argument .negative

/-- Take a score. -/
def scoreArgument (argument : String) : Construction Matcher Float := do
  let x ← Construction.number argument
  if 0.0 ≤ x && x ≤ 1.0 then return x else Construction.refuse argument .scoreOutside

/-- The matchers that a configuration may name. -/
def registry : Registry Matcher :=
  .ofList "matcher"
    [("circle", do return .circle (← notNegative "radius_arcsec")),
      ("levenshtein", do
        let maxDistance ← notNegative "max_distance"
        let ignoreCase ← Construction.truthOr "ignore_case" false
        return .names maxDistance ignoreCase),
      ("velocity_close", do return .velocity (← notNegative "velocity_variance")),
      ("constant", do return .constant (← scoreArgument "value")),
      ("and", do
        let left ← Construction.part "matcher1"
        let right ← Construction.part "matcher2"
        return .both left right),
      ("ignore_no_name", do return .ifNamed (← Construction.part "matcher")),
      ("ignore_no_redshift", do return .ifVelocity (← Construction.part "matcher"))]

end Matcher

end SkyCatalog
