import SkyCatalog.Assembly.Registry
import SkyCatalog.Crossmatch.Outcome
import SkyCatalog.Holdings

/-!
# Solvers

A solver decides what a record turns out to be from the candidates and their scores.
Each of the simple solvers recognises one situation and calls everything else a
collision; solvers are combined by asking the second where the first sees a collision.
-/

namespace SkyCatalog

/-- A candidate and its score. -/
abbrev Scored := ReferenceObject × Float

/-- A rule that decides on the outcome of a record. -/
inductive Solver where
  /-- The object exists if exactly one score reaches the threshold. -/
  | onlyOneAbove (threshold : Float)
  /-- The object is new if every score is below the threshold. -/
  | allBelow (threshold : Float)
  /-- The second rule decides where the first sees a collision. -/
  | orElse (first second : Solver)
  /-- A rule of a kind that is not among the above. -/
  | custom (solve : List Scored → Outcome)

namespace Solver

/-- The collision of all candidates. -/
def collisionOfAll (scored : List Scored) : Outcome :=
  .collisionOf (scored.map fun s => s.1.pgc)

/-- Decide on the outcome of a record. -/
def solve (scored : List Scored) : Solver → Outcome
  | .onlyOneAbove threshold =>
      match scored.filter fun s => threshold ≤ s.2 with
      | [only] => .existing only.1.pgc
      | _ => collisionOfAll scored
  | .allBelow threshold =>
      if scored.all fun s => s.2 < threshold then .new else collisionOfAll scored
  | .orElse first second =>
      match solve scored first with
      | .collision _ => solve scored second
      | outcome => outcome
  | .custom f => f scored

/-! ## Assembly -/

/-- Take a threshold. -/
def threshold : Construction Solver Float := do
  let x ← Construction.number "threshold"
  if 0.0 ≤ x && x ≤ 1.0 then return x
  else Construction.refuse "threshold" .thresholdOutside

/-- The solvers that a configuration may name. -/
def registry : Registry Solver :=
  .ofList "solver"
    [("existing_only_one_above_threshold", do return .onlyOneAbove (← threshold)),
      ("new_all_below_threshold", do return .allBelow (← threshold)),
      ("or", do
        let first ← Construction.part "solver1"
        let second ← Construction.part "solver2"
        return .orElse first second)]

end Solver

end SkyCatalog
