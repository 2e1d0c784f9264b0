import SkyCatalog.Json.Decode

/-!
# Outcomes

A record turns out to be a new object, an object that exists, or a collision that is
left to someone else's judgement. A collision names the objects that were considered,
which may be none.
-/

namespace SkyCatalog

/-- What a record turns out to be. -/
inductive Outcome where
  | new
  | existing (pgc : Int)
  | collision (candidates : Keyed Int Unit)

/-- How often each outcome occurred. -/
structure Tally where
  new : Nat
  existing : Nat
  collision : Nat
deriving DecidableEq, Repr

namespace Outcome

/-- A collision of the objects in a list, in any order and repeated or not. -/
def collisionOf (pgcs : List Int) : Outcome :=
  .collision (.ofList (pgcs.map fun pgc => (pgc, ())))

/-- Is the outcome a collision? -/
def isCollision : Outcome → Bool
  | .collision _ => true
  | _ => false

/-- Items with a separator between them. -/
def joined (separator : String) : List String → String
  | [] => ""
  | [item] => item
  | item :: next :: rest => item ++ separator ++ joined separator (next :: rest)

/-- The wording of an outcome. -/
def text : Outcome → String
  | .new => "new"
  | .existing pgc => "existing(" ++ toString pgc ++ ")"
  | .collision candidates =>
      "collision([" ++ joined ", " (candidates.keys.map toString) ++ "])"

/-- The JSON form of an outcome. -/
def toJson : Outcome → Json
  | .new => .object [("status", .text "new")]
  | .existing pgc => .object [("status", .text "existing"), ("pgc", .int pgc)]
  | .collision candidates =>
      .object [("status", .text "collision"), ("pgcs", .array (candidates.keys.map .int))]

/-- Read the rest of an outcome once its status is known. -/
def ofStatus? (status : String) (rest : Json) : Option Outcome := do
  match status with
  | "new" =>
      match rest with
      | .array (_ :: _) => none
      | _ => return .new
  | "existing" =>
      let fields ← Written.fields? ["pgc"] rest
      return .existing (← Written.required? fields "pgc" Written.toInt64?)
  | "collision" =>
      let fields ← Written.fields? ["pgcs"] rest
      return .collisionOf (← Written.required? fields "pgcs" (Written.toList? Written.toInt64?))
  | _ => none

/-- Read an outcome: an object with a field `status`, or an array that begins with the
status. All of it must denote something, since the status may stand anywhere. -/
def ofWritten? (value : Written) : Option Outcome := do
  match ← value.value? with
  | .object fields =>
      match fields.filter (·.1 == "status") with
      | [(_, .text status)] => ofStatus? status (.object fields)
      | _ => none
  | .array (.text status :: rest) => ofStatus? status (.array rest)
  | _ => none

end Outcome

namespace Tally

/-- Nothing occurred yet. -/
def zero : Tally := ⟨0, 0, 0⟩

/-- Count one more outcome. -/
def count (t : Tally) : Outcome → Tally
  | .new => { t with new := t.new + 1 }
  | .existing _ => { t with existing := t.existing + 1 }
  | .collision _ => { t with collision := t.collision + 1 }

/-- Count the outcomes of a list. -/
def ofOutcomes (outcomes : List Outcome) : Tally :=
  outcomes.foldl count zero

/-- The sum of two tallies. -/
def merge (a b : Tally) : Tally :=
  ⟨a.new + b.new, a.existing + b.existing, a.collision + b.collision⟩

/-- The number of outcomes counted. -/
def total (t : Tally) : Nat :=
  t.new + t.existing + t.collision

/-- The JSON form of a tally. -/
def toJson (t : Tally) : Json :=
  .object [("new", .int t.new), ("existing", .int t.existing), ("collision", .int t.collision)]

end Tally

end SkyCatalog
