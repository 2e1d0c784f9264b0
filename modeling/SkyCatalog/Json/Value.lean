import SkyCatalog.Decimal.Reading

/-!
# JSON values

Numbers keep the distinction between whole numbers of sixty-four bits, signed or
not, and doubles. Fields are listed in order: a value that was read for its content
has them in ascending order of their names and each once (`Json.tidy`), a report
has them in the order it is laid out in.
-/

namespace SkyCatalog

/-- A JSON value. -/
inductive Json where
  | null
  | bool (b : Bool)
  | int (n : Int)
  | real (x : Float)
  | text (s : String)
  | array (items : List Json)
  | object (fields : List (String × Json))
deriving Inhabited

namespace Json

/-- The number that a value is, as a double. -/
def toFloat? : Json → Option Float
  | .int n => some (Float.ofInt n)
  | .real x => some x
  | _ => none

/-- The natural number that a value is; a double is none. -/
def toNat? : Json → Option Nat
  | .int n => if 0 ≤ n then some n.toNat else none
  | _ => none

/-- The text that a value is. -/
def toText? : Json → Option String
  | .text s => some s
  | _ => none

/-- A text, or null where there is none. -/
def textOrNull : Option String → Json
  | some s => .text s
  | none => .null

/-- The value of a field. -/
def lookup {α : Type} (name : String) (fields : List (String × α)) : Option α :=
  (fields.find? (·.1 == name)).map (·.2)

/-- A double as a value; what is not finite has no written form and becomes null. -/
def ofFloat (x : Float) : Json :=
  if x.isFinite then .real x else .null

/-- Put a field at its place in ascending order of names, replacing the value of a
field of the same name. -/
def putField (name : String) (value : Json) : List (String × Json) → List (String × Json)
  | [] => [(name, value)]
  | (other, old) :: rest =>
      if name < other then (name, value) :: (other, old) :: rest
      else if name = other then (name, value) :: rest
      else (other, old) :: putField name value rest

mutual

/-- The same value with the fields of every object in ascending order, the last of
several fields of one name standing for all. -/
def tidy : Json → Json
  | .array items => .array (tidyItems items)
  | .object fields => .object (tidyFields [] fields)
  | other => other

/-- Tidy the items of an array. -/
def tidyItems : List Json → List Json
  | [] => []
  | item :: rest => tidy item :: tidyItems rest

/-- Put tidied fields into a list in ascending order. -/
def tidyFields (sorted : List (String × Json)) : List (String × Json) → List (String × Json)
  | [] => sorted
  | (name, value) :: rest => tidyFields (putField name (tidy value) sorted) rest

end

end Json

end SkyCatalog
