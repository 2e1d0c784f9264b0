import SkyCatalog.Json.Written
import SkyCatalog.Keyed

/-!
# Reading structures

A structure is written as an object of named fields or as the array of its fields
in order. Unknown names are passed over with all that is written there, a known name
may not come twice, and a field that is absent takes its default if it has one. Every
reader refuses a value of another kind and what is void; null counts as absent only
where a reader says so.
-/

namespace SkyCatalog.Written

/-- The names of the fields of a structure, in order. -/
abbrev FieldNames := List String

/-- The fields of a structure that are present. -/
abbrev Fields := List (String × Written)

/-- Does every name come at most once? -/
def allDistinct : List String → Bool
  | [] => true
  | name :: rest => !rest.contains name && allDistinct rest

/-- The fields of a structure with the given field names. -/
def fields? (names : FieldNames) : Written → Option Fields
  | .object fields =>
      let known := fields.filter fun f => names.contains f.1
      if allDistinct (known.map (·.1)) then some known else none
  | .array items => if items.length ≤ names.length then some (names.zip items) else none
  | _ => none

/-- Read a field that must be present. -/
def required? {α : Type} (fields : Fields) (name : String) (read : Written → Option α) :
    Option α :=
  Json.lookup name fields >>= read

/-- Read a field that has a default. -/
def optional? {α : Type} (fields : Fields) (name : String) (default : α)
    (read : Written → Option α) : Option α :=
  match Json.lookup name fields with
  | none => some default
  | some value => read value

/-- Read a value that may be null. -/
def nullable? {α : Type} (read : Written → Option α) : Written → Option (Option α)
  | .null => some none
  | value => (read value).map some

/-- Read a truth value. -/
def toBool? : Written → Option Bool
  | .bool b => some b
  | _ => none

/-- Read a text. -/
def toText? : Written → Option String
  | .text s => some s
  | _ => none

/-- Read a number as a double. -/
def toFloat? : Written → Option Float
  | .int n => some (Float.ofInt n)
  | .real x => some x
  | _ => none

/-- Read a natural number. -/
def toNat? : Written → Option Nat
  | .int n => if 0 ≤ n then some n.toNat else none
  | _ => none

/-- Read a whole number between bounds. -/
def toIntWithin? (low high : Int) : Written → Option Int
  | .int n => if low ≤ n ∧ n ≤ high then some n else none
  | _ => none

/-- Read a whole number of sixty-four bits. -/
def toInt64? : Written → Option Int :=
  toIntWithin? Decimal.minInt64 Decimal.maxInt64

/-- Read a whole number of thirty-two bits. -/
def toInt32? : Written → Option Int :=
  toIntWithin? (-Nat.pow 2 31) (Nat.pow 2 31 - 1)

/-- Read a list. -/
def toList? {α : Type} (read : Written → Option α) : Written → Option (List α)
  | .array items => items.mapM read
  | _ => none

/-- Read a map from names. The last of several fields of one name stands, but each
of them must be readable. -/
def toKeyed? {α : Type} (read : Written → Option α) : Written → Option (Keyed String α)
  | .object fields =>
      (fields.mapM fun f => (read f.2).map fun value => (f.1, value)).map Keyed.ofList
  | _ => none

/-- Read one of a closed set of words, written as a text or as the only name of an
object whose value is null. -/
def toWord? {α : Type} (read : String → Option α) : Written → Option α
  | .text s => read s
  | .object [(name, .null)] => read name
  | _ => none

/-- Read any value, tidied. -/
def toAny? (value : Written) : Option Json :=
  value.value?.map Json.tidy

end SkyCatalog.Written
