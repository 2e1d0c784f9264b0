import SkyCatalog.Datum.Basic

/-!
# Combining data of one family

Several data of one family combine into a canonical one: positions and velocities
into their means, designations by majority, identifiers into the first. The majority
goes to the most frequent name and among several to the one that was seen first.
-/

namespace SkyCatalog

/-- The mean of numbers: the sum from the left over the count. The sum starts at the
negative zero, which leaves every number added to it as it is, zeros with their sign
included. -/
def mean (xs : List Float) : Float :=
  xs.foldl (· + ·) (-0.0) / Float.ofNat xs.length

/-- The mean position. Its parts are not checked again. -/
def Position.aggregate? (ps : List Position) : Option Position :=
  if ps.isEmpty then none
  else
    some ⟨mean (ps.map (·.ra)), mean (ps.map (·.dec)), mean (ps.map (·.raError)),
      mean (ps.map (·.decError))⟩

/-- The mean velocity; the uncertainty is the mean of those that are known. -/
def Redshift.aggregate? (rs : List Redshift) : Option Redshift :=
  if rs.isEmpty then none
  else
    let errors := rs.filterMap (·.error)
    some ⟨mean (rs.map (·.velocity)), if errors.isEmpty then none else some (mean errors)⟩

/-- The first identifier. -/
def Identifier.aggregate? (is : List Identifier) : Option Identifier :=
  is.head?

/-! ## Majority -/

/-- Count one more occurrence of a name in a tally in order of first occurrence. -/
def countName (name : String) : List (String × Nat) → List (String × Nat)
  | [] => [(name, 1)]
  | (other, n) :: rest =>
      if other = name then (other, n + 1) :: rest else (other, n) :: countName name rest

/-- How often each name occurs, in order of first occurrence. -/
def nameTally (ds : List Designation) : List (String × Nat) :=
  ds.foldl (fun tally d => countName d.name tally) []

/-- Of the entry in the lead and the next one, the one with the greater count; between equals
the one in the lead keeps it. -/
def lead (best : Option (String × Nat)) (entry : String × Nat) : Option (String × Nat) :=
  match best with
  | none => some entry
  | some holder => if holder.2 < entry.2 then some entry else some holder

/-- The first entry with the greatest count. -/
def leader? (tally : List (String × Nat)) : Option (String × Nat) :=
  tally.foldl lead none

/-- The name that occurs most often, the first of several. -/
def Designation.aggregate? (ds : List Designation) : Option Designation :=
  (leader? (nameTally ds)).map fun entry => ⟨entry.1⟩

/-! ## All families -/

namespace Datum

/-- The position that a datum is. -/
def position? : Datum → Option Position
  | .icrs p => some p
  | _ => none

/-- The designation that a datum is. -/
def designation? : Datum → Option Designation
  | .designation d => some d
  | _ => none

/-- The velocity that a datum is. -/
def redshift? : Datum → Option Redshift
  | .redshift r => some r
  | _ => none

/-- The identifier that a datum is. -/
def identifier? : Datum → Option Identifier
  | .pgc i => some i
  | _ => none

/-- Combine the data of one family in a list. -/
def aggregateFamily? (family : Family) (data : List Datum) : Option Datum :=
  match family with
  | .icrs => (Position.aggregate? (data.filterMap position?)).map .icrs
  | .designation => (Designation.aggregate? (data.filterMap designation?)).map .designation
  | .redshift => (Redshift.aggregate? (data.filterMap redshift?)).map .redshift
  | .pgc => (Identifier.aggregate? (data.filterMap identifier?)).map .pgc

/-- Combine data that must all be of the family of the first. -/
def aggregate (data : List Datum) : Except ConstructionError (Option Datum) :=
  match data with
  | [] => .ok none
  | first :: _ =>
      match data.find? (·.family ≠ first.family) with
      | some other => .error (.mixedFamilies first.family other.family)
      | none => .ok (aggregateFamily? first.family data)

end Datum

end SkyCatalog
