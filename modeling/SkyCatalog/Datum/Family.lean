import SkyCatalog.Json.Decode

/-!
# Families of data

What is known about an astronomical object falls into four families. They have a
fixed order, in which the objects of a row are built and written.
-/

namespace SkyCatalog

/-- A family of data about an object. -/
inductive Family where
  | icrs
  | designation
  | redshift
  | pgc
deriving DecidableEq, Repr

namespace Family

/-- Every family, in order. -/
def all : List Family := [.icrs, .designation, .redshift, .pgc]

/-- The place of a family in the order. -/
def rank : Family → Nat
  | .icrs => 0
  | .designation => 1
  | .redshift => 2
  | .pgc => 3

theorem rank_injective {a b : Family} (h : a.rank = b.rank) : a = b := by
  cases a <;> cases b <;> simp [rank] at h <;> rfl

instance : Ord Family := ⟨compareOn rank⟩

instance : Std.TransOrd Family :=
  inferInstanceAs (Std.TransCmp (compareOn rank))

instance : Std.LawfulEqOrd Family where
  compare_self {f} := by cases f <;> decide
  eq_of_compare h := rank_injective (Nat.compare_eq_eq.mp h)

/-- The name of a family. -/
def text : Family → String
  | .icrs => "icrs"
  | .designation => "designation"
  | .redshift => "redshift"
  | .pgc => "pgc"

/-- The family of a name. -/
def read? (s : String) : Option Family :=
  all.find? (·.text == s)

/-- The wording for a name that is no family. -/
def unknownMessage (s : String) : String :=
  "unknown catalog '" ++ s ++ "'"

/-- Reading a family back from its name. -/
theorem read?_text (f : Family) : read? f.text = some f := by
  cases f <;> decide

/-- Read a family from JSON. -/
def ofWritten? : Written → Option Family :=
  Written.toWord? read?

/-- The name of the table that keeps the data of a family. -/
def tableName : Family → String
  | .icrs => "icrs.data"
  | .designation => "designation.data"
  | .redshift => "cz.data"
  | .pgc => "layer2.pgc"

end Family

end SkyCatalog
