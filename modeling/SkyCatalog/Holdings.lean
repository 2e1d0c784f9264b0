import SkyCatalog.Datum.Aggregate
import SkyCatalog.Datum.Stored

/-!
# Records and reference objects

A record is what one row of an upload says about an object. A reference object is
what is known already, under its identifier. Both hold data and are looked at in the
same way, through `Holdings`: every datum of a family, and one datum that stands for
the family. For a record that is the first, for a reference object the combination
of all.
-/

namespace SkyCatalog

/-- What one row of an upload says about an object. -/
structure Record where
  id : String
  data : List Datum
deriving DecidableEq

/-- What is known about an object. -/
structure ReferenceObject where
  pgc : Int
  data : List Datum
deriving DecidableEq

/-- Read access to the data of a record or of a reference object. -/
class Holdings (α : Type) where
  /-- The data held, in order. -/
  data : α → List Datum
  /-- The datum that stands for a family. -/
  representative? : α → Family → Option Datum

namespace Record

/-- The first datum of a family. -/
def first? (r : Record) (family : Family) : Option Datum :=
  r.data.find? (·.family = family)

instance : Holdings Record := ⟨data, first?⟩

/-- The JSON form of a record. -/
def toJson (r : Record) : Json :=
  .object [("id", .text r.id), ("data", .array (r.data.map Datum.toJson))]

/-- Read a record from JSON. -/
def ofWritten? (value : Written) : Option Record := do
  let fields ← Written.fields? ["id", "data"] value
  let id ← Written.required? fields "id" Written.toText?
  let data ← Written.required? fields "data" (Written.toList? Datum.ofWritten?)
  return ⟨id, data⟩

end Record

namespace ReferenceObject

/-- The combination of all data of a family. -/
def combined? (o : ReferenceObject) (family : Family) : Option Datum :=
  Datum.aggregateFamily? family (o.data.filter (·.family = family))

instance : Holdings ReferenceObject := ⟨data, combined?⟩

/-- The same object with the data of some families only. -/
def restrictTo (o : ReferenceObject) (families : List Family) : ReferenceObject :=
  ⟨o.pgc, o.data.filter fun d => families.contains d.family⟩

/-- The JSON form of a reference object. -/
def toJson (o : ReferenceObject) : Json :=
  .object [("pgc", .int o.pgc), ("data", .array (o.data.map Datum.toJson))]

/-- Read a reference object from JSON. -/
def ofWritten? (value : Written) : Option ReferenceObject := do
  let fields ← Written.fields? ["pgc", "data"] value
  let pgc ← Written.required? fields "pgc" Written.toInt64?
  let data ← Written.required? fields "data" (Written.toList? Datum.ofWritten?)
  return ⟨pgc, data⟩

end ReferenceObject

namespace Holdings

variable {α : Type} [Holdings α]

/-- Every datum of a family, in order. -/
def ofFamily (a : α) (family : Family) : List Datum :=
  (data a).filter (·.family = family)

/-- Every designation held, in order. -/
def designations (a : α) : List Designation :=
  (data a).filterMap Datum.designation?

/-- Every position held, in order. -/
def positions (a : α) : List Position :=
  (data a).filterMap Datum.position?

/-- The position that stands for the others. -/
def position? (a : α) : Option Position :=
  (representative? a .icrs).bind Datum.position?

/-- The designation that stands for the others. -/
def designation? (a : α) : Option Designation :=
  (representative? a .designation).bind Datum.designation?

/-- The velocity that stands for the others. -/
def redshift? (a : α) : Option Redshift :=
  (representative? a .redshift).bind Datum.redshift?

/-- The smallest separation of a position from those held. -/
def closestSeparation? (a : α) (p : Position) : Option Float :=
  Decimal.least? ((positions a).map fun q => q.separation p)

end Holdings

end SkyCatalog
