import SkyCatalog.Datum.Construct

/-!
# The stored form of data

A datum is stored as the columns of its family, together with the name of the
family. Reading it back builds it from these columns as parameters without units, so
that every check is made again; columns that the family does not know are passed
over, though they must denote something.
-/

namespace SkyCatalog.Datum

/-- The columns that a datum is stored in. -/
def columns : Datum → List (String × Json)
  | .icrs p =>
      [("dec", .ofFloat p.dec), ("e_dec", .ofFloat p.decError), ("e_ra", .ofFloat p.raError),
        ("ra", .ofFloat p.ra)]
  | .designation d => [("design", .text d.name)]
  | .redshift r =>
      ("cz", .ofFloat r.velocity) ::
        (match r.error with
          | some e => [("e_cz", .ofFloat e)]
          | none => [])
  | .pgc i => [("pgc", .int i.number)]

/-- The parameters that stored columns hold. -/
def parametersOfColumns (columns : List (String × Json)) : Parameters :=
  Keyed.ofList <| columns.filterMap fun c =>
    (Parameter.ofCell? c.2 .dimensionless).map fun p => (c.1, p)

/-- Read a datum of a family back from its columns. -/
def ofColumns (family : Family) (columns : List (String × Json)) :
    Except ConstructionError Datum :=
  Datum.ofParameters family (parametersOfColumns columns)

/-- The stored form: the columns and the name of the family. -/
def toJson (d : Datum) : Json :=
  .object (("catalog", .text d.family.text) :: d.columns)

/-- Read a datum from its stored form. -/
def ofWritten? : Written → Option Datum
  | .object fields =>
      match fields.filter (·.1 == "catalog") with
      | [(_, name)] => do
          let family ← Family.ofWritten? name
          let columns ← Written.fieldValues? (fields.filter (·.1 != "catalog"))
          match ofColumns family (Json.tidyFields [] columns) with
          | .ok d => some d
          | .error _ => none
      | _ => none
  | _ => none

end SkyCatalog.Datum
