import SkyCatalog.Crossmatch.Outcome
import SkyCatalog.Holdings
import SkyCatalog.Mapping.Rule
import SkyCatalog.Upload.Statistics

/-!
# The store of uploads

The store keeps the uploaded tables with their rows and statistics, the rules and
constants that apply to all of them, the data that were drawn from their rows, and
the outcomes of records. Rows are kept by their identifiers, so that they come in
ascending order and each identifier once.

The data of a row are kept by family: there is one place for a table, a family and
the identifier of a row, and a later write takes the place of an earlier one. Writes
to one family can be refused as a whole.
-/

namespace SkyCatalog

/-- The cause for which the store does not do what is asked. -/
inductive StoreError where
  | tableNotFound (id : Int)
  | cannotOrderBy (column : String)
  | writesRejected (family : Family)
  | misplaced (record : String) (found expected : Family)
deriving DecidableEq, Repr

/-- The wording of the error. -/
def StoreError.message : StoreError → String
  | .tableNotFound id => "table " ++ toString id ++ " not found"
  | .cannotOrderBy column => "repository error: cannot order by '" ++ column ++ "'"
  | .writesRejected family =>
      "repository error: writes to " ++ family.text ++ " are rejected"
  | .misplaced record found expected =>
      "repository error: record " ++ record ++ ": " ++ found.text ++ " object written as " ++
        expected.text

/-- An uploaded table with its rows, each under its identifier. -/
structure StoredTable where
  table : Table
  rows : Keyed String Row
  statistics : Statistics
  rows_keyed : ∀ e ∈ rows.entries, e.2.id = e.1

/-- The place of the data of one family that were drawn from one table. -/
structure Shelf where
  table : Int
  family : Family
deriving DecidableEq, Repr

instance : Ord Shelf := ⟨compareLex (compareOn (·.table)) (compareOn (·.family))⟩

instance : Std.TransOrd Shelf :=
  inferInstanceAs (Std.TransCmp (compareLex (compareOn Shelf.table) (compareOn (·.family))))

instance : Std.LawfulEqOrd Shelf where
  compare_self {_} := Std.ReflCmp.compare_self
  eq_of_compare {a b} h := by
    have hboth := compareLex_eq_eq.mp h
    cases a
    cases b
    have htable := Std.LawfulEqOrd.eq_of_compare hboth.1
    have hfamily := Std.LawfulEqOrd.eq_of_compare hboth.2
    simp only at htable hfamily
    rw [htable, hfamily]

/-- All that is kept. -/
structure UploadStore where
  tables : Keyed Int StoredTable
  rules : List Rule
  constants : List Constants
  data : Keyed Shelf (Keyed String Datum)
  outcomes : Keyed String Outcome
  /-- The family whose writes are refused. -/
  rejected : Option Family

namespace UploadStore

/-- The store that keeps nothing. -/
def empty : UploadStore :=
  ⟨.empty, [], [], .empty, .empty, none⟩

/-! ## Tables -/

/-- Keep a table with its rows, in place of one with the same identifier. Of several
rows with one identifier the last is kept. -/
def keepTable (s : UploadStore) (t : Table) (rows : List Row) (statistics : Statistics) :
    UploadStore :=
  let rows_keyed := Keyed.forall_entries_putAll (by simp [Keyed.empty]) (by simp)
  let stored := ⟨t, Keyed.ofList (rows.map fun r => (r.id, r)), statistics, rows_keyed⟩
  { s with tables := s.tables.put t.id stored }

/-- Keep a table that has just arrived with its rows. -/
def addTable (s : UploadStore) (t : Table) (rows : List Row) (now : Time.Instant) :
    UploadStore :=
  s.keepTable t rows (.arrived rows.length now)

/-- The table with an identifier. -/
def table (s : UploadStore) (id : Int) : Except StoreError StoredTable :=
  match s.tables.get? id with
  | some t => .ok t
  | none => .error (.tableNotFound id)

/-- Put a table that is kept in another state. -/
def updateTable (s : UploadStore) (id : Int) (f : StoredTable → StoredTable) :
    Except StoreError UploadStore :=
  (s.table id).map fun t => { s with tables := s.tables.put id (f t) }

/-- Replace the statistics of a table. -/
def setStatistics (s : UploadStore) (id : Int) (statistics : Statistics) :
    Except StoreError UploadStore :=
  s.updateTable id fun t => { t with statistics }

/-- Note when a table was last processed as a whole. -/
def setLastProcessed (s : UploadStore) (id : Int) (at_ : Time.Instant) :
    Except StoreError UploadStore :=
  s.updateTable id fun t =>
    { t with statistics := { t.statistics with lastProcessed := some at_ } }

/-- The column that rows are ordered by. -/
def orderColumn : String := "record_id"

/-- Up to a number of the rows of a table that follow an identifier. -/
def rowsAfter (s : UploadStore) (id : Int) (limit : Nat) (after : Option String)
    (orderedBy : String) : Except StoreError (List Row) :=
  if orderedBy ≠ orderColumn then .error (.cannotOrderBy orderedBy)
  else (s.table id).map fun t => ((t.rows.after after).map (·.2)).take limit

/-! ## Rules and constants -/

/-- Replace the rules. -/
def setRules (s : UploadStore) (rules : List Rule) : UploadStore :=
  { s with rules }

/-- Replace the constants. -/
def setConstants (s : UploadStore) (constants : List Constants) : UploadStore :=
  { s with constants }

/-! ## Data and outcomes -/

/-- Refuse the writes to one family from now on, or to none. -/
def reject (s : UploadStore) (family : Option Family) : UploadStore :=
  { s with rejected := family }

/-- The data of a family that are kept for a table, by the identifiers of rows. -/
def dataOf (s : UploadStore) (id : Int) (family : Family) : Keyed String Datum :=
  (s.data.get? ⟨id, family⟩).getD .empty

/-- Keep data of one family. -/
def putData (s : UploadStore) (id : Int) (family : Family) (data : List (String × Datum)) :
    Except StoreError UploadStore :=
  if s.rejected = some family then .error (.writesRejected family)
  else
    match data.find? fun e => e.2.family ≠ family with
    | some (record, d) => .error (.misplaced record d.family family)
    | none => .ok { s with data := s.data.put ⟨id, family⟩ ((s.dataOf id family).putAll data) }

/-- Keep the outcomes of records. -/
def addOutcomes (s : UploadStore) (outcomes : Keyed String Outcome) : UploadStore :=
  { s with outcomes := s.outcomes.putAll outcomes.entries }

end UploadStore

end SkyCatalog
