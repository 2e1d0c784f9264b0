import SkyCatalog.Json.Reader
import SkyCatalog.Upload.Store

/-!
# Submissions

A submission is a document with all that a pass needs: a table with its rows, the
rules and constants, and the reference catalogue. It may state the statistics of the
table; otherwise the table counts as new.
-/

namespace SkyCatalog

/-- A table together with what it is to be compared with. -/
structure Submission where
  table : Table
  rows : List Row
  statistics : Option Statistics
  rules : List WrittenRule
  constants : List Constants
  catalogue : List ReferenceObject

namespace Submission

/-- Read a submission from JSON; all but the table may be absent. -/
def ofWritten? (value : Written) : Option Submission := do
  let fields ←
    Written.fields? ["table", "rows", "statistics", "rules", "params", "reference"] value
  let table ← Written.required? fields "table" Table.ofWritten?
  let rows ← Written.optional? fields "rows" [] (Written.toList? Row.ofWritten?)
  let statistics ←
    Written.optional? fields "statistics" none (Written.nullable? Statistics.ofWritten?)
  let rules ← Written.optional? fields "rules" [] (Written.toList? WrittenRule.ofWritten?)
  let constants ← Written.optional? fields "params" [] (Written.toList? Constants.ofWritten?)
  let catalogue ←
    Written.optional? fields "reference" [] (Written.toList? ReferenceObject.ofWritten?)
  return ⟨table, rows, statistics, rules, constants, catalogue⟩

/-- Read a submission from a document. -/
def read? (document : String) : Option Submission :=
  Written.read? document >>= ofWritten?

/-- The store that holds the submission and nothing else. -/
def toStore (s : Submission) (now : Time.Instant) : Except ConfigurationError UploadStore := do
  let rules ← s.rules.mapM WrittenRule.toRule
  let statistics := s.statistics.getD (.arrived s.rows.length now)
  let store := UploadStore.empty.keepTable s.table s.rows statistics
  return (store.setRules rules).setConstants s.constants

end Submission

end SkyCatalog
