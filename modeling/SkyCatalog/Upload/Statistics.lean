import SkyCatalog.Time.Instant

/-!
# What is known about the state of an upload

The counts of rows and two instants tell whether a table still has to be processed:
it need not be if all its rows arrived and nothing changed since it was last
processed as a whole.
-/

namespace SkyCatalog

/-- Row counts and times of an uploaded table. -/
structure Statistics where
  /-- The rows that arrived. -/
  totalRows : Nat
  /-- The rows that were announced. -/
  totalOriginalRows : Nat
  lastModified : Option Time.Instant
  lastProcessed : Option Time.Instant
deriving DecidableEq, Repr

namespace Statistics

/-- The statistics of a table that has just arrived with all its rows: it counts as
changed now and was never processed. -/
def arrived (rows : Nat) (now : Time.Instant) : Statistics :=
  ⟨rows, rows, some now, none⟩

/-- Did all rows arrive, and was the table processed no earlier than it was last
changed? -/
def isUpToDate (s : Statistics) : Bool :=
  s.totalRows == s.totalOriginalRows &&
    match s.lastModified, s.lastProcessed with
    | _, none => false
    | none, some _ => true
    | some modified, some processed => modified.notAfter processed

/-- The JSON form of statistics. -/
def toJson (s : Statistics) : Json :=
  let time (t : Option Time.Instant) : Json := .textOrNull (t.map (·.text))
  .object [("total_rows", .int s.totalRows), ("total_original_rows", .int s.totalOriginalRows),
    ("last_modified_dt", time s.lastModified), ("last_processed_dt", time s.lastProcessed)]

/-- Read statistics from JSON; the instants may be absent. -/
def ofWritten? (value : Written) : Option Statistics := do
  let fields ← Written.fields?
    ["total_rows", "total_original_rows", "last_modified_dt", "last_processed_dt"] value
  let totalRows ← Written.required? fields "total_rows" Written.toNat?
  let totalOriginalRows ← Written.required? fields "total_original_rows" Written.toNat?
  let time := Written.nullable? Time.Instant.ofWritten?
  let lastModified ← Written.optional? fields "last_modified_dt" none time
  let lastProcessed ← Written.optional? fields "last_processed_dt" none time
  return ⟨totalRows, totalOriginalRows, lastModified, lastProcessed⟩

end Statistics

end SkyCatalog
