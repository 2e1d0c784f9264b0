import SkyCatalog.Crossmatch.Cursor
import SkyCatalog.Crossmatch.Identification
import SkyCatalog.Upload.Store

/-!
# Passes over an upload

A pass takes the rows of a table in batches: it converts them to records, keeps their
data family by family, identifies the records and keeps the outcomes. What a batch
came to is reported once all of it is kept, so a pass that was stopped or failed can
be taken up again after the last row that was reported.

A pass is restricted to a range of identifiers. A pass over the whole range that
comes to its end marks the table as processed; a table that is up to date is passed
over. The rules are those at the beginning of the pass; the rows of a batch are
fetched when the batch before it is kept.
-/

namespace SkyCatalog

/-- The part of the identifiers that a pass covers. -/
structure Range where
  /-- The identifier that the pass starts after. -/
  startAfter : Option String
  /-- The last identifier that the pass covers. -/
  endAt : Option String
deriving DecidableEq, Repr

namespace Range

/-- Every identifier. -/
def full : Range := ⟨none, none⟩

/-- Does the range cover every identifier? -/
def isFull (r : Range) : Bool :=
  r.startAfter.isNone && r.endAt.isNone

/-- Does an identifier lie before the end of the range? -/
def admits (r : Range) (id : String) : Bool :=
  match r.endAt with
  | none => true
  | some last => id ≤ last

end Range

/-- What is reported of a batch. -/
structure Progress where
  /-- The number of the batch, from one. -/
  batch : Nat
  tally : Tally
  /-- The identifier of the last row of the batch. -/
  cursor : String
  /-- The place of that identifier as a part of the whole range. -/
  fraction : Option Float

/-- The report of a batch with these outcomes that ends at an identifier. -/
def Progress.ofBatch (batch : Nat) (outcomes : Keyed String Outcome) (cursor : String) : Progress :=
  ⟨batch, .ofOutcomes outcomes.values, cursor, Cursor.fraction? cursor⟩

/-- How far a pass has come. -/
structure Reached where
  batches : Nat
  tally : Tally
  cursor : Option String

namespace Reached

/-- Where a pass over a range begins. -/
def start (range : Range) : Reached :=
  ⟨0, .zero, range.startAfter⟩

/-- How far a pass has come with one more batch. -/
def advance (r : Reached) (report : Progress) : Reached :=
  ⟨report.batch, r.tally.merge report.tally, some report.cursor⟩

end Reached

/-- How a pass ends. -/
inductive Ending where
  /-- Every row of the range was processed. -/
  | completed (reached : Reached)
  /-- The pass was asked to stop. -/
  | stopped (reached : Reached)
  /-- The table was up to date. -/
  | skipped

/-- The cause for which a pass fails. -/
inductive PassError where
  | configuration (e : ConfigurationError)
  | conversion (e : ConversionError)
  | construction (e : ConstructionError)
  | store (e : StoreError)

/-- The wording of the error. -/
def PassError.message : PassError → String
  | .configuration e => "configuration error: " ++ e.message
  | .conversion e => "conversion error: " ++ e.message
  | .construction e => "construction error: " ++ e.message
  | .store e => e.message

/-- What happens around a pass while it runs. -/
structure Surroundings where
  /-- Is the pass asked to stop when it has come through so many batches? -/
  stop : Nat → Bool
  /-- Are the data of a family kept although those of another are refused in the same
  batch? Families are written side by side, so that either may be. -/
  lands : Nat → Family → Bool
  /-- The time at the end of the pass. -/
  now : Time.Instant

/-- What a pass leaves behind: the store, the reports in order, and how it ended. -/
structure Run where
  store : UploadStore
  progress : List Progress
  ending : Except PassError Ending

/-- How rows are processed. -/
structure Pass where
  identification : Identification
  strictness : Strictness
  batchSize : Nat
  batchSize_pos : 0 < batchSize

/-- A pass over one table: what stays the same from batch to batch. -/
structure Job where
  pass : Pass
  catalogue : List ReferenceObject
  plan : Plan
  table : Int

/-- What the next batch of a pass comes to. -/
inductive Round where
  /-- No row of the range is left. -/
  | exhausted
  /-- The batch was not processed, or not as a whole. -/
  | failed (s : UploadStore) (e : PassError)
  /-- The batch was processed up to an identifier; it may be known to be the last. -/
  | processed (s : UploadStore) (outcomes : Keyed String Outcome) (cursor : String)
      (isLast : Bool)

namespace Job

/-! ## One batch -/

/-- The data of one family in a batch of records. -/
def familyData (records : List Record) (family : Family) : List (String × Datum) :=
  records.flatMap fun r => (r.data.filter (·.family = family)).map fun d => (r.id, d)

/-- The data of a batch of records by family; families without data are left out. -/
def pieces (records : List Record) : List (Family × List (String × Datum)) :=
  (Family.all.map fun f => (f, familyData records f)).filter fun piece => !piece.2.isEmpty

/-- Keep the data of one family, unless they are refused. -/
def keepPiece (table : Int) (s : UploadStore) (piece : Family × List (String × Datum)) :
    UploadStore :=
  match s.putData table piece.1 piece.2 with
  | .ok s => s
  | .error _ => s

/-- Why a piece is refused, if it is. -/
def refusal? (table : Int) (s : UploadStore) (piece : Family × List (String × Datum)) :
    Option StoreError :=
  match s.putData table piece.1 piece.2 with
  | .ok _ => none
  | .error e => some e

/-- Keep the data of a batch of records. If those of a family are refused, only some of
the others are kept, as `lands` tells. -/
def keepData (table : Int) (lands : Family → Bool) (records : List Record)
    (s : UploadStore) : UploadStore × Option StoreError :=
  let all := pieces records
  match all.findSome? (refusal? table s) with
  | none => (all.foldl (keepPiece table) s, none)
  | some e => ((all.filter fun piece => lands piece.1).foldl (keepPiece table) s, some e)

/-- Process the rows of a batch. -/
def runBatch (j : Job) (lands : Family → Bool) (rows : List Row) (s : UploadStore) :
    UploadStore × Except PassError (Keyed String Outcome) :=
  match j.plan.apply j.pass.strictness rows with
  | .error e => (s, .error (.construction e))
  | .ok records =>
      match keepData j.table lands records s with
      | (s, some e) => (s, .error (.store e))
      | (s, none) =>
          let outcomes := j.pass.identification.identify j.catalogue records
          (s.addOutcomes outcomes, .ok outcomes)

theorem tables_keepPiece (table : Int) (s : UploadStore)
    (piece : Family × List (String × Datum)) : (keepPiece table s piece).tables = s.tables := by
  unfold keepPiece UploadStore.putData
  grind

theorem tables_foldl_keepPiece (table : Int) (all : List (Family × List (String × Datum)))
    (s : UploadStore) : (all.foldl (keepPiece table) s).tables = s.tables := by
  induction all generalizing s with
  | nil => rfl
  | cons piece rest ih => rw [List.foldl_cons, ih, tables_keepPiece]

theorem tables_keepData (table : Int) (lands : Family → Bool) (records : List Record)
    (s : UploadStore) : (keepData table lands records s).1.tables = s.tables := by
  simp only [keepData]
  cases (pieces records).findSome? (refusal? table s) with
  | none => exact tables_foldl_keepPiece table _ s
  | some e => exact tables_foldl_keepPiece table _ s

/-- A batch leaves the tables alone. -/
theorem tables_runBatch (j : Job) (lands : Family → Bool) (rows : List Row) (s : UploadStore) :
    (j.runBatch lands rows s).1.tables = s.tables := by
  unfold runBatch
  cases j.plan.apply j.pass.strictness rows with
  | error e => rfl
  | ok records =>
      have h := tables_keepData j.table lands records s
      rcases hkeep : keepData j.table lands records s with ⟨kept, _ | e⟩
      · simpa [UploadStore.addOutcomes, hkeep] using h
      · simpa [hkeep] using h

/-! ## Batch by batch -/

/-- Fetch and process the next batch. The range is come through when a batch has no row
of it, when the batch was cut short by the end of the range, or when there were not
enough rows left for it. -/
def round (j : Job) (range : Range) (lands : Family → Bool) (cursor : Option String)
    (s : UploadStore) : Round :=
  match s.rowsAfter j.table j.pass.batchSize cursor UploadStore.orderColumn with
  | .error e => .failed s (.store e)
  | .ok fetched =>
      let rows := fetched.filter fun r => range.admits r.id
      match rows.getLast? with
      | none => .exhausted
      | some last =>
          match j.runBatch lands rows s with
          | (s, .error e) => .failed s e
          | (s, .ok outcomes) =>
              .processed s outcomes last.id
                (rows.length < fetched.length || fetched.length < j.pass.batchSize)

/-- The number of rows of a table that follow an identifier. -/
def remaining (s : UploadStore) (table : Int) (cursor : Option String) : Nat :=
  match s.table table with
  | .ok t => (t.rows.after cursor).length
  | .error _ => 0

/-- A batch that is processed leaves fewer rows. -/
theorem remaining_lt_of_round {j : Job} {range : Range} {lands : Family → Bool}
    {cursor : Option String} {s kept : UploadStore} {outcomes : Keyed String Outcome}
    {last : String} {isLast : Bool}
    (h : j.round range lands cursor s = .processed kept outcomes last isLast) :
    remaining kept j.table (some last) < remaining s j.table cursor := by
  unfold round at h
  cases ht : s.table j.table with
  | error e => simp [UploadStore.rowsAfter, ht, Except.map] at h
  | ok t =>
      simp only [UploadStore.rowsAfter, ht, Except.map, ne_eq, not_true_eq_false, if_false] at h
      split at h
      · cases h
      · next row hrow =>
        have hmem : row ∈ (t.rows.after cursor).map (·.2) :=
          List.mem_of_mem_take (List.mem_filter.mp (List.mem_of_getLast? hrow)).1
        obtain ⟨e, he, rfl⟩ := List.mem_map.mp hmem
        have hlt := Keyed.length_after_lt he
        rw [← t.rows_keyed e (Keyed.mem_after.mp he).1] at hlt
        split at h
        · cases h
        · next hbatch =>
          cases h
          have hkept : kept.tables = s.tables :=
            (congrArg (·.1.tables) hbatch).symm.trans (tables_runBatch j lands _ s)
          have htable : kept.table j.table = .ok t := by
            rw [← ht]
            simp only [UploadStore.table, hkept]
          simpa [remaining, htable, ht] using hlt

/-- End a pass that came through its range. -/
def finish (table : Int) (range : Range) (now : Time.Instant) (reached : Reached)
    (s : UploadStore) : Run :=
  if range.isFull then
    match s.setLastProcessed table now with
    | .ok s => ⟨s, [], .ok (.completed reached)⟩
    | .error e => ⟨s, [], .error (.store e)⟩
  else ⟨s, [], .ok (.completed reached)⟩

/-- Process the rows that are left, batch by batch. -/
def runFrom (j : Job) (range : Range) (around : Surroundings) (reached : Reached)
    (s : UploadStore) : Run :=
  if around.stop reached.batches then ⟨s, [], .ok (.stopped reached)⟩
  else
    match _hround : j.round range (around.lands reached.batches) reached.cursor s with
    | .exhausted => finish j.table range around.now reached s
    | .failed s e => ⟨s, [], .error e⟩
    | .processed s outcomes cursor isLast =>
        let report := Progress.ofBatch (reached.batches + 1) outcomes cursor
        let rest :=
          if isLast then finish j.table range around.now (reached.advance report) s
          else runFrom j range around (reached.advance report) s
        { rest with progress := report :: rest.progress }
termination_by remaining s j.table reached.cursor
decreasing_by exact remaining_lt_of_round _hround

end Job

namespace Pass

/-- The same pass with batches of another size; a batch has at least one row. -/
def withBatchSize (p : Pass) (size : Nat) : Pass :=
  { p with batchSize := max 1 size, batchSize_pos := by omega }

/-- Prepare a pass as it is set. -/
def ofSettings (matchers : Registry Matcher) (solvers : Registry Solver) (s : Settings) :
    Except ConfigurationError Pass :=
  (Identification.ofSettings matchers solvers s.crossmatch).map fun identification =>
    withBatchSize ⟨identification, s.strictness, 1, by decide⟩ s.crossmatch.batchSize

/-- Run a pass over a table. -/
def run (p : Pass) (catalogue : List ReferenceObject) (table : Int) (range : Range)
    (around : Surroundings) (s : UploadStore) : Run :=
  match s.table table with
  | .error e => ⟨s, [], .error (.store e)⟩
  | .ok stored =>
      if stored.statistics.isUpToDate then ⟨s, [], .ok .skipped⟩
      else
        match Plan.resolve s.rules s.constants stored.table with
        | .error e => ⟨s, [], .error (.conversion e)⟩
        | .ok plan =>
            Job.runFrom ⟨p, catalogue, plan, table⟩ range around (.start range) s

end Pass

end SkyCatalog
