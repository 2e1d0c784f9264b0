import SkyCatalog.CommandLine.Request
import SkyCatalog.Crossmatch.Pass
import SkyCatalog.Crossmatch.Selection
import SkyCatalog.Upload.Submission

/-!
# Commands

A command reads documents, which are given by a function from their names, and makes
a report. It fails with a cause: a document cannot be read or is malformed, the
configuration is refused, the pass fails, or the search expression is wrong.
-/

namespace SkyCatalog.CommandLine

/-- The documents that can be read, by their names. -/
abbrev Documents := String → Option String

/-- The cause for which a command fails. -/
inductive CommandError where
  | unreadable
  | malformed
  | configuration (e : ConfigurationError)
  | pass (e : PassError)
  | expression (e : Query.ParseError)

/-! ## Passes -/

/-- What is reported of a pass. -/
structure RunReport where
  table : Int
  status : String
  reached : Reached
  outcomes : Keyed String Outcome

/-- The JSON form of a report. -/
def RunReport.toJson (r : RunReport) : Json :=
  .object [("table_id", .int r.table), ("status", .text r.status),
    ("batches", .int r.reached.batches), ("counts", r.reached.tally.toJson),
    ("cursor", .textOrNull r.reached.cursor),
    ("results", .object (r.outcomes.mapValues fun _ o => o.toJson).entries)]

/-- The status of a pass and how far it came; a table that was passed over counts as
not begun. -/
def describe : Ending → String × Reached
  | .completed reached => ("completed", reached)
  | .stopped reached => ("stopped", reached)
  | .skipped => ("skipped", ⟨0, .zero, none⟩)

/-- Read a document of a kind. -/
def load {α : Type} (documents : Documents) (read : String → Option α) (name : String) :
    Except CommandError α :=
  match documents name with
  | none => .error .unreadable
  | some document =>
      match read document with
      | none => .error .malformed
      | some a => .ok a

/-- The settings of a pass. -/
def loadSettings (documents : Documents) (options : RunOptions) :
    Except CommandError Settings := do
  let settings ←
    match options.config with
    | none => .ok Settings.default
    | some name => load documents Settings.read? name
  return if options.strict then settings.strict else settings

/-- Run a pass over a submission. The settings are read before the submission. -/
def runSubmission (documents : Documents) (now : Time.Instant) (name : String)
    (options : RunOptions) : Except CommandError RunReport := do
  let settings ← loadSettings documents options
  let submission ← load documents Submission.read? name
  let store ← (submission.toStore now).mapError .configuration
  let pass ←
    (Pass.ofSettings Matcher.registry Solver.registry settings).mapError .configuration
  let run := pass.run submission.catalogue submission.table.id
    ⟨options.startAfter, options.endAt⟩ ⟨fun _ => false, fun _ _ => true, now⟩ store
  let ending ← run.ending.mapError .pass
  let (status, reached) := describe ending
  return ⟨submission.table.id, status, reached, run.store.outcomes⟩

/-! ## Search expressions -/

/-- The tree of an expression, in writing. -/
def treeText (expression : String) : Except CommandError String :=
  ((Query.parse expression).map Query.Expr.text).mapError .expression

/-- The tokens of an expression in postfix order, in writing. -/
def postfixText (expression : String) : Except CommandError String :=
  ((Query.parsePostfix expression).map fun lexemes =>
    Outcome.joined " " (lexemes.map fun l => l.token.text)).mapError .expression

/-- The JSON form of a selected object: its identifier and its names. -/
def selectedToJson (o : ReferenceObject) : Json :=
  .object [("pgc", .int o.pgc),
    ("designations", .array ((Holdings.designations o).map fun d => .text d.name))]

/-- The reference objects of a submission that an expression selects. The expression
is read before the submission. -/
def selectFrom (documents : Documents) (expression name : String) :
    Except CommandError (List ReferenceObject) := do
  let e ← (Query.parse expression).mapError .expression
  let submission ← load documents Submission.read? name
  return e.select submission.catalogue

end SkyCatalog.CommandLine
