import SkyCatalog.Crossmatch.Matcher
import SkyCatalog.Crossmatch.Solver
import SkyCatalog.Json.Reader
import SkyCatalog.Mapping.Conversion

/-!
# Settings

The settings of a pass over an upload. Every part of them may be left out and takes
its default then. The trees of the matcher and the solver are kept as they are
written; they are assembled when a pass is prepared.
-/

namespace SkyCatalog

/-- How records are compared with the reference objects. -/
structure CrossmatchSettings where
  /-- The rows of a batch. -/
  batchSize : Nat
  /-- The radius of the search around a position, in arcseconds. -/
  searchRadius : Float
  /-- The greatest number of candidates that one search gives. -/
  candidateLimit : Nat
  matcher : Json
  solver : Json

/-- All settings. -/
structure Settings where
  strictness : Strictness
  crossmatch : CrossmatchSettings

/-- The radius of the search around a position unless another is set, in
arcseconds. -/
def defaultSearchRadius : Float := 10.0

namespace CrossmatchSettings

/-- Positions must lie within ten arcseconds, and names, where both sides have some,
within an edit distance of three. -/
def defaultMatcher : Json :=
  .object [
    ("matcher1", .object [("radius_arcsec", .int 10), ("type", .text "circle")]),
    ("matcher2", .object [
      ("matcher", .object [("max_distance", .int 3), ("type", .text "levenshtein")]),
      ("type", .text "ignore_no_name")]),
    ("type", .text "and")]

/-- New if no candidate scores at all, existing if one candidate is clearly above. -/
def defaultSolver : Json :=
  .object [
    ("solver1", .object [("threshold", .real 0.1), ("type", .text "new_all_below_threshold")]),
    ("solver2", .object [
      ("threshold", .real 0.9), ("type", .text "existing_only_one_above_threshold")]),
    ("type", .text "or")]

/-- The settings where nothing is set. -/
def default : CrossmatchSettings :=
  ⟨500, defaultSearchRadius, 100, defaultMatcher, defaultSolver⟩

/-- The JSON form of the settings. -/
def toJson (s : CrossmatchSettings) : Json :=
  .object [("batch_size", .int s.batchSize), ("search_radius_arcsec", .ofFloat s.searchRadius),
    ("candidate_limit", .int s.candidateLimit), ("matcher", s.matcher), ("solver", s.solver)]

/-- Read the settings from JSON. -/
def ofWritten? (value : Written) : Option CrossmatchSettings := do
  let fields ← Written.fields?
    ["batch_size", "search_radius_arcsec", "candidate_limit", "matcher", "solver"] value
  let batchSize ← Written.optional? fields "batch_size" default.batchSize Written.toNat?
  let searchRadius ←
    Written.optional? fields "search_radius_arcsec" default.searchRadius Written.toFloat?
  let candidateLimit ←
    Written.optional? fields "candidate_limit" default.candidateLimit Written.toNat?
  let matcher ← Written.optional? fields "matcher" default.matcher Written.toAny?
  let solver ← Written.optional? fields "solver" default.solver Written.toAny?
  return ⟨batchSize, searchRadius, candidateLimit, matcher, solver⟩

end CrossmatchSettings

namespace Settings

/-- The settings where nothing is set. -/
def default : Settings :=
  ⟨.lenient, .default⟩

/-- The same settings with strict conversion. -/
def strict (s : Settings) : Settings :=
  { s with strictness := .strict }

/-- The JSON form of the settings. -/
def toJson (s : Settings) : Json :=
  .object [
    ("homogenization", .object [("ignore_errors", .bool (s.strictness == .lenient))]),
    ("crossmatch", s.crossmatch.toJson)]

/-- Read from JSON whether objects that cannot be built are left out. -/
def strictnessOfWritten? (value : Written) : Option Strictness := do
  let fields ← Written.fields? ["ignore_errors"] value
  let ignoreErrors ← Written.optional? fields "ignore_errors" true Written.toBool?
  return if ignoreErrors then .lenient else .strict

/-- Read the settings from JSON. -/
def ofWritten? (value : Written) : Option Settings := do
  let fields ← Written.fields? ["homogenization", "crossmatch"] value
  let strictness ← Written.optional? fields "homogenization" .lenient strictnessOfWritten?
  let crossmatch ← Written.optional? fields "crossmatch" .default CrossmatchSettings.ofWritten?
  return ⟨strictness, crossmatch⟩

/-- Read the settings from a document. -/
def read? (document : String) : Option Settings :=
  Written.read? document >>= ofWritten?

end Settings

end SkyCatalog
