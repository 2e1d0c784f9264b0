import SkyCatalog.Crossmatch.Search
import SkyCatalog.Settings

/-!
# Identifying records

The reference catalogue is searched once for a whole batch of records: for the first
name of each record and for its first position. What the searches of a record found
is pooled, one object for an identifier, scored and decided on.

Several records may have the same identifier. Then the searches of the last of them
are made, what they find is compared with the first of them, and the others are
decided on without candidates; the outcome of the last stands.
-/

namespace SkyCatalog

/-- How records are identified. -/
structure Identification where
  matcher : Matcher
  solver : Solver
  /-- The radius of the search around a position, in arcseconds. -/
  searchRadius : Float
  /-- The greatest number of candidates that one search gives. -/
  candidateLimit : Nat

namespace Identification

/-- Prepare identification as it is set. -/
def ofSettings (matchers : Registry Matcher) (solvers : Registry Solver)
    (s : CrossmatchSettings) : Except ConfigurationError Identification := do
  let matcher ← matchers.build s.matcher
  let solver ← solvers.build s.solver
  return ⟨matcher, solver, s.searchRadius, s.candidateLimit⟩

/-- The searches that are made for a record. -/
def searches (i : Identification) (r : Record) : List Search :=
  ((Holdings.designation? r).map fun d => Search.name d.name).toList ++
    ((Holdings.position? r).map fun p => Search.cone p.ra p.dec i.searchRadius).toList

/-- The searches of a batch of records by their keys. -/
def batchSearches (i : Identification) (records : List Record) : Keyed SearchKey Search :=
  .ofList (records.flatMap fun r => (i.searches r).map fun s => (s.key r.id, s))

/-- Add an object to the candidates, unless one of its identifier is among them. -/
def addCandidate (candidates : Keyed Int ReferenceObject) (o : ReferenceObject) :
    Keyed Int ReferenceObject :=
  if candidates.contains o.pgc then candidates else candidates.put o.pgc o

/-- The candidates for a record in what was found, in ascending order of their
identifiers. -/
def candidatesFor (found : Keyed SearchKey (List ReferenceObject)) (id : String) :
    List ReferenceObject :=
  let own := found.filter fun key _ => key.record == id
  (own.values.flatten.foldl addCandidate .empty).values

/-- Decide on a record with its candidates. -/
def decide (i : Identification) (r : Record) (candidates : List ReferenceObject) : Outcome :=
  i.solver.solve (candidates.map fun o => (o, i.matcher.score r o))

/-- Decide on records one after the other; the candidates for an identifier go to its
first record. -/
def decideAll (i : Identification) (found : Keyed SearchKey (List ReferenceObject))
    (served : List String) : List Record → List (String × Outcome)
  | [] => []
  | r :: rest =>
      let candidates := if served.contains r.id then [] else candidatesFor found r.id
      (r.id, i.decide r candidates) :: decideAll i found (r.id :: served) rest

/-- Identify the records of a batch. -/
def identify (i : Identification) (catalogue : List ReferenceObject) (records : List Record) :
    Keyed String Outcome :=
  let found :=
    Search.runAll catalogue Family.all ⟨0, i.candidateLimit⟩ (i.batchSearches records)
  .ofList (i.decideAll found [] records)

end Identification

end SkyCatalog
