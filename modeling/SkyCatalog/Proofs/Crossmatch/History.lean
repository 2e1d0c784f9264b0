import Mathlib.Logic.Relation
import SkyCatalog.Proofs.Crossmatch.Round

/-!
# Histories of passes over the pieces of a cut

All identifiers are cut into consecutive ranges, and every one of these pieces is passed
over on its own. Each pass may have batches of its own size. The batches of the passes
come in any order; between them passes are stopped, writes to a family are refused or
allowed again, and a piece whose pass was stopped or has failed is taken up where that
pass had come. A `Turn` is the least that happens at once, and a `History` is a sequence
of turns. Every run of a pass over a piece is such a history (`history_of_run`). A pass that
goes on or was stopped is known with the store in which it began, so that what it has given
can be told from what that store held.
-/

namespace SkyCatalog

/-! ## Cuts -/

namespace Range

/-- Consecutive ranges that begin after an identifier and end at the given ones. -/
def cutAfter (start : Option String) : List String → List Range
  | [] => [⟨start, none⟩]
  | last :: rest => ⟨start, some last⟩ :: cutAfter (some last) rest

/-- The consecutive ranges into which all identifiers are cut. -/
def cut (ends : List String) : List Range :=
  cutAfter none ends

/-- What comes after the beginning of consecutive ranges lies in one of them. -/
theorem exists_covers_of_cutAfter {start : Option String} {id : String}
    (h : ∀ first ∈ start, first < id) (ends : List String) :
    ∃ range ∈ cutAfter start ends, range.covers id = true := by
  induction ends generalizing start with
  | nil => exact ⟨⟨start, none⟩, by simp [cutAfter], covers_iff.mpr ⟨h, by simp⟩⟩
  | cons last rest ih =>
      -- it is in the first range, or it comes after its end
      by_cases hle : id ≤ last
      · exact ⟨⟨start, some last⟩, by simp [cutAfter], covers_iff.mpr ⟨h, by simpa using hle⟩⟩
      · have hafter : ∀ first ∈ some last, first < id := by
          intro first hfirst
          cases hfirst
          exact Std.not_le.mp hle
        obtain ⟨range, hrange, hcovers⟩ := ih hafter
        exact ⟨range, List.mem_cons_of_mem _ hrange, hcovers⟩

/-- Every identifier lies in a piece of a cut. -/
theorem exists_covers_of_cut (ends : List String) (id : String) :
    ∃ range ∈ cut ends, range.covers id = true :=
  exists_covers_of_cutAfter (by simp) ends

/-- No range but one covers an identifier. -/
def OnlyIn (pieces : List Range) (i : Fin pieces.length) (id : String) : Prop :=
  ∀ k, k ≠ i → (pieces.get k).covers id = false

/-- Consecutive ranges at ascending ends cover what comes after their beginning. -/
theorem lt_of_covers_cutAfter {start : String} {ends : List String}
    (h : (start :: ends).Pairwise (· ≤ ·)) {range : Range}
    (hrange : range ∈ cutAfter (some start) ends) {id : String} (hcovers : range.covers id = true) :
    start < id := by
  induction ends generalizing start with
  | nil =>
      obtain rfl := List.mem_singleton.mp hrange
      exact (covers_iff.mp hcovers).1 start rfl
  | cons last rest ih =>
      obtain ⟨hstart, hrest⟩ := List.pairwise_cons.mp h
      rcases List.mem_cons.mp hrange with rfl | hlater
      · exact (covers_iff.mp hcovers).1 start rfl
      · exact Std.lt_of_le_of_lt (hstart last List.mem_cons_self) (ih hrest hlater)

/-- At ascending ends no two pieces cover the same identifier. -/
theorem pairwise_cutAfter {start : Option String} {ends : List String}
    (h : ends.Pairwise (· ≤ ·)) :
    (cutAfter start ends).Pairwise fun a b => ∀ id, a.covers id = true → b.covers id = false := by
  induction ends generalizing start with
  | nil => exact List.pairwise_singleton _ _
  | cons last rest ih =>
      refine List.pairwise_cons.mpr ⟨fun later hlater id hcovers => ?_,
        ih (List.pairwise_cons.mp h).2⟩
      rw [← Bool.not_eq_true]
      intro hbehind
      have hle : id ≤ last := (covers_iff.mp hcovers).2 last rfl
      exact Std.not_le.mpr (lt_of_covers_cutAfter h hlater hbehind) hle

/-- In a cut at ascending ends a piece is the only one that covers its identifiers. -/
theorem onlyIn_of_covers {ends : List String} (h : ends.Pairwise (· ≤ ·))
    {i : Fin (cut ends).length} {id : String} (hcovers : ((cut ends).get i).covers id = true) :
    OnlyIn (cut ends) i id := by
  intro k hk
  have hpairwise := List.pairwise_iff_get.mp (@pairwise_cutAfter none ends h)
  rcases lt_or_gt_of_ne hk with hlt | hgt
  · rw [← Bool.not_eq_true]
    intro hother
    have hnot : ((cut ends).get i).covers id = false := hpairwise k i hlt id hother
    rw [hcovers] at hnot
    cases hnot
  · exact hpairwise i k hgt id hcovers

end Range

/-! ## Pieces and turns -/

/-- One pass over a piece. -/
structure Attempt where
  job : Job
  /-- The identifier that it started after. -/
  start : Option String
  reached : Reached
  /-- The store in which it began. -/
  before : UploadStore

/-- How far a piece has come. -/
inductive Stage where
  /-- No pass goes on; the next one starts after the cursor. -/
  | waiting (cursor : Option String)
  | running (a : Attempt)
  | stopped (a : Attempt)
  | completed

/-- Where the next pass over a piece starts, if one may be taken up. -/
def Stage.next? : Stage → Option (Option String)
  | .waiting cursor => some cursor
  | .running _ => none
  | .stopped a => some a.reached.cursor
  | .completed => none

namespace Attempt

/-- The range of a pass over a piece. -/
def range (a : Attempt) (piece : Range) : Range :=
  ⟨a.start, piece.endAt⟩

/-- The pass with one more batch. -/
def advance (a : Attempt) (outcomes : Keyed String Outcome) (cursor : String) : Attempt :=
  { a with reached := a.reached.advance (.ofBatch (a.reached.batches + 1) outcomes cursor) }

end Attempt

/-- A store and the pieces that are passed over. -/
structure World (pieces : List Range) where
  store : UploadStore
  stage : Fin pieces.length → Stage

namespace World

variable {pieces : List Range}

/-- A world in which no piece was taken up yet. -/
def start (s : UploadStore) : World pieces :=
  ⟨s, fun i => .waiting (pieces.get i).startAfter⟩

/-- The world with another store and one piece at another stage. -/
def put (σ : World pieces) (i : Fin pieces.length) (stage : Stage) (s : UploadStore) :
    World pieces :=
  ⟨s, Function.update σ.stage i stage⟩

end World

section Histories

variable (p : Pass) (catalogue : List ReferenceObject) (table : Int) {pieces : List Range}

/-- What happens at once. -/
inductive Turn : World pieces → World pieces → Prop where
  /-- Writes to a family are refused from now on, or to none. -/
  | reject (σ : World pieces) (family : Option Family) :
      Turn σ { σ with store := σ.store.reject family }
  /-- A pass over a piece begins. -/
  | begin (σ : World pieces) (i : Fin pieces.length) (size : Nat) {cursor : Option String}
      {stored : StoredTable} {plan : Plan} (hnext : (σ.stage i).next? = some cursor)
      (htable : σ.store.table table = .ok stored) (hstale : stored.statistics.isUpToDate = false)
      (hplan : Plan.resolve σ.store.rules σ.store.constants stored.table = .ok plan) :
      Turn σ (σ.put i (.running ⟨⟨p.withBatchSize size, catalogue, plan, table⟩, cursor,
        .start ⟨cursor, (pieces.get i).endAt⟩, σ.store⟩) σ.store)
  /-- A batch is processed, and others may follow. -/
  | batch (σ : World pieces) (i : Fin pieces.length) (lands : Family → Bool) {a : Attempt}
      {s : UploadStore} {outcomes : Keyed String Outcome} {cursor : String}
      (hstage : σ.stage i = .running a)
      (hround : a.job.round (a.range (pieces.get i)) lands a.reached.cursor σ.store =
        .processed s outcomes cursor false) :
      Turn σ (σ.put i (.running (a.advance outcomes cursor)) s)
  /-- A batch is processed, and it is the last of its range. -/
  | last (σ : World pieces) (i : Fin pieces.length) (lands : Family → Bool) (now : Time.Instant)
      {a : Attempt} {s marked : UploadStore} {outcomes : Keyed String Outcome} {cursor : String}
      {reached : Reached} (hstage : σ.stage i = .running a)
      (hround : a.job.round (a.range (pieces.get i)) lands a.reached.cursor σ.store =
        .processed s outcomes cursor true)
      (hfinish : Job.finish table (a.range (pieces.get i)) now
        (a.advance outcomes cursor).reached s = ⟨marked, [], .ok (.completed reached)⟩) :
      Turn σ (σ.put i .completed marked)
  /-- No row of the range is left. -/
  | exhausted (σ : World pieces) (i : Fin pieces.length) (lands : Family → Bool)
      (now : Time.Instant) {a : Attempt} {marked : UploadStore} {reached : Reached}
      (hstage : σ.stage i = .running a)
      (hround : a.job.round (a.range (pieces.get i)) lands a.reached.cursor σ.store = .exhausted)
      (hfinish : Job.finish table (a.range (pieces.get i)) now a.reached σ.store =
        ⟨marked, [], .ok (.completed reached)⟩) :
      Turn σ (σ.put i .completed marked)
  /-- A batch is not processed, or not as a whole; what was reported stands. -/
  | fail (σ : World pieces) (i : Fin pieces.length) (lands : Family → Bool) {a : Attempt}
      {s : UploadStore} {e : PassError} (hstage : σ.stage i = .running a)
      (hround : a.job.round (a.range (pieces.get i)) lands a.reached.cursor σ.store = .failed s e) :
      Turn σ (σ.put i (.waiting a.reached.cursor) s)
  /-- A pass is stopped. -/
  | stop (σ : World pieces) (i : Fin pieces.length) {a : Attempt}
      (hstage : σ.stage i = .running a) :
      Turn σ (σ.put i (.stopped a) σ.store)

/-- Any number of turns. -/
abbrev History : World pieces → World pieces → Prop :=
  Relation.ReflTransGen (Turn p catalogue table)

/-! ## Runs are histories -/

/-- A piece is left by a run that came from a cursor: completed, stopped where the run came
to, or waiting behind the last batch that was reported. The run had begun after `start` in the
store `before`. -/
def Stage.LeftBy (stage : Stage) (start : Option String) (before : UploadStore)
    (cursor : Option String) (run : Run) : Prop :=
  match run.ending with
  | .ok (.completed _) => stage = .completed
  | .ok (.stopped reached) =>
      ∃ a, stage = .stopped a ∧ a.start = start ∧ a.before = before ∧ a.reached = reached
  | .ok .skipped | .error _ =>
      stage.next? = some ((run.progress.getLast?.map (·.cursor)).or cursor)

/-- Did a run come to the end of its range? -/
def Run.completes (run : Run) : Bool :=
  match run.ending with
  | .ok (.completed _) => true
  | _ => false

/-- The cursor at which a run was stopped, if it was. -/
def Run.stoppedAt? (run : Run) : Option (Option String) :=
  match run.ending with
  | .ok (.stopped reached) => some reached.cursor
  | _ => none

theorem Run.stoppedAt?_eq_some_iff {run : Run} {last : Option String} :
    run.stoppedAt? = some last ↔
      ∃ reached, run.ending = .ok (.stopped reached) ∧ reached.cursor = last := by
  unfold Run.stoppedAt?
  split
  · next hending => simp [hending]
  · next hending =>
    refine ⟨nofun, ?_⟩
    rintro ⟨reached, hreached, -⟩
    exact absurd hreached (hending reached)

theorem Stage.LeftBy.completed {stage : Stage} {start cursor : Option String}
    {before : UploadStore} {run : Run} (h : stage.LeftBy start before cursor run)
    (hrun : run.completes = true) : stage = .completed := by
  unfold Stage.LeftBy at h
  unfold Run.completes at hrun
  split at hrun
  · next hending =>
    rw [hending] at h
    exact h
  · cases hrun

theorem Stage.LeftBy.stopped {stage : Stage} {start cursor last : Option String}
    {before : UploadStore} {run : Run} (h : stage.LeftBy start before cursor run)
    (hrun : run.stoppedAt? = some last) :
    ∃ a, stage = .stopped a ∧ a.start = start ∧ a.before = before ∧ a.reached.cursor = last := by
  obtain ⟨reached, hending, rfl⟩ := Run.stoppedAt?_eq_some_iff.mp hrun
  rw [Stage.LeftBy, hending] at h
  obtain ⟨a, hstage, hstart, hbefore, rfl⟩ := h
  exact ⟨a, hstage, hstart, hbefore, rfl⟩

theorem Stage.LeftBy.cons {stage : Stage} {start cursor : Option String} {before : UploadStore}
    {run : Run} {report : Progress} (h : stage.LeftBy start before (some report.cursor) run) :
    stage.LeftBy start before cursor { run with progress := report :: run.progress } := by
  have hlast : ((report :: run.progress).getLast?.map (·.cursor)).or cursor =
      (run.progress.getLast?.map (·.cursor)).or (some report.cursor) := by
    rw [List.getLast?_cons]
    cases run.progress.getLast? <;> rfl
  simpa only [Stage.LeftBy, hlast] using h

variable {p catalogue table}

theorem World.stage_put_of_ne {σ : World pieces} {i k : Fin pieces.length} (h : k ≠ i)
    (stage : Stage) (s : UploadStore) : (σ.put i stage s).stage k = σ.stage k :=
  Function.update_of_ne h _ _

theorem World.stage_put_self (σ : World pieces) (i : Fin pieces.length) (stage : Stage)
    (s : UploadStore) : (σ.put i stage s).stage i = stage :=
  Function.update_self _ _ _

variable (p catalogue table) in
/-- A history of one piece that does what a run does. -/
def Realised (σ : World pieces) (i : Fin pieces.length) (start : Option String)
    (before : UploadStore) (cursor : Option String) (run : Run) : Prop :=
  ∃ σ', History p catalogue table σ σ' ∧ σ'.store = run.store ∧
    (∀ k, k ≠ i → σ'.stage k = σ.stage k) ∧ (σ'.stage i).LeftBy start before cursor run

theorem Realised.of_turn {σ : World pieces} {i : Fin pieces.length} {stage : Stage}
    {start cursor : Option String} {before : UploadStore} {run : Run}
    (h : Turn p catalogue table σ (σ.put i stage run.store))
    (hleft : stage.LeftBy start before cursor run) :
    Realised p catalogue table σ i start before cursor run := by
  refine ⟨σ.put i stage run.store, .single h, rfl, fun k hk => World.stage_put_of_ne hk _ _, ?_⟩
  rwa [World.stage_put_self]

theorem Realised.head {σ : World pieces} {i : Fin pieces.length} {stage : Stage}
    {s before : UploadStore} {start cursor : Option String} {run : Run}
    (h : Turn p catalogue table σ (σ.put i stage s))
    (hrest : Realised p catalogue table (σ.put i stage s) i start before cursor run) :
    Realised p catalogue table σ i start before cursor run := by
  obtain ⟨σ', hhistory, hstore, hothers, hleft⟩ := hrest
  refine ⟨σ', hhistory.head h, hstore, fun k hk => ?_, hleft⟩
  rw [hothers k hk, World.stage_put_of_ne hk]

/-- What is left of a run is a history. -/
theorem realised_runFrom {σ : World pieces} {i : Fin pieces.length} {a : Attempt}
    {t : StoredTable} (hstage : σ.stage i = .running a) (hjob : a.job.table = table)
    (ht : σ.store.table table = .ok t) (around : Surroundings) :
    Realised p catalogue table σ i a.start a.before a.reached.cursor
      (a.job.runFrom (a.range (pieces.get i)) around a.reached σ.store) := by
  subst hjob
  -- by induction on the number of rows that are left
  obtain ⟨left, hleft⟩ : ∃ left,
      t.covered ⟨a.reached.cursor, (pieces.get i).endAt⟩ = left := ⟨_, rfl⟩
  induction hn : left.length using Nat.strongRecOn generalizing left a σ with
  | _ n ih =>
    -- one turn for one round, or for the stop before it
    by_cases hstop : around.stop a.reached.batches = true
    · rw [Job.runFrom_of_stop hstop]
      exact .of_turn (.stop σ i hstage) ⟨a, rfl, rfl, rfl, rfl⟩
    · have hgo : around.stop a.reached.batches = false := by simpa using hstop
      rcases Job.round_cases ht (a.range (pieces.get i)) (around.lands a.reached.batches)
        a.reached.cursor hleft with
        ⟨rfl, hround⟩ | ⟨last, isLast, hlast, hbatch, hshort, hround⟩ | ⟨keep, e, -, hround⟩
      · have hfinish := Job.finish_of_table ht (a.range (pieces.get i)) around.now a.reached
        rw [Job.runFrom_of_exhausted hgo hround, hfinish]
        exact .of_turn (.exhausted σ i _ around.now hstage hround hfinish) rfl
      · have hkept : (a.job.settle (a.job.batch left) σ.store).table a.job.table = .ok t := by
          rw [Job.table_settle, ht]
        generalize a.job.pass.identification.identify _ _ = outcomes at hround
        rw [Job.runFrom_of_processed hgo hround]
        cases isLast with
        | true =>
            have hfinish := Job.finish_of_table hkept (a.range (pieces.get i)) around.now
              (a.reached.advance (.ofBatch (a.reached.batches + 1) outcomes last.id))
            simp only [if_true, hfinish]
            exact .of_turn (.last σ i _ around.now hstage hround hfinish) rfl
        | false =>
            have hadvance := World.stage_put_self σ i (.running (a.advance outcomes last.id))
              (a.job.settle (a.job.batch left) σ.store)
            obtain ⟨σ', hhistory, hstore, hothers, hleft⟩ :=
              ih _ (hn ▸ Job.length_drop_lt hlast) hadvance hkept _
                (Job.covered_after_batch hleft hlast) rfl
            exact .head (.batch σ i _ hstage hround) ⟨σ', hhistory, hstore, hothers, hleft.cons⟩
      · rw [Job.runFrom_of_failed hgo hround]
        exact .of_turn (.fail σ i _ hstage hround) rfl

/-- **Every run is a history.** A run of a pass over a piece that may be taken up does what
some turns of this piece do one after the other. -/
theorem history_of_run {σ : World pieces} {i : Fin pieces.length} {cursor : Option String}
    (hnext : (σ.stage i).next? = some cursor) (size : Nat) (around : Surroundings) :
    Realised p catalogue table σ i cursor σ.store cursor ((p.withBatchSize size).run catalogue table
      ⟨cursor, (pieces.get i).endAt⟩ around σ.store) := by
  -- a run that does not begin a job changes nothing, and the piece waits as before
  cases ht : σ.store.table table with
  | error e =>
      simp only [Pass.run, ht]
      exact ⟨σ, .refl, rfl, fun k _ => rfl, hnext⟩
  | ok t =>
      cases hstale : t.statistics.isUpToDate with
      | true =>
          simp only [Pass.run, ht, hstale, if_true]
          exact ⟨σ, .refl, rfl, fun k _ => rfl, hnext⟩
      | false =>
          cases hplan : Plan.resolve σ.store.rules σ.store.constants t.table with
          | error e =>
              simp only [Pass.run, ht, hstale, hplan, Bool.false_eq_true, if_false]
              exact ⟨σ, .refl, rfl, fun k _ => rfl, hnext⟩
          | ok plan =>
              simp only [Pass.run, ht, hstale, hplan, Bool.false_eq_true, if_false]
              let a : Attempt := ⟨⟨p.withBatchSize size, catalogue, plan, table⟩, cursor,
                .start ⟨cursor, (pieces.get i).endAt⟩, σ.store⟩
              have hstage := World.stage_put_self σ i (.running a) σ.store
              exact .head (.begin σ i size hnext ht hstale hplan)
                (realised_runFrom hstage rfl ht around)

-- runs are not to be carried out where only the way they end matters
attribute [irreducible] Stage.LeftBy

end Histories

end SkyCatalog
