import Mathlib.Data.List.Induction
import SkyCatalog.Proofs.Crossmatch.Failure

/-!
# Tables that count as processed

A run keeps whole batches of the rows that were left to it, and all of them if it is completed
(`leaves_runFrom`); only then, and only over the full range, does it mark the table. If it is
stopped it has given to the rows up to its cursor (`Leaves.gives_of_stopped`). In whatever way a
store came about from the empty one, every table in it was added (`Added`), and if it is marked as
processed a run over all of its rows was completed since and gave to all of them (`Processed`). One
more action preserves this (`Attested.apply`), and so it holds after every history. The main
statement is `skipped_only_if_processed`.
-/

namespace SkyCatalog

namespace Range

theorem isFull_iff {r : Range} : r.isFull = true ↔ r = .full := by
  obtain ⟨_ | start, _ | last⟩ := r <;> simp [isFull, full]

end Range

theorem StoredTable.covered_full (t : StoredTable) : t.covered .full = t.rows.values := by
  simp [covered, Range.covers, Range.admits, Range.full]

namespace UploadStore

theorem table_put (s : UploadStore) (id : Int) (t : StoredTable) (other : Int) :
    ({ s with tables := s.tables.put id t } : UploadStore).table other =
      if other = id then .ok t else s.table other := by
  by_cases h : other = id <;> simp [table, Keyed.get?_put, h]

/-- The mark of a run over the full range changes the statistics of its table. -/
theorem table_mark_full {s : UploadStore} {id : Int} {t : StoredTable} (ht : s.table id = .ok t)
    (now : Time.Instant) (other : Int) :
    (Job.mark id .full now s).table other =
      if other = id then .ok { t with statistics.lastProcessed := some now }
      else s.table other := by
  rw [Job.mark, if_pos (Range.isFull_iff.mpr rfl), setLastProcessed, updateTable, ht]
  exact s.table_put id _ other

end UploadStore

/-! ## What a run leaves -/

namespace Job

/-- What a run over a table leaves that had come through `n` batches, with the rows `left` still to
come. -/
inductive Leaves (j : Job) (t : StoredTable) (range : Range) (around : Surroundings) (n : Nat)
    (left : List Row) (s : UploadStore) : Run → Prop where
  /-- All rows were kept. -/
  | completed {stand : Reached} {reports : List Progress} {commits : List Commit}
      {before : UploadStore} (kept : j.Commits around.lands n s commits before)
      (all : commits.flatMap (·.rows) = left) :
      Leaves j t range around n left s
        ⟨mark j.table range around.now before, reports, .ok (.completed stand)⟩
  /-- The first rows were kept, and the others come behind the cursor. -/
  | stopped {stand : Reached} {reports : List Progress} {commits : List Commit}
      {before : UploadStore} (kept : j.Commits around.lands n s commits before)
      (some : commits.flatMap (·.rows) ++ t.covered ⟨stand.cursor, range.endAt⟩ = left) :
      Leaves j t range around n left s ⟨before, reports, .ok (.stopped stand)⟩
  /-- The first rows were kept, and a batch failed. -/
  | failed {e : PassError} {reports : List Progress} {commits : List Commit}
      {before after : UploadStore} {rows : List Row}
      (kept : j.Commits around.lands n s commits before)
      (some : commits.flatMap (·.rows) ++ rows <+: left)
      (fails : j.BatchFails rows before after e) :
      Leaves j t range around n left s ⟨after, reports, .error e⟩

variable {j : Job} {range : Range} {around : Surroundings} {reached : Reached} {n : Nat}
  {s kept : UploadStore} {t : StoredTable} {left rows rest : List Row} {run : Run}

/-- One more batch in front. -/
theorem Leaves.cons {outcomes : Keyed String Outcome} (report : Progress)
    (hsplit : rows ++ rest = left)
    (first : j.runBatch (around.lands n) rows s = (kept, .ok outcomes))
    (h : j.Leaves t range around (n + 1) rest kept run) :
    j.Leaves t range around n left s { run with progress := report :: run.progress } := by
  subst hsplit
  cases h with
  | completed hkept hall =>
      exact .completed (.cons (c := ⟨rows, outcomes⟩) first hkept) (by simp [hall])
  | stopped hkept hsome =>
      refine .stopped (.cons (c := ⟨rows, outcomes⟩) first hkept) ?_
      rw [List.flatMap_cons, List.append_assoc, hsome]
  | failed hkept hsome hfails =>
      refine .failed (.cons (c := ⟨rows, outcomes⟩) first hkept) ?_ hfails
      rw [List.flatMap_cons, List.append_assoc]
      exact (List.prefix_append_right_inj rows).mpr hsome

theorem leaves_runFrom (ht : s.table j.table = .ok t)
    (hleft : t.covered ⟨reached.cursor, range.endAt⟩ = left) :
    j.Leaves t range around reached.batches left s (j.runFrom range around reached s) := by
  -- by induction on the number of rows left: a batch takes at least one of them
  induction hn : left.length using Nat.strongRecOn generalizing left reached s with
  | _ m ih =>
    cases hstop : around.stop reached.batches with
    | true =>
        rw [runFrom_of_stop hstop]
        exact .stopped (.nil _ s) hleft
    | false =>
        rcases round_cases ht range (around.lands reached.batches) reached.cursor hleft with
          ⟨rfl, hround⟩ | ⟨last, isLast, hlast, haccepts, hshort, hround⟩ | ⟨keep, e, -, hround⟩
        · rw [runFrom_of_exhausted hstop hround, finish_of_table ht]
          exact .completed (.nil _ s) rfl
        · have hascending : Ascending (j.batch left) :=
            hleft ▸ (t.ascending_covered _).sublist (List.take_sublist _ _)
          have hbatch := j.runBatch_eq_settle hascending haccepts (around.lands reached.batches)
          have hkept : (j.settle (j.batch left) s).table j.table = .ok t := by
            rw [table_settle, ht]
          rw [runFrom_of_processed hstop hround]
          refine .cons _ (j.batch_append_drop left) hbatch ?_
          cases isLast with
          | true =>
              rw [hshort rfl, if_pos rfl, finish_of_table hkept]
              exact .completed (.nil _ _) rfl
          | false =>
              let next := reached.advance (.ofBatch (reached.batches + 1)
                (j.pass.identification.identify j.catalogue (j.records (j.batch left))) last.id)
              have hnext : t.covered ⟨next.cursor, range.endAt⟩ = left.drop j.pass.batchSize :=
                covered_after_batch hleft hlast
              exact ih _ (hn ▸ length_drop_lt hlast) hkept hnext rfl
        · obtain ⟨-, hbatch⟩ := runBatch_of_round_failed ht hleft hround
          rw [runFrom_of_failed hstop hround]
          exact .failed (.nil _ s) (List.take_prefix _ _) (batchFails_of_runBatch hbatch)

/-- A run starts with all rows of its range left. -/
theorem leaves_start (ht : s.table j.table = .ok t) (range : Range) (around : Surroundings) :
    j.Leaves t range around 0 (t.covered range) s (j.runFrom range around (.start range) s) := by
  have hleft : t.covered ⟨(Reached.start range).cursor, range.endAt⟩ = t.covered range := rfl
  exact leaves_runFrom ht hleft

/-- A run that is completed has kept all rows that were left. -/
theorem Leaves.of_completed {stand : Reached} (h : j.Leaves t range around n left s run)
    (hending : run.ending = .ok (.completed stand)) :
    ∃ commits before, j.Commits around.lands n s commits before ∧
      commits.flatMap (·.rows) = left ∧ run.store = mark j.table range around.now before := by
  cases h with
  | completed hkept hall => exact ⟨_, _, hkept, hall, rfl⟩
  | stopped hkept hsome => cases hending
  | failed hkept hsome hfails => cases hending

/-- **A run that is stopped has given to the rows up to its cursor**, and to no others. -/
theorem Leaves.gives_of_stopped {start : Option String} {stand : Reached}
    (hleft : t.covered ⟨start, range.endAt⟩ = left) (h : j.Leaves t range around n left s run)
    (hending : run.ending = .ok (.stopped stand)) :
    j.Gives (t.coveredUpTo ⟨start, range.endAt⟩ stand.cursor) (fun _ => True) s run.store := by
  cases h with
  | completed hkept hall => cases hending
  | failed hkept hsome hfails => cases hending
  | @stopped stand _ commits before hkept hsome =>
      cases hending
      have hascending := t.ascending_covered ⟨start, range.endAt⟩
      rw [hleft, ← hsome] at hascending
      obtain ⟨hrows, -, hacross⟩ := List.pairwise_append.mp hascending
      refine (hkept.gives hrows).congr_rows fun r => ?_
      -- the rows that were kept are those that do not come behind the cursor
      rw [t.mem_coveredUpTo_iff_notMem, hleft, ← hsome, List.mem_append]
      constructor
      · rintro ⟨hr | hr, hnot⟩
        · exact hr
        · exact absurd hr hnot
      · intro hr
        exact ⟨Or.inl hr, fun hbehind => String.lt_irrefl _ (hacross r hr r hbehind)⟩

theorem Leaves.ending_ne_skipped (h : j.Leaves t range around n left s run) :
    run.ending ≠ .ok .skipped := by
  cases h <;> nofun

/-- The tables stay as they are, unless the run is completed over the full range. -/
theorem Leaves.tables (h : j.Leaves t range around n left s run) :
    run.store.tables = s.tables ∨
      range = .full ∧ ∃ stand, run.ending = .ok (.completed stand) := by
  cases h with
  | completed hkept _ =>
      by_cases hfull : range.isFull = true
      · exact Or.inr ⟨Range.isFull_iff.mp hfull, _, rfl⟩
      · left
        rw [mark, if_neg hfull, hkept.frame]
  | stopped hkept _ =>
      left
      rw [hkept.frame]
  | failed hkept _ hfails =>
      left
      rw [hfails.frame, hkept.frame]

end Job

namespace Pass

/-- All that a run can come to: it cannot begin, the table is up to date, or the rows of the
range are processed. -/
theorem run_cases (p : Pass) (catalogue : List ReferenceObject) (table : Int) (range : Range)
    (around : Surroundings) (s : UploadStore) :
    (∃ e, CannotBegin s table e ∧
      p.run catalogue table range around s = ⟨s, [], .error e⟩) ∨
    (∃ stored, s.table table = .ok stored ∧ stored.statistics.isUpToDate = true ∧
      p.run catalogue table range around s = ⟨s, [], .ok .skipped⟩) ∨
    (∃ stored plan, s.table table = .ok stored ∧
      Plan.resolve s.rules s.constants stored.table = .ok plan ∧
      p.run catalogue table range around s =
        Job.runFrom ⟨p, catalogue, plan, table⟩ range around (.start range) s) := by
  cases htable : s.table table with
  | error e => exact Or.inl ⟨_, .noTable htable, by simp only [run, htable]⟩
  | ok stored =>
      cases hstale : stored.statistics.isUpToDate with
      | true => exact Or.inr (Or.inl ⟨stored, rfl, hstale, by simp [run, htable, hstale]⟩)
      | false =>
          cases hplan : Plan.resolve s.rules s.constants stored.table with
          | error e =>
              exact Or.inl ⟨_, .noPlan htable hplan, by simp [run, htable, hstale, hplan]⟩
          | ok plan =>
              exact Or.inr (Or.inr
                ⟨stored, plan, rfl, hplan, by simp [run, htable, hstale, hplan]⟩)

end Pass

/-! ## Histories of a store -/

/-- What is done to a store. -/
inductive Action where
  | addTable (t : Table) (rows : List Row) (now : Time.Instant)
  | setRules (rules : List Rule)
  | setConstants (constants : List Constants)
  | reject (family : Option Family)
  | run (p : Pass) (catalogue : List ReferenceObject) (table : Int) (range : Range)
      (around : Surroundings)

namespace Action

/-- The store after an action. -/
def apply (s : UploadStore) : Action → UploadStore
  | .addTable t rows now => s.addTable t rows now
  | .setRules rules => s.setRules rules
  | .setConstants constants => s.setConstants constants
  | .reject family => s.reject family
  | .run p catalogue table range around => (p.run catalogue table range around s).store

/-- Does an action add a table of this identifier? -/
def Adds (table : Int) : Action → Prop
  | .addTable t _ _ => t.id = table
  | .setRules _ | .setConstants _ | .reject _ | .run .. => False

end Action

/-- The store that actions make of the empty one. -/
def UploadStore.after (history : List Action) : UploadStore :=
  history.foldl Action.apply .empty

theorem UploadStore.after_concat (history : List Action) (a : Action) :
    after (history ++ [a]) = a.apply (after history) :=
  List.foldl_concat ..

/-- A table as it was last added, apart from its statistics. -/
inductive Added (table : Int) (stored : StoredTable) : List Action → Prop where
  | intro {earlier later : List Action} {t : Table} {rows : List Row} {now : Time.Instant}
      (id : t.id = table)
      (description : stored.table = t)
      (rows_eq : stored.rows = .ofList (rows.map fun r => (r.id, r)))
      (since : ∀ a ∈ later, ¬a.Adds table) :
      Added table stored (earlier ++ .addTable t rows now :: later)

/-- Since a table was last added, a run over the full range was completed. It passed every row of
the table through a batch that was kept as a whole, and what it left is what these batches gave. -/
inductive Processed (table : Int) (stored : StoredTable) : List Action → Prop where
  | intro {earlier between later : List Action} {t : Table} {rows : List Row} {now : Time.Instant}
      {p : Pass} {catalogue : List ReferenceObject} {around : Surroundings} {stand : Reached}
      {plan : Plan} {commits : List Job.Commit} {before s : UploadStore}
      (id : t.id = table)
      (description : stored.table = t)
      (rows_eq : stored.rows = .ofList (rows.map fun r => (r.id, r)))
      (since : ∀ a ∈ between ++ later, ¬a.Adds table)
      (start : s = .after (earlier ++ .addTable t rows now :: between))
      (resolved : Plan.resolve s.rules s.constants t = .ok plan)
      (kept : Job.Commits ⟨p, catalogue, plan, table⟩ around.lands 0 s commits before)
      (all : commits.flatMap (·.rows) = stored.rows.values)
      (outcomes_eq : before.outcomes =
        commits.foldl (fun kept c => kept.putAll c.outcomes.entries) s.outcomes)
      (gives : Job.Gives ⟨p, catalogue, plan, table⟩ stored.rows.values (fun _ => True) s
        (p.run catalogue table .full around s).store)
      (store : (p.run catalogue table .full around s).store =
        Job.mark table .full around.now before)
      (ending : (p.run catalogue table .full around s).ending = .ok (.completed stand)) :
      Processed table stored
        (earlier ++ .addTable t rows now :: between ++ .run p catalogue table .full around :: later)

/-- What a history attests of the tables in a store. -/
def Attested (history : List Action) (s : UploadStore) : Prop :=
  ∀ table stored, s.table table = .ok stored → Added table stored history ∧
    (stored.statistics.lastProcessed ≠ none → Processed table stored history)

section Histories

variable {table : Int} {stored : StoredTable} {history : List Action} {a : Action}

theorem Added.concat (h : Added table stored history) (ha : ¬a.Adds table) :
    Added table stored (history ++ [a]) := by
  obtain ⟨hid, hdescription, hrows, hsince⟩ := h
  rw [List.append_assoc, List.cons_append]
  refine .intro hid hdescription hrows fun b hb => ?_
  rcases List.mem_append.mp hb with hb | hb
  · exact hsince b hb
  · exact List.mem_singleton.mp hb ▸ ha

/-- Whether a table was added does not depend on its statistics. -/
theorem Added.congr {other : StoredTable} (h : Added table stored history)
    (htable : other.table = stored.table) (hrows : other.rows = stored.rows) :
    Added table other history := by
  obtain ⟨hid, hdescription, hrows', hsince⟩ := h
  exact .intro hid (htable.trans hdescription) (hrows.trans hrows') hsince

theorem Processed.concat (h : Processed table stored history) (ha : ¬a.Adds table) :
    Processed table stored (history ++ [a]) := by
  obtain ⟨hid, hdescription, hrows, hsince, hstart, hplan, hkept, hall, houtcomes, hgives, hstore,
    hending⟩ := h
  rw [List.append_assoc, List.cons_append]
  refine .intro hid hdescription hrows (fun b hb => ?_) hstart hplan hkept hall houtcomes hgives
    hstore hending
  rw [← List.append_assoc] at hb
  rcases List.mem_append.mp hb with hb | hb
  · exact hsince b hb
  · exact List.mem_singleton.mp hb ▸ ha

/-! ## One more action -/

/-- What is attested of a table stays so, unless the table is added anew. -/
theorem Attested.concat {s : UploadStore} (h : Attested history s)
    (hstored : s.table table = .ok stored) (ha : ¬a.Adds table) :
    Added table stored (history ++ [a]) ∧
      (stored.statistics.lastProcessed ≠ none → Processed table stored (history ++ [a])) := by
  obtain ⟨hadded, hprocessed⟩ := h table stored hstored
  exact ⟨hadded.concat ha, fun hmark => (hprocessed hmark).concat ha⟩

theorem Attested.of_tables {s s' : UploadStore} (h : Attested history s)
    (ha : ∀ table, ¬a.Adds table) (htables : s'.tables = s.tables) :
    Attested (history ++ [a]) s' := by
  intro table stored hstored
  have hbefore : s.table table = .ok stored := by
    rw [← hstored, UploadStore.table, UploadStore.table, htables]
  exact h.concat hbefore (ha table)

theorem Attested.addTable {s : UploadStore} (h : Attested history s) (t : Table)
    (rows : List Row) (now : Time.Instant) :
    Attested (history ++ [.addTable t rows now]) (s.addTable t rows now) := by
  intro table stored hstored
  rw [UploadStore.addTable, UploadStore.keepTable, UploadStore.table_put] at hstored
  by_cases hid : table = t.id
  · -- the table is new, and its statistics hold no mark
    rw [if_pos hid] at hstored
    cases hstored
    exact ⟨.intro hid.symm rfl rfl (by simp), fun hmark => absurd rfl hmark⟩
  · rw [if_neg hid] at hstored
    exact h.concat hstored fun hadds => hid hadds.symm

/-- A run marks its table only if it was completed over the full range. -/
theorem Attested.run (h : Attested history (.after history)) (p : Pass)
    (catalogue : List ReferenceObject) (table : Int) (range : Range) (around : Surroundings) :
    Attested (history ++ [.run p catalogue table range around])
      (p.run catalogue table range around (.after history)).store := by
  have hadds : ∀ id, ¬(Action.run p catalogue table range around).Adds id := fun _ => id
  rcases p.run_cases catalogue table range around (.after history) with
    ⟨e, -, hrun⟩ | ⟨stored, -, -, hrun⟩ | ⟨stored, plan, hstored, hplan, hrun⟩
  · exact h.of_tables hadds (by rw [hrun])
  · exact h.of_tables hadds (by rw [hrun])
  · have hleaves : Job.Leaves ⟨p, catalogue, plan, table⟩ stored range around 0
        (stored.covered range) (.after history)
        (p.run catalogue table range around (.after history)) :=
      hrun ▸ Job.leaves_start hstored range around
    rcases hleaves.tables with htables | ⟨rfl, stand, hending⟩
    · exact h.of_tables hadds htables
    · obtain ⟨commits, before, hkept, hall, hstore⟩ := hleaves.of_completed hending
      have htable : before.table table = .ok stored := by
        rw [← hstored, hkept.frame, UploadStore.table, UploadStore.table]
      rw [stored.covered_full] at hall
      have hgives : Job.Gives ⟨p, catalogue, plan, table⟩ stored.rows.values (fun _ => True)
          (.after history) (p.run catalogue table .full around (.after history)).store := by
        rw [hstore, ← hall]
        exact (hkept.gives (hall ▸ stored.ascending_values)).mark table .full around.now
      intro other marked hmarked
      rw [hstore, UploadStore.table_mark_full htable] at hmarked
      by_cases hother : other = table
      · subst hother
        rw [if_pos rfl] at hmarked
        cases hmarked
        have hadded := (h other stored hstored).1
        refine ⟨?_, fun _ => ?_⟩
        · exact (hadded.concat (hadds other)).congr rfl rfl
        · obtain ⟨hid, hdescription, hrows, hsince⟩ := hadded
          rw [hdescription] at hplan
          refine .intro hid hdescription hrows ?_ rfl hplan hkept hall hkept.outcomes_eq hgives
            hstore hending
          simpa using hsince
      · rw [if_neg hother] at hmarked
        have hbefore : (UploadStore.after history).table other = .ok marked := by
          rw [← hmarked, hkept.frame, UploadStore.table, UploadStore.table]
        exact h.concat hbefore (hadds other)

/-- What a history attests it also attests with one more action. -/
theorem Attested.apply (h : Attested history (.after history)) (a : Action) :
    Attested (history ++ [a]) (.after (history ++ [a])) := by
  rw [UploadStore.after_concat]
  cases a with
  | addTable t rows now => exact h.addTable t rows now
  | setRules rules => exact h.of_tables (fun _ => id) rfl
  | setConstants constants => exact h.of_tables (fun _ => id) rfl
  | reject family => exact h.of_tables (fun _ => id) rfl
  | run p catalogue table range around => exact h.run p catalogue table range around

theorem attested_after (history : List Action) : Attested history (.after history) := by
  induction history using List.reverseRecOn with
  | nil =>
      intro table stored hstored
      cases hstored
  | append_singleton earlier a ih => exact ih.apply a

end Histories

/-! ## The main statement -/

/-- A table that is up to date holds the mark of a run. -/
theorem Statistics.lastProcessed_ne_none {statistics : Statistics}
    (h : statistics.isUpToDate = true) : statistics.lastProcessed ≠ none := by
  intro hnone
  simp [isUpToDate, hnone] at h

/-- **A table is skipped only if it was processed as a whole.** Let a store come about from the
empty one by any actions. If a table in it is marked as processed, then since it was last added
a run over the full range passed all of its rows through batches that were kept, gave to all of
them, and was completed. So a run skips only such a table, and then changes nothing; and a run
that is not completed, or not over the full range, leaves all tables with their statistics as
they were. -/
theorem skipped_only_if_processed (history : List Action) :
    let s := UploadStore.after history
    (∀ table stored, s.table table = .ok stored → stored.statistics.lastProcessed ≠ none →
      Processed table stored history) ∧
    ∀ (p : Pass) (catalogue : List ReferenceObject) (table : Int) (range : Range)
        (around : Surroundings),
      let run := p.run catalogue table range around s
      (run.ending = .ok .skipped → run.store = s ∧ run.progress = [] ∧
        ∃ stored, s.table table = .ok stored ∧ Processed table stored history) ∧
      (run.store.tables = s.tables ∨
        range = .full ∧ ∃ stand, run.ending = .ok (.completed stand)) := by
  intro s
  have hprocessed : ∀ table stored, s.table table = .ok stored →
      stored.statistics.lastProcessed ≠ none → Processed table stored history :=
    fun table stored hstored => (attested_after history table stored hstored).2
  refine ⟨hprocessed, fun p catalogue table range around => ?_⟩
  rcases p.run_cases catalogue table range around s with
    ⟨e, -, hrun⟩ | ⟨stored, hstored, hfresh, hrun⟩ | ⟨stored, plan, hstored, hplan, hrun⟩
  · rw [hrun]
    exact ⟨nofun, Or.inl rfl⟩
  · rw [hrun]
    exact ⟨fun _ => ⟨rfl, rfl, stored, hstored,
      hprocessed table stored hstored (Statistics.lastProcessed_ne_none hfresh)⟩, Or.inl rfl⟩
  · have hleaves : Job.Leaves ⟨p, catalogue, plan, table⟩ stored range around 0
        (stored.covered range) s (p.run catalogue table range around s) :=
      hrun ▸ Job.leaves_start hstored range around
    exact ⟨fun hskipped => absurd hskipped hleaves.ending_ne_skipped, hleaves.tables⟩

/-- A table of two rows in batches of one: a run that is stopped after the first batch leaves it
unmarked, a second run is completed, and a third skips it. -/
theorem skipped_after_completed_run :
    let p : Pass := ⟨⟨.constant 1.0, .onlyOneAbove 0.5, 10.0, 3⟩, .strict, 1, by decide⟩
    let run (stop : Nat → Bool) : Action := .run p [] 7 .full ⟨stop, fun _ _ => true, ⟨5, 0⟩⟩
    let added : List Action :=
      [.setRules [⟨⟨⟨.designation, ""⟩, "design"⟩, .columnName "name", 0⟩],
        .addTable ⟨7, "names", [⟨"name", .text, none, none, none, false⟩]⟩
          [⟨"a", .ofList [("name", .text "M31")]⟩, ⟨"b", .ofList [("name", .text "M33")]⟩] ⟨0, 0⟩]
    let marked (history : List Action) := ((UploadStore.after history).table 7).toOption.any
      (·.statistics.lastProcessed.isSome)
    let history := added ++ [run (· == 1), run fun _ => false]
    marked (added ++ [run (· == 1)]) = false ∧ marked history = true ∧
      ∃ stored, (UploadStore.after history).table 7 = .ok stored ∧
        Processed 7 stored history := by
  intro p run added marked history
  have hmarked : marked history = true := by decide +kernel
  refine ⟨by decide +kernel, hmarked, ?_⟩
  cases hstored : (UploadStore.after history).table 7 with
  | error e => simp [marked, hstored, Except.toOption] at hmarked
  | ok stored =>
      have hsome : stored.statistics.lastProcessed ≠ none := by
        simpa [marked, hstored, Except.toOption, Option.ne_none_iff_isSome] using hmarked
      exact ⟨stored, rfl, (skipped_only_if_processed history).1 7 stored hstored hsome⟩

end SkyCatalog
