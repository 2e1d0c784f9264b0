import SkyCatalog.Proofs.Crossmatch.Round
import SkyCatalog.Proofs.Crossmatch.Slices

/-!
# The size of batches cannot be seen

A pass that is not stopped and whose rows are all accepted comes through its range. What
it leaves is what one batch of all the rows of the range leaves (`batching_invisible`):
the number of batches follows from the number of rows, the reports are those of the
consecutive slices of the rows, and nothing else depends on the size of the batches. The
induction is on the rows that are left; `Through` is what it carries.
-/

namespace SkyCatalog

namespace Job

variable (j : Job) {range : Range} {around : Surroundings}

/-! ## Reports -/

/-- How often each outcome occurs among rows. -/
def tallyOf (rows : List Row) : Tally :=
  .ofOutcomes ((j.outcomes rows).map (·.2))

/-- The report of a batch of rows, unless there are none. -/
def report? (batch : Nat) (rows : List Row) : Option Progress :=
  rows.getLast?.map fun last =>
    ⟨batch, j.tallyOf rows, last.id, Cursor.fraction? last.id⟩

theorem tallyOf_append (a b : List Row) :
    j.tallyOf (a ++ b) = (j.tallyOf a).merge (j.tallyOf b) := by
  rw [tallyOf, outcomes_append, List.map_append, Tally.ofOutcomes_append]
  rfl

theorem ofBatch_identify {rows : List Row} (h : Ascending rows) (batch : Nat) (cursor : String) :
    Progress.ofBatch batch (j.pass.identification.identify j.catalogue (j.records rows)) cursor =
      ⟨batch, j.tallyOf rows, cursor, Cursor.fraction? cursor⟩ := by
  rw [Progress.ofBatch, Keyed.values, j.entries_identify h]
  rfl

/-! ## Coming through the rows that are left -/

/-- A run that began where a pass had come comes through all the rows that are left, in
batches of the size of the pass. -/
structure Through (range : Range) (around : Surroundings) (reached : Reached) (left : List Row)
    (s : UploadStore) (run : Run) : Prop where
  ending : run.ending = .ok (.completed
    ⟨reached.batches + sliceCount j.pass.batchSize left.length,
      reached.tally.merge (j.tallyOf left), (left.getLast?.map (·.id)).or reached.cursor⟩)
  store : run.store = mark j.table range around.now (j.settle left s)
  progress : run.progress.map some =
    (List.range (sliceCount j.pass.batchSize left.length)).map fun k =>
      j.report? (reached.batches + (k + 1)) (slice j.pass.batchSize left k)

variable {j} {reached : Reached} {s : UploadStore} {t : StoredTable}

theorem through_nil (ht : s.table j.table = .ok t) :
    j.Through range around reached [] s (finish j.table range around.now reached s) := by
  have hnone : sliceCount j.pass.batchSize 0 = 0 := sliceCount_zero j.pass.batchSize_pos
  rw [finish_of_table ht]
  refine ⟨?_, rfl, ?_⟩
  · have hzero : j.tallyOf [] = .zero := rfl
    rw [hzero, Tally.merge_zero, List.length_nil, hnone]
    rfl
  · rw [List.length_nil, hnone]
    rfl

/-- One batch first, and then through the rows after it. -/
theorem through_cons {left : List Row} {last : Row} {run : Run}
    (hlast : (j.batch left).getLast? = some last)
    (hrest : j.Through range around
      (reached.advance ⟨reached.batches + 1, j.tallyOf (j.batch left), last.id,
        Cursor.fraction? last.id⟩)
      (left.drop j.pass.batchSize) (j.settle (j.batch left) s) run) :
    j.Through range around reached left s
      { run with progress := ⟨reached.batches + 1, j.tallyOf (j.batch left), last.id,
        Cursor.fraction? last.id⟩ :: run.progress } := by
  have hsplit := j.batch_append_drop left
  have hcount : sliceCount j.pass.batchSize left.length =
      sliceCount j.pass.batchSize (left.drop j.pass.batchSize).length + 1 := by
    rw [List.length_drop]
    exact sliceCount_of_pos j.pass.batchSize_pos (Nat.zero_lt_of_lt (length_drop_lt hlast))
  refine ⟨?_, ?_, ?_⟩
  · -- the counts add up, and the cursor is that of the last batch
    have htally : (reached.tally.merge (j.tallyOf (j.batch left))).merge
        (j.tallyOf (left.drop j.pass.batchSize)) = reached.tally.merge (j.tallyOf left) := by
      rw [Tally.merge_assoc, ← tallyOf_append, hsplit]
    have hcursor : ((left.drop j.pass.batchSize).getLast?.map (·.id)).or (some last.id) =
        (left.getLast?.map (·.id)).or reached.cursor := by
      conv_rhs => rw [← hsplit, List.getLast?_append, hlast]
      cases (left.drop j.pass.batchSize).getLast? <;> rfl
    rw [hcount, ← htally, ← hcursor, hrest.ending]
    simp only [Reached.advance, Nat.add_assoc, Nat.add_comm 1]
  · rw [hrest.store, ← settle_append, hsplit]
  · -- the first slice is reported first, and then those of the rest
    have hfirst : some ⟨reached.batches + 1, j.tallyOf (j.batch left), last.id,
        Cursor.fraction? last.id⟩ =
          j.report? (reached.batches + (0 + 1)) (slice j.pass.batchSize left 0) := by
      have hslice : slice j.pass.batchSize left 0 = j.batch left := slice_zero _ _
      rw [report?, hslice, hlast]
      rfl
    rw [hcount, List.range_succ_eq_map, List.map_cons, List.map_cons, ← hfirst, hrest.progress,
      List.map_map]
    refine congrArg _ (List.map_congr_left fun k _ => ?_)
    simp only [Function.comp_apply, slice_succ, Reached.advance, Nat.succ_eq_add_one]
    congr 1
    omega

/-- All that a run over the rows that are left can come to: they are accepted and it comes
through them, it is stopped, or one of them is not accepted and it fails. -/
theorem runFrom_cases (around : Surroundings) (ht : s.table j.table = .ok t) {left : List Row}
    (hleft : t.covered ⟨reached.cursor, range.endAt⟩ = left) :
    ((∀ r ∈ left, j.Accepts s r) ∧
      j.Through range around reached left s (j.runFrom range around reached s)) ∨
    (∃ n stand, around.stop n = true ∧
      (j.runFrom range around reached s).ending = .ok (.stopped stand)) ∨
    (∃ e, (¬∀ r ∈ left, j.Accepts s r) ∧
      (j.runFrom range around reached s).ending = .error e) := by
  -- by induction on the number of rows left: a batch takes at least one of them
  induction hn : left.length using Nat.strongRecOn generalizing left reached s with
  | _ n ih =>
    cases hstop : around.stop reached.batches with
    | true => exact Or.inr (Or.inl ⟨_, reached, hstop, by rw [runFrom_of_stop hstop]⟩)
    | false =>
      rcases round_cases ht range (around.lands reached.batches) reached.cursor hleft with
        ⟨rfl, hround⟩ | ⟨last, isLast, hlast, hbatch, hshort, hround⟩ | ⟨keep, e, hnot, hround⟩
      · rw [runFrom_of_exhausted hstop hround]
        exact Or.inl ⟨by simp, through_nil ht⟩
      · have hkept : (j.settle (j.batch left) s).table j.table = .ok t := by rw [table_settle, ht]
        have hascending : Ascending (j.batch left) :=
          hleft ▸ (t.ascending_covered _).sublist (List.take_sublist _ _)
        -- the batch is accepted, so all rows are if those after it are
        have hall : (∀ r ∈ left, j.Accepts s r) ↔
            ∀ r ∈ left.drop j.pass.batchSize, j.Accepts (j.settle (j.batch left) s) r := by
          conv_lhs => rw [← j.batch_append_drop left]
          simp only [List.forall_mem_append, j.accepts_congr (j.rejected_settle _ s)]
          exact and_iff_right hbatch
        rw [runFrom_of_processed hstop hround, j.ofBatch_identify hascending, hall]
        cases isLast with
        | true =>
            -- the batch is known to be the last: the pass ends without another look
            refine Or.inl ⟨by simp [hshort rfl], through_cons hlast ?_⟩
            rw [hshort rfl]
            exact through_nil hkept
        | false =>
            let next := reached.advance ⟨reached.batches + 1, j.tallyOf (j.batch left), last.id,
              Cursor.fraction? last.id⟩
            have hnext : t.covered ⟨next.cursor, range.endAt⟩ = left.drop j.pass.batchSize :=
              covered_after_batch hleft hlast
            rcases ih _ (hn ▸ length_drop_lt hlast) hkept hnext rfl with
              ⟨haccepts, hrest⟩ | hstopped | hfailed
            · exact Or.inl ⟨haccepts, through_cons hlast hrest⟩
            · exact Or.inr (Or.inl hstopped)
            · exact Or.inr (Or.inr hfailed)
      · refine Or.inr (Or.inr ⟨e, fun haccepts => ?_, by rw [runFrom_of_failed hstop hround]⟩)
        exact hnot fun r hr => haccepts r (mem_of_mem_batch hr)

/-- A pass that is not stopped comes through the rows that are left if it accepts them
all. -/
theorem through_runFrom (hstop : ∀ n, around.stop n = false) (ht : s.table j.table = .ok t)
    {left : List Row} (hleft : t.covered ⟨reached.cursor, range.endAt⟩ = left)
    (haccepts : ∀ r ∈ left, j.Accepts s r) :
    j.Through range around reached left s (j.runFrom range around reached s) := by
  rcases runFrom_cases around ht hleft with ⟨-, hthrough⟩ | ⟨n, -, hn, -⟩ | ⟨-, hnot, -⟩
  · exact hthrough
  · exact absurd hn (by simp [hstop n])
  · exact absurd haccepts hnot

/-- A pass that is not stopped fails if one of the rows that are left is not accepted. -/
theorem runFrom_of_not_accepts (hstop : ∀ n, around.stop n = false)
    (ht : s.table j.table = .ok t) {left : List Row}
    (hleft : t.covered ⟨reached.cursor, range.endAt⟩ = left)
    (hnot : ¬∀ r ∈ left, j.Accepts s r) :
    ∃ e, (j.runFrom range around reached s).ending = .error e := by
  rcases runFrom_cases around ht hleft with ⟨haccepts, -⟩ | ⟨n, -, hn, -⟩ | ⟨e, -, he⟩
  · exact absurd haccepts hnot
  · exact absurd hn (by simp [hstop n])
  · exact ⟨e, he⟩

/-- A run that is completed has come through the rows that were left, and accepted them. -/
theorem through_of_completed (ht : s.table j.table = .ok t) {left : List Row}
    (hleft : t.covered ⟨reached.cursor, range.endAt⟩ = left) {stand : Reached}
    (h : (j.runFrom range around reached s).ending = .ok (.completed stand)) :
    (∀ r ∈ left, j.Accepts s r) ∧
      j.Through range around reached left s (j.runFrom range around reached s) := by
  rcases runFrom_cases around ht hleft with hthrough | ⟨_, _, -, hstopped⟩ | ⟨_, -, hfailed⟩
  · exact hthrough
  · rw [hstopped] at h
    cases h
  · rw [hfailed] at h
    cases h

/-! ## The whole pass -/

/-- A run over rows in batches of a size does what one batch of all the rows does, which
turns the store `s` into `whole` and gives `outcomes`. -/
structure AsOneBatch (size : Nat) (range : Range) (rows : List Row) (s whole : UploadStore)
    (outcomes : Keyed String Outcome) (run : Run) : Prop where
  /-- The run comes to the end of the range; it counts the batches and the outcomes, and the
  last row is where it stands. -/
  ending : run.ending = .ok (.completed ⟨sliceCount size rows.length,
    .ofOutcomes outcomes.values, (rows.getLast?.map (·.id)).or range.startAfter⟩)
  outcomes_eq : run.store.outcomes = whole.outcomes
  data_eq : run.store.data = whole.data
  ascending : Ascending rows
  /-- Each row lies in one slice, … -/
  slices : (List.range (sliceCount size rows.length)).flatMap (slice size rows) = rows
  /-- … and each slice is reported once, with the outcomes of its rows. -/
  progress : run.progress.map some = (List.range (sliceCount size rows.length)).map fun k =>
    (slice size rows k).getLast?.map fun last =>
      ⟨k + 1, .ofOutcomes ((slice size rows k).filterMap fun r => outcomes.get? r.id), last.id,
        Cursor.fraction? last.id⟩
  tally_sum : (run.progress.map (·.tally)).foldl Tally.merge .zero = .ofOutcomes outcomes.values
  outside : ∀ id, range.covers id = false →
    run.store.outcomes.get? id = s.outcomes.get? id ∧ ∀ table family,
      (run.store.dataOf table family).get? id = (s.dataOf table family).get? id

/-- The outcomes in a slice of ascending rows, read from those of all rows. -/
theorem tallyOf_slice {rows : List Row} (h : Ascending rows) (size k : Nat) :
    j.tallyOf (slice size rows k) = .ofOutcomes ((slice size rows k).filterMap fun r =>
      (j.pass.identification.identify j.catalogue (j.records rows)).get? r.id) := by
  have hmem : ∀ r ∈ slice size rows k, r ∈ rows :=
    fun r hr => List.mem_of_mem_drop (List.mem_of_mem_take hr)
  rw [tallyOf, outcomes, List.map_filterMap]
  refine congrArg _ (List.filterMap_congr fun r hr => ?_)
  rw [j.get?_identify_records h (hmem r hr), Option.map_map]
  exact Option.map_id_apply

/-- The tallies of the slices sum up to the tally of all rows. -/
theorem foldl_merge_tallyOf {size : Nat} (h : 0 < size) (rows : List Row) :
    ((List.range (sliceCount size rows.length)).map fun k =>
      j.tallyOf (slice size rows k)).foldl Tally.merge .zero = j.tallyOf rows := by
  have hfold : ∀ (l : List (List Row)) (tally : Tally),
      (l.map j.tallyOf).foldl Tally.merge tally = tally.merge (j.tallyOf l.flatten) := by
    intro l
    induction l with
    | nil => exact fun tally => (Tally.merge_zero tally).symm
    | cons rows rest ih =>
        intro tally
        rw [List.map_cons, List.foldl_cons, ih, List.flatten_cons, tallyOf_append,
          Tally.merge_assoc]
  have hslices := hfold ((List.range (sliceCount size rows.length)).map (slice size rows)) .zero
  rw [List.map_map, ← List.flatMap_def, flatMap_slice h, Tally.zero_merge] at hslices
  exact hslices

/-- The tallies that are reported are those of the slices. -/
theorem Through.tallies {left : List Row} {run : Run}
    (h : j.Through range around reached left s run) :
    run.progress.map (·.tally) =
      (List.range (sliceCount j.pass.batchSize left.length)).map fun k =>
        j.tallyOf (slice j.pass.batchSize left k) := by
  refine List.map_injective_iff.mpr (Option.some_injective Tally) ?_
  -- no slice is empty, and so each has a report
  have hreports := congrArg (List.map (Option.map Progress.tally)) h.progress
  simp only [List.map_map, Function.comp_def, Option.map_some] at hreports ⊢
  rw [hreports]
  refine List.map_congr_left fun k hk => ?_
  have hne := slice_ne_nil j.pass.batchSize_pos (List.mem_range.mp hk)
  rw [report?, List.getLast?_eq_some_getLast hne]
  rfl

/-- A run that comes through all rows of a range does what one batch of them does. -/
theorem Through.asOneBatch {rows : List Row} {run : Run}
    (hrows : t.covered range = rows)
    (h : j.Through range around (.start range) rows s run) :
    AsOneBatch j.pass.batchSize range rows s (j.settle rows s)
      (j.pass.identification.identify j.catalogue (j.records rows)) run := by
  have hascending : Ascending rows := hrows ▸ t.ascending_covered range
  have htally : j.tallyOf rows =
      .ofOutcomes (j.pass.identification.identify j.catalogue (j.records rows)).values := by
    rw [tallyOf, Keyed.values, j.entries_identify hascending]
  refine ⟨?_, ?_, ?_, hascending, flatMap_slice j.pass.batchSize_pos rows, ?_, ?_, ?_⟩
  · rw [h.ending, ← htally]
    simp only [Reached.start, Tally.zero_merge, Nat.zero_add]
  · rw [h.store, outcomes_mark]
  · rw [h.store, data_mark]
  · rw [h.progress]
    refine List.map_congr_left fun k _ => ?_
    rw [report?, j.tallyOf_slice hascending]
    simp only [Reached.start, Nat.zero_add]
  · rw [h.tallies, foldl_merge_tallyOf j.pass.batchSize_pos, htally]
  · intro id hid
    have hne : ∀ r ∈ rows, r.id ≠ id := by
      rintro r hr rfl
      rw [← hrows] at hr
      simp [(t.mem_covered.mp hr).2] at hid
    simp only [h.store, outcomes_mark, dataOf_mark]
    exact get?_settle_of_forall_ne hne s

end Job

namespace Pass

/-- **The size of the batches cannot be seen.** A pass over a table that is not up to date,
and that nobody stops, goes through exactly if one batch of all the rows of its range would,
and then leaves the outcomes, the data and the counts of that one batch. Batches of no row
count as batches of one. -/
theorem batching_invisible (p : Pass) (catalogue : List ReferenceObject) {table : Int}
    {range : Range} {around : Surroundings} {s : UploadStore} {stored : StoredTable} {plan : Plan}
    (htable : s.table table = .ok stored) (hstale : stored.statistics.isUpToDate = false)
    (hplan : Plan.resolve s.rules s.constants stored.table = .ok plan)
    (hstop : ∀ n, around.stop n = false) (size : Nat) (lands : Family → Bool) :
    let whole := (Job.mk p catalogue plan table).runBatch lands (stored.covered range) s
    let run := (p.withBatchSize size).run catalogue table range around s
    ((∀ e, run.ending ≠ .error e) ↔ ∃ outcomes, whole.2 = .ok outcomes) ∧
      ∀ outcomes, whole.2 = .ok outcomes →
        Job.AsOneBatch (max 1 size) range (stored.covered range) s whole.1 outcomes run := by
  intro whole run
  let j : Job := ⟨p.withBatchSize size, catalogue, plan, table⟩
  have hascending := stored.ascending_covered range
  have hwhole : whole = j.runBatch lands (stored.covered range) s := rfl
  have hrun : run = j.runFrom range around (.start range) s := by
    simp only [run, Pass.run, htable, hstale, hplan, Bool.false_eq_true, if_false]
    rfl
  have hcovered : stored.covered ⟨(Reached.start range).cursor, range.endAt⟩ =
      stored.covered range := rfl
  rw [hrun, hwhole, j.runBatch_isOk_iff hascending lands]
  refine ⟨⟨?_, ?_⟩, ?_⟩
  · -- a row that is not accepted would make the pass fail
    intro hending
    by_contra hnot
    obtain ⟨e, he⟩ := Job.runFrom_of_not_accepts hstop htable hcovered hnot
    exact hending e he
  · intro haccepts e he
    have hthrough := Job.through_runFrom hstop htable hcovered haccepts
    rw [hthrough.ending] at he
    cases he
  · intro outcomes hok
    have haccepts := (j.runBatch_isOk_iff hascending lands).mp ⟨outcomes, hok⟩
    rw [j.runBatch_eq_settle hascending haccepts] at hok ⊢
    cases hok
    exact (Job.through_runFrom hstop htable hcovered haccepts).asOneBatch rfl

/-- Three rows, one without a name, in batches of two and of three. -/
theorem batching_invisible_three_rows :
    let p : Pass := ⟨⟨.constant 1.0, .onlyOneAbove 0.5, 10.0, 3⟩, .strict, 1, by decide⟩
    let named : ColumnFilter := .columnName "name"
    let s := (UploadStore.empty.setRules [⟨⟨⟨.designation, ""⟩, "design"⟩, named, 0⟩]).addTable
      ⟨7, "names", [⟨"name", .text, none, none, none, false⟩]⟩
      [⟨"c", .ofList [("name", .text "M33")]⟩, ⟨"a", .ofList [("name", .text "M31")]⟩,
        ⟨"b", .empty⟩] ⟨0, 0⟩
    let run (size : Nat) := (p.withBatchSize size).run [⟨9, [.designation ⟨"M33"⟩]⟩] 7 .full
      ⟨fun _ => false, fun _ _ => true, ⟨5, 0⟩⟩ s
    (run 2).store.outcomes = (run 3).store.outcomes ∧
      (run 2).progress.map (·.cursor) = ["b", "c"] ∧ (run 3).progress.map (·.cursor) = ["c"] ∧
      (run 2).store.outcomes.entries.map (fun e => (e.1, e.2.text)) =
        [("a", "collision([])"), ("c", "existing(9)")] := by
  intro p named s run
  refine ⟨?_, by decide +kernel, by decide +kernel, by decide +kernel⟩
  obtain ⟨stored, htable, hstale, hresolved⟩ : ∃ stored, s.table 7 = .ok stored ∧
      stored.statistics.isUpToDate = false ∧
      (Plan.resolve s.rules s.constants stored.table).isOk = true :=
    ⟨_, rfl, by decide +kernel, by decide +kernel⟩
  have hruns : ∀ e, (run 2).ending ≠ .error e := by
    intro e he
    have hok : (run 2).ending.isOk = true := by decide +kernel
    rw [he] at hok
    cases hok
  cases hplan : Plan.resolve s.rules s.constants stored.table with
  | error e => simp [hplan, Except.isOk, Except.toBool] at hresolved
  | ok plan =>
      have hall := @batching_invisible p [⟨9, [.designation ⟨"M33"⟩]⟩] 7 .full
        ⟨fun _ => false, fun _ _ => true, ⟨5, 0⟩⟩ s stored plan htable hstale hplan fun _ => rfl
      obtain ⟨outcomes, hok⟩ := (hall 2 fun _ => true).1.mp hruns
      rw [((hall 2 fun _ => true).2 outcomes hok).outcomes_eq,
        ((hall 3 fun _ => true).2 outcomes hok).outcomes_eq]

end Pass

end SkyCatalog
