import SkyCatalog.Proofs.Crossmatch.Given
import SkyCatalog.Proofs.Crossmatch.Slices

/-!
# What a failed pass leaves

A pass fails before it fetches a row, and then leaves the store as it was, or it fails at a
batch. The batches before that one are kept one after the other, each as a whole (`Commits`),
and each is reported. The batch that fails leaves no outcome: in strict conversion a row of it
may not be converted, and nothing of it is kept; or the store refuses a family of its data,
and at most data of other families are kept, under the identifiers of its rows
(`BatchFails`). The main statement is `failed_run_keeps_whole_batches`; the induction behind it
is on the rows that are left (`failsAfter_runFrom`).
-/

namespace SkyCatalog

namespace Job

/-- A batch that was kept as a whole, with what its records turned out to be. -/
structure Commit where
  rows : List Row
  outcomes : Keyed String Outcome

/-- The report of a batch; a batch without rows has none. -/
def Commit.report? (c : Commit) (batch : Nat) : Option Progress :=
  c.rows.getLast?.map fun last => .ofBatch batch c.outcomes last.id

/-- Batches go through one after the other. `n` batches were kept before the first of them. -/
inductive Commits (j : Job) (lands : Nat → Family → Bool) :
    Nat → UploadStore → List Commit → UploadStore → Prop where
  | nil (n : Nat) (s : UploadStore) : Commits j lands n s [] s
  | cons {n : Nat} {s kept s' : UploadStore} {c : Commit} {rest : List Commit}
      (first : j.runBatch (lands n) c.rows s = (kept, .ok c.outcomes))
      (later : Commits j lands (n + 1) kept rest s') : Commits j lands n s (c :: rest) s'

/-- How a batch can fail, and what it then leaves of the store `s`. -/
inductive BatchFails (j : Job) (rows : List Row) (s kept : UploadStore) : PassError → Prop where
  /-- A row is not converted; nothing is kept. -/
  | notConverted {e : ConstructionError} (strict : j.pass.strictness = .strict)
      (failure : j.plan.apply .strict rows = .error e) (unchanged : kept = s) :
      BatchFails j rows s kept (.construction e)
  /-- A family that the batch has data of is refused; what is kept are data of other
  families. -/
  | refused {f : Family} (rejected : s.rejected = some f)
      (attempted : ∃ r ∈ rows, j.dataOf f r ≠ [])
      (frame : kept = { s with data := kept.data })
      (changed : ∀ t g id, (kept.dataOf t g).get? id ≠ (s.dataOf t g).get? id →
        t = j.table ∧ g ≠ f ∧ ∃ r ∈ rows, r.id = id) :
      BatchFails j rows s kept (.store (.writesRejected f))

variable {j : Job}

/-! ## One batch -/

/-- A batch that goes through adds its outcomes, and changes nothing else but data. -/
theorem frame_of_runBatch_ok {lands : Family → Bool} {rows : List Row} {s kept : UploadStore}
    {outcomes : Keyed String Outcome} (h : j.runBatch lands rows s = (kept, .ok outcomes)) :
    kept = { s with data := kept.data, outcomes := s.outcomes.putAll outcomes.entries } := by
  unfold runBatch at h
  cases happly : j.plan.apply j.pass.strictness rows with
  | error e => simp [happly] at h
  | ok records =>
      by_cases htake : ∀ r ∈ records, Takes s r
      · simp only [happly, keepData_of_takes htake, Prod.mk.injEq, Except.ok.injEq] at h
        obtain ⟨rfl, rfl⟩ := h
        rw [foldl_keepPiece_frame fun piece => placed_of_mem_pieces]
        rfl
      · -- a family is refused, and the batch does not go through
        obtain ⟨f, -, hkeep⟩ := keepData_of_refused htake j.table lands
        simp [happly, hkeep] at h

/-- Keeping some of the data of a batch changes only data under the identifiers of its rows. -/
theorem mem_of_get?_foldl_keepPiece_ne {s : UploadStore} {rows : List Row} {keep : Family → Bool}
    {t : Int} {g : Family} {id : String}
    (h : ((((pieces (j.records rows)).filter fun piece => keep piece.1).foldl
      (keepPiece j.table) s).dataOf t g).get? id ≠ (s.dataOf t g).get? id) :
    t = j.table ∧ s.rejected ≠ some g ∧ ∃ r ∈ rows, r.id = id := by
  rw [dataOf_foldl_keepPiece_filter] at h
  by_cases hkept : t = j.table ∧ s.rejected ≠ some g ∧ keep g = true
  · rw [if_pos hkept, familyData_records] at h
    refine ⟨hkept.1, hkept.2.1, ?_⟩
    by_contra hnone
    have hne : ∀ r ∈ rows, r.id ≠ id := fun r hr hid => hnone ⟨r, hr, hid⟩
    exact h (get?_putAll_byRow_of_forall_ne hne _)
  · rw [if_neg hkept] at h
    exact absurd rfl h

/-- A batch fails in one of two ways. -/
theorem batchFails_of_runBatch {lands : Family → Bool} {rows : List Row} {s kept : UploadStore}
    {e : PassError} (h : j.runBatch lands rows s = (kept, .error e)) :
    j.BatchFails rows s kept e := by
  unfold runBatch at h
  cases happly : j.plan.apply j.pass.strictness rows with
  | error c =>
      simp only [happly, Prod.mk.injEq, Except.error.injEq] at h
      obtain ⟨rfl, rfl⟩ := h
      cases hstrict : j.pass.strictness with
      | lenient =>
          rw [hstrict, Plan.apply_lenient] at happly
          cases happly
      | strict =>
          rw [hstrict] at happly
          exact .notConverted hstrict happly rfl
  | ok records =>
      have hrecords : records = j.records rows := by
        have hconvert := (j.plan.apply_isOk_iff j.pass.strictness).mp ⟨records, happly⟩
        rw [j.plan.apply_eq_ok j.pass.strictness hconvert] at happly
        cases happly
        rfl
      subst hrecords
      by_cases htake : ∀ r ∈ j.records rows, Takes s r
      · simp [happly, keepData_of_takes htake] at h
      · obtain ⟨f, hrejected, hkeep⟩ := keepData_of_refused htake j.table lands
        simp only [happly, hkeep, Prod.mk.injEq, Except.error.injEq] at h
        obtain ⟨rfl, rfl⟩ := h
        refine .refused hrejected ?_ ?_ ?_
        · -- the family is refused only because a record holds data of it
          simp only [Takes, not_forall, not_not] at htake
          obtain ⟨record, hrecord, d, hd, hfamily⟩ := htake
          obtain ⟨r, hr, hyield⟩ := List.mem_filterMap.mp hrecord
          have hf : d.family = f := by simpa [hrejected] using hfamily.symm
          refine ⟨r, hr, List.ne_nil_of_mem (a := d) ?_⟩
          rw [dataOf, hyield]
          simpa using ⟨hd, hf⟩
        · exact foldl_keepPiece_frame
            (fun piece hpiece => placed_of_mem_pieces (List.mem_filter.mp hpiece).1) s
        · intro t g id hne
          obtain ⟨ht, hg, hid⟩ := mem_of_get?_foldl_keepPiece_ne hne
          refine ⟨ht, ?_, hid⟩
          rintro rfl
          exact hg hrejected

/-! ## The batches before the one that fails -/

section Commits

variable {lands : Nat → Family → Bool} {n : Nat} {s s' : UploadStore} {commits : List Commit}

/-- The outcomes that batches leave are those that were there before, with those of each batch
added in turn. -/
theorem Commits.outcomes_eq (h : j.Commits lands n s commits s') :
    s'.outcomes = commits.foldl (fun kept c => kept.putAll c.outcomes.entries) s.outcomes := by
  induction h with
  | nil n s => rfl
  | cons first later ih =>
      rw [List.foldl_cons, ih, frame_of_runBatch_ok first]

/-- Batches of ascending rows that went through one after the other accepted all of their rows,
and leave what one batch of these rows leaves. -/
theorem Commits.eq_settle (h : j.Commits lands n s commits s')
    (hrows : Ascending (commits.flatMap (·.rows))) :
    (∀ r ∈ commits.flatMap (·.rows), j.Accepts s r) ∧
      s' = j.settle (commits.flatMap (·.rows)) s := by
  induction h with
  | nil n s => exact ⟨by simp, rfl⟩
  | @cons n s kept s' c rest first later ih =>
      rw [List.flatMap_cons] at hrows ⊢
      obtain ⟨hfirst, hrest, -⟩ := List.pairwise_append.mp hrows
      have haccepts : ∀ r ∈ c.rows, j.Accepts s r :=
        (j.runBatch_isOk_iff hfirst (lands n)).mp ⟨c.outcomes, by rw [first]⟩
      obtain rfl : j.settle c.rows s = kept := by
        rw [j.runBatch_eq_settle hfirst haccepts] at first
        exact congrArg Prod.fst first
      obtain ⟨hlater, rfl⟩ := ih hrest
      refine ⟨fun r hr => ?_, (j.settle_append _ _ _).symm⟩
      rcases List.mem_append.mp hr with hr | hr
      · exact haccepts r hr
      · exact (j.accepts_congr (j.rejected_settle _ _) r).mp (hlater r hr)

/-- What such batches give. -/
theorem Commits.gives (h : j.Commits lands n s commits s')
    (hrows : Ascending (commits.flatMap (·.rows))) :
    j.Gives (commits.flatMap (·.rows)) (fun _ => True) s s' := by
  obtain ⟨haccepts, rfl⟩ := h.eq_settle hrows
  exact gives_settle_of_accepts hrows haccepts

/-- Batches change data and outcomes only. -/
theorem Commits.frame (h : j.Commits lands n s commits s') :
    s' = { s with data := s'.data, outcomes := s'.outcomes } := by
  induction h with
  | nil n s => rfl
  | cons first later ih =>
      rw [ih, frame_of_runBatch_ok first]

end Commits

/-- A batch that fails changes data only. -/
theorem BatchFails.frame {rows : List Row} {s kept : UploadStore} {e : PassError}
    (h : j.BatchFails rows s kept e) : kept = { s with data := kept.data } := by
  cases h with
  | notConverted _ _ unchanged => rw [unchanged]
  | refused _ _ frame _ => exact frame

/-! ## The whole pass -/

/-- A run that had come through `n` batches fails at a batch of the rows that are left. The
batches before it are the first slices of these rows; they are kept as a whole and reported.
The batch that fails is the next slice. -/
structure FailsAfter (j : Job) (lands : Nat → Family → Bool) (n : Nat) (left : List Row)
    (s : UploadStore) (commits : List Commit) (run : Run) (e : PassError) : Prop where
  slices : commits.map (·.rows) = (List.range commits.length).map (slice j.pass.batchSize left)
  reports : run.progress.map some = commits.mapIdx fun k c => c.report? (n + (k + 1))
  /-- There is a batch left, … -/
  rest_ne_nil : slice j.pass.batchSize left commits.length ≠ []
  /-- … and it fails in the store that the others leave. -/
  failure : ∃ before, j.Commits lands n s commits before ∧
    j.BatchFails (slice j.pass.batchSize left commits.length) before run.store e

section FailsAfter

variable {range : Range} {around : Surroundings} {reached : Reached} {s kept : UploadStore}
  {t : StoredTable} {left : List Row} {commits : List Commit} {run : Run} {e : PassError} {n : Nat}

/-- A failed run keeps the outcomes of the batches that went through, and no others. -/
theorem FailsAfter.outcomes_eq (h : j.FailsAfter around.lands n left s commits run e) :
    run.store.outcomes =
      commits.foldl (fun kept c => kept.putAll c.outcomes.entries) s.outcomes := by
  obtain ⟨before, hcommits, hfails⟩ := h.failure
  rw [hfails.frame, ← hcommits.outcomes_eq]

/-- A failed run changes data and outcomes only. -/
theorem FailsAfter.frame (h : j.FailsAfter around.lands n left s commits run e) :
    run.store = { s with data := run.store.data, outcomes := run.store.outcomes } := by
  obtain ⟨before, hcommits, hfails⟩ := h.failure
  rw [hfails.frame, hcommits.frame]

/-- The first batch of the rows that are left fails. -/
theorem failsAfter_nil (hne : j.batch left ≠ [])
    (h : j.runBatch (around.lands n) (j.batch left) s = (kept, .error e)) :
    j.FailsAfter around.lands n left s [] ⟨kept, [], .error e⟩ e := by
  have hslice : slice j.pass.batchSize left 0 = j.batch left := slice_zero _ _
  refine ⟨rfl, rfl, ?_, s, .nil n s, ?_⟩
  · rw [List.length_nil, hslice]
    exact hne
  · rw [List.length_nil, hslice]
    exact batchFails_of_runBatch h

/-- The first batch goes through, and one of the rows after it fails. -/
theorem failsAfter_cons {last : Row} {outcomes : Keyed String Outcome}
    (hlast : (j.batch left).getLast? = some last)
    (h : j.runBatch (around.lands n) (j.batch left) s = (kept, .ok outcomes))
    (hrest : j.FailsAfter around.lands (n + 1) (left.drop j.pass.batchSize) kept commits run e) :
    j.FailsAfter around.lands n left s (⟨j.batch left, outcomes⟩ :: commits)
      { run with progress := .ofBatch (n + 1) outcomes last.id :: run.progress } e := by
  have hslice : slice j.pass.batchSize left 0 = j.batch left := slice_zero _ _
  -- the slices of the rows behind the batch are the later slices of all rows
  have hlater : ∀ k, slice j.pass.batchSize left (k + 1) =
      slice j.pass.batchSize (left.drop j.pass.batchSize) k := slice_succ _ _
  refine ⟨?_, ?_, ?_, ?_⟩
  · rw [List.map_cons, List.length_cons, List.range_succ_eq_map, List.map_cons, hslice,
      List.map_map, hrest.slices]
    refine congrArg _ (List.map_congr_left fun k _ => ?_)
    exact (hlater k).symm
  · rw [List.map_cons, List.mapIdx_cons, hrest.reports]
    refine congrArg₂ _ ?_ ?_
    · rw [Commit.report?, hlast]
      rfl
    · refine congrArg (fun f => List.mapIdx f commits) (funext fun k => funext fun c => ?_)
      congr 1
      omega
  · rw [List.length_cons, hlater]
    exact hrest.rest_ne_nil
  · obtain ⟨before, hcommits, hfails⟩ := hrest.failure
    refine ⟨before, .cons h hcommits, ?_⟩
    rw [List.length_cons, hlater]
    exact hfails

/-- A run that fails does so at a batch, with all batches before it kept. -/
theorem failsAfter_runFrom (ht : s.table j.table = .ok t)
    (hleft : t.covered ⟨reached.cursor, range.endAt⟩ = left)
    (h : (j.runFrom range around reached s).ending = .error e) :
    ∃ commits, j.FailsAfter around.lands reached.batches left s commits
      (j.runFrom range around reached s) e := by
  -- by induction on the number of rows left: a batch takes at least one of them
  induction hn : left.length using Nat.strongRecOn generalizing left reached s with
  | _ m ih =>
    cases hstop : around.stop reached.batches with
    | true =>
        -- a pass that is stopped does not fail
        rw [runFrom_of_stop hstop] at h
        cases h
    | false =>
        rcases round_cases ht range (around.lands reached.batches) reached.cursor hleft with
          ⟨rfl, hround⟩ | ⟨last, isLast, hlast, haccepts, hshort, hround⟩ |
            ⟨keep, e', hnot, hround⟩
        · -- nor does one that has come to the end of its range
          rw [runFrom_of_exhausted hstop hround, finish_of_table ht] at h
          cases h
        · have hascending : Ascending (j.batch left) :=
            hleft ▸ (t.ascending_covered _).sublist (List.take_sublist _ _)
          have hbatch := j.runBatch_eq_settle hascending haccepts (around.lands reached.batches)
          have hkept : (j.settle (j.batch left) s).table j.table = .ok t := by
            rw [table_settle, ht]
          rw [runFrom_of_processed hstop hround] at h ⊢
          cases isLast with
          | true =>
              simp only [if_true, finish_of_table hkept] at h
              cases h
          | false =>
              obtain ⟨commits, hrest⟩ := ih _ (hn ▸ length_drop_lt hlast) hkept
                (covered_after_batch hleft hlast) h rfl
              exact ⟨_, failsAfter_cons hlast hbatch hrest⟩
        · obtain ⟨hne, hbatch⟩ := runBatch_of_round_failed ht hleft hround
          rw [runFrom_of_failed hstop hround] at h ⊢
          cases h
          exact ⟨[], failsAfter_nil hne hbatch⟩

end FailsAfter

end Job

namespace Pass

/-- A pass cannot begin: the table is not there, or no plan can be made for it. -/
inductive CannotBegin (s : UploadStore) (table : Int) : PassError → Prop where
  | noTable {e : StoreError} (missing : s.table table = .error e) :
      CannotBegin s table (.store e)
  | noPlan {stored : StoredTable} {e : ConversionError} (found : s.table table = .ok stored)
      (unresolved : Plan.resolve s.rules s.constants stored.table = .error e) :
      CannotBegin s table (.conversion e)

/-- **A failed pass leaves only whole batches identified.** It leaves the tables with their
statistics, the rules and the constants as they were. If it cannot begin it leaves the whole
store as it was and reports nothing. Otherwise it fails at a batch: the outcomes that are added
are exactly those of the batches before it, which are the batches that were reported. If a row
of the batch that fails is not converted, nothing of that batch is kept; if a family of its data
is refused, at most data under the identifiers of its rows are. -/
theorem failed_run_keeps_whole_batches (p : Pass) (catalogue : List ReferenceObject) (table : Int)
    (range : Range) (around : Surroundings) (s : UploadStore) {e : PassError}
    (h : (p.run catalogue table range around s).ending = .error e) :
    let run := p.run catalogue table range around s
    run.store = { s with data := run.store.data, outcomes := run.store.outcomes } ∧
      ((CannotBegin s table e ∧ run.store = s ∧ run.progress = []) ∨
        ∃ stored plan commits, s.table table = .ok stored ∧
          Plan.resolve s.rules s.constants stored.table = .ok plan ∧
          run.store.outcomes =
            commits.foldl (fun kept c => kept.putAll c.outcomes.entries) s.outcomes ∧
          Job.FailsAfter ⟨p, catalogue, plan, table⟩ around.lands 0 (stored.covered range) s commits
            run e) := by
  intro run
  cases htable : s.table table with
  | error e' =>
      have hrun : run = ⟨s, [], .error (.store e')⟩ := by simp only [run, Pass.run, htable]
      have hending : run.ending = .error e := h
      rw [hrun] at hending ⊢
      cases hending
      exact ⟨rfl, Or.inl ⟨.noTable htable, rfl, rfl⟩⟩
  | ok stored =>
      cases hstale : stored.statistics.isUpToDate with
      | true => simp [Pass.run, htable, hstale] at h
      | false =>
          cases hplan : Plan.resolve s.rules s.constants stored.table with
          | error c =>
              have hrun : run = ⟨s, [], .error (.conversion c)⟩ := by
                simp only [run, Pass.run, htable, hstale, hplan, Bool.false_eq_true, if_false]
              have hending : run.ending = .error e := h
              rw [hrun] at hending ⊢
              cases hending
              exact ⟨rfl, Or.inl ⟨.noPlan htable hplan, rfl, rfl⟩⟩
          | ok plan =>
              let j : Job := ⟨p, catalogue, plan, table⟩
              have hrun : run = j.runFrom range around (.start range) s := by
                simp only [run, Pass.run, htable, hstale, hplan, Bool.false_eq_true, if_false]
                rfl
              have hending : (j.runFrom range around (.start range) s).ending = .error e := by
                rw [← hrun]
                exact h
              have hcovered : stored.covered ⟨(Reached.start range).cursor, range.endAt⟩ =
                  stored.covered range := rfl
              obtain ⟨commits, hfails⟩ := Job.failsAfter_runFrom htable hcovered hending
              rw [← hrun] at hfails
              exact ⟨hfails.frame, Or.inr ⟨stored, plan, commits, rfl, hplan, hfails.outcomes_eq,
                hfails⟩⟩

/-- Two batches of one row, the second of which has a velocity that is no number. -/
theorem failed_run_keeps_whole_batches_second_of_two :
    let p : Pass := ⟨⟨.constant 1.0, .onlyOneAbove 0.5, 10.0, 3⟩, .strict, 1, by decide⟩
    let s := (UploadStore.empty.setRules
      [⟨⟨⟨.designation, ""⟩, "design"⟩, .columnName "name", 0⟩,
        ⟨⟨⟨.redshift, ""⟩, "cz"⟩, .columnName "speed", 0⟩]).addTable
      ⟨7, "names", [⟨"name", .text, none, none, none, false⟩,
        ⟨"speed", .text, none, none, none, false⟩]⟩
      [⟨"a", .ofList [("name", .text "M31")]⟩,
        ⟨"b", .ofList [("name", .text "M33"), ("speed", .text "fast")]⟩] ⟨0, 0⟩
    let run := p.run [⟨9, [.designation ⟨"M31"⟩]⟩] 7 .full
      ⟨fun _ => false, fun _ _ => true, ⟨5, 0⟩⟩ s
    run.ending.isOk = false ∧ run.progress.map (·.cursor) = ["a"] ∧
      run.store.outcomes.keys = ["a"] ∧ (run.store.dataOf 7 .designation).keys = ["a"] ∧
      ∃ commits : List Job.Commit, commits.length = 1 ∧ run.store.outcomes =
        commits.foldl (fun kept c => kept.putAll c.outcomes.entries) s.outcomes := by
  intro p s run
  have hfails : run.ending.isOk = false := by decide +kernel
  have hreported : run.progress.map (·.cursor) = ["a"] := by decide +kernel
  refine ⟨hfails, hreported, by decide +kernel, by decide +kernel, ?_⟩
  cases hending : run.ending with
  | ok ending => simp [hending, Except.isOk, Except.toBool] at hfails
  | error e =>
      have hlength : run.progress.length = 1 := by simpa using congrArg List.length hreported
      rcases (failed_run_keeps_whole_batches p _ 7 .full _ s hending).2 with
        ⟨-, -, hnone⟩ | ⟨stored, plan, commits, -, -, houtcomes, hafter⟩
      · -- a pass that cannot begin reports nothing
        have hnil : run.progress = [] := hnone
        simp [hnil] at hlength
      · have hcommits := congrArg List.length hafter.reports
        simp only [List.length_map, List.length_mapIdx] at hcommits
        exact ⟨commits, hcommits ▸ hlength, houtcomes⟩

end Pass

end SkyCatalog
