import SkyCatalog.Proofs.Crossmatch.Batch

/-!
# What one round of a pass does

A round fetches the rows after the cursor and processes those that lie in the range.
`round_cases` lists all that it can come to, in terms of the rows that are left, that is
of the rows that the range from the cursor on covers. The equations of `runFrom` say how
a pass goes on from there.
-/

namespace SkyCatalog.Job

variable {j : Job} {range : Range}

/-- The rows of a batch when `left` are left. -/
def batch (j : Job) (left : List Row) : List Row :=
  left.take j.pass.batchSize

theorem batch_append_drop (j : Job) (left : List Row) :
    j.batch left ++ left.drop j.pass.batchSize = left :=
  List.take_append_drop _ _

theorem batch_ne_nil {left : List Row} (h : left ≠ []) : j.batch left ≠ [] := by
  have hpos := j.pass.batchSize_pos
  simp only [batch, ne_eq, List.take_eq_nil_iff, not_or]
  exact ⟨by omega, h⟩

theorem mem_of_mem_batch {left : List Row} {r : Row} (h : r ∈ j.batch left) : r ∈ left :=
  List.mem_of_mem_take h

theorem length_drop_lt {left : List Row} {last : Row}
    (h : (j.batch left).getLast? = some last) :
    (left.drop j.pass.batchSize).length < left.length := by
  have hpos := j.pass.batchSize_pos
  have hlength : 0 < left.length :=
    List.length_pos_of_mem (mem_of_mem_batch (List.mem_of_getLast? h))
  rw [List.length_drop]
  omega

/-- Behind the last row of a batch are the rows that it left. -/
theorem covered_after_batch {t : StoredTable} {cursor : Option String} {left : List Row}
    {last : Row} (hleft : t.covered ⟨cursor, range.endAt⟩ = left)
    (h : (j.batch left).getLast? = some last) :
    t.covered ⟨some last.id, range.endAt⟩ = left.drop j.pass.batchSize := by
  rw [← hleft] at h ⊢
  exact t.covered_after_take h

/-- What is fetched after a cursor: the rows of it that lie in the range are the next batch. -/
theorem exists_fetched {s : UploadStore} {t : StoredTable} (ht : s.table j.table = .ok t)
    (range : Range) (cursor : Option String) {left : List Row}
    (hleft : t.covered ⟨cursor, range.endAt⟩ = left) :
    ∃ fetched, ((t.rows.after cursor).map (·.2)).take j.pass.batchSize = fetched ∧
      s.rowsAfter j.table j.pass.batchSize cursor UploadStore.orderColumn = .ok fetched ∧
      fetched.filter (fun r => range.admits r.id) = j.batch left := by
  refine ⟨_, rfl, ?_, ?_⟩
  · rw [UploadStore.rowsAfter, if_neg (by simp), ht]
    rfl
  · rw [t.filter_take_after, hleft, batch]

/-- All that a round can come to: no row is left; the batch is kept as a whole, and if it
is known to be the last nothing is left after it; or one of its rows is not accepted. -/
theorem round_cases {s : UploadStore} {t : StoredTable} (ht : s.table j.table = .ok t)
    (range : Range) (lands : Family → Bool) (cursor : Option String) {left : List Row}
    (hleft : t.covered ⟨cursor, range.endAt⟩ = left) :
    (left = [] ∧ j.round range lands cursor s = .exhausted) ∨
    (∃ last isLast, (j.batch left).getLast? = some last ∧ (∀ r ∈ j.batch left, j.Accepts s r) ∧
      (isLast = true → left.drop j.pass.batchSize = []) ∧
      j.round range lands cursor s = .processed (j.settle (j.batch left) s)
        (j.pass.identification.identify j.catalogue (j.records (j.batch left))) last.id isLast) ∨
    (∃ (keep : Family → Bool) (e : PassError), (¬∀ r ∈ j.batch left, j.Accepts s r) ∧
      j.round range lands cursor s = .failed
        (((pieces (j.records (j.batch left))).filter fun piece => keep piece.1).foldl
          (keepPiece j.table) s) e) := by
  obtain ⟨fetched, hfetched, hfetch, hadmit⟩ := exists_fetched ht range cursor hleft
  cases hlast : (j.batch left).getLast? with
  | none =>
      have hnil := List.getLast?_eq_none_iff.mp hlast
      refine Or.inl ⟨by_contra fun hne => batch_ne_nil hne hnil, ?_⟩
      simp only [round, hfetch, hadmit, hlast]
  | some last =>
      refine Or.inr ?_
      by_cases haccepts : ∀ r ∈ j.batch left, j.Accepts s r
      · have hascending : Ascending (j.batch left) :=
          hleft ▸ (t.ascending_covered _).sublist (List.take_sublist _ _)
        refine Or.inl ⟨last, decide ((j.batch left).length < fetched.length) ||
          decide (fetched.length < j.pass.batchSize), rfl, haccepts, fun hshort => ?_, ?_⟩
        · rw [← hleft, ← t.filter_after cursor range]
          refine drop_filter_eq_nil (t.pairwise_admits_after cursor range) ?_
          rw [hfetched, hadmit]
          simpa using hshort
        · simp only [round, hfetch, hadmit, hlast, j.runBatch_eq_settle hascending haccepts]
      · obtain ⟨keep, e, hbatch⟩ := j.runBatch_of_not_accepts haccepts lands
        exact Or.inr ⟨keep, e, haccepts, by simp only [round, hfetch, hadmit, hlast, hbatch]⟩

/-- A round that fails is one whose batch fails. -/
theorem runBatch_of_round_failed {s kept : UploadStore} {t : StoredTable}
    (ht : s.table j.table = .ok t) {lands : Family → Bool} {cursor : Option String}
    {left : List Row} (hleft : t.covered ⟨cursor, range.endAt⟩ = left) {e : PassError}
    (h : j.round range lands cursor s = .failed kept e) :
    j.batch left ≠ [] ∧ j.runBatch lands (j.batch left) s = (kept, .error e) := by
  obtain ⟨fetched, -, hfetch, hadmit⟩ := exists_fetched ht range cursor hleft
  simp only [round, hfetch, hadmit] at h
  cases hlast : (j.batch left).getLast? with
  | none => simp [hlast] at h
  | some last =>
      rcases hbatch : j.runBatch lands (j.batch left) s with ⟨m, e' | outcomes⟩
      · simp only [hlast, hbatch, Round.failed.injEq] at h
        obtain ⟨rfl, rfl⟩ := h
        exact ⟨List.ne_nil_of_mem (List.mem_of_getLast? hlast), rfl⟩
      · simp [hlast, hbatch] at h

/-! ## How a pass goes on -/

section RunFrom

variable {around : Surroundings} {reached : Reached} {s kept : UploadStore}

theorem runFrom_of_stop (h : around.stop reached.batches = true) :
    j.runFrom range around reached s = ⟨s, [], .ok (.stopped reached)⟩ := by
  rw [runFrom, if_pos h]

theorem runFrom_of_exhausted (h : around.stop reached.batches = false)
    (hround : j.round range (around.lands reached.batches) reached.cursor s = .exhausted) :
    j.runFrom range around reached s = finish j.table range around.now reached s := by
  rw [runFrom, if_neg (by simp [h])]
  split <;> simp_all

theorem runFrom_of_failed {e : PassError} (h : around.stop reached.batches = false)
    (hround : j.round range (around.lands reached.batches) reached.cursor s = .failed kept e) :
    j.runFrom range around reached s = ⟨kept, [], .error e⟩ := by
  rw [runFrom, if_neg (by simp [h])]
  split <;> simp_all

theorem runFrom_of_processed {outcomes : Keyed String Outcome} {cursor : String} {isLast : Bool}
    (h : around.stop reached.batches = false)
    (hround : j.round range (around.lands reached.batches) reached.cursor s =
      .processed kept outcomes cursor isLast) :
    j.runFrom range around reached s =
      let report := Progress.ofBatch (reached.batches + 1) outcomes cursor
      let rest :=
        if isLast then finish j.table range around.now (reached.advance report) kept
        else j.runFrom range around (reached.advance report) kept
      { rest with progress := report :: rest.progress } := by
  rw [runFrom, if_neg (by simp [h])]
  split <;> simp_all

end RunFrom

/-! ## The end of a pass -/

/-- The store at the end of a pass over a range: the table is marked as processed if the
range was the whole one. -/
def mark (table : Int) (range : Range) (now : Time.Instant) (s : UploadStore) : UploadStore :=
  if range.isFull then ((s.setLastProcessed table now).toOption).getD s else s

theorem finish_of_table {s : UploadStore} {table : Int} {t : StoredTable}
    (ht : s.table table = .ok t) (range : Range) (now : Time.Instant) (reached : Reached) :
    finish table range now reached s =
      ⟨mark table range now s, [], .ok (.completed reached)⟩ := by
  rw [finish, mark]
  by_cases hfull : range.isFull = true
  · rw [if_pos hfull, if_pos hfull, UploadStore.setLastProcessed, UploadStore.updateTable, ht]
    rfl
  · rw [if_neg hfull, if_neg hfull]

/-- The mark changes the tables only. -/
theorem mark_frame (table : Int) (range : Range) (now : Time.Instant) (s : UploadStore) :
    mark table range now s = { s with tables := (mark table range now s).tables } := by
  unfold mark UploadStore.setLastProcessed UploadStore.updateTable
  split
  · cases s.table table <;> rfl
  · rfl

@[simp] theorem outcomes_mark (table : Int) (range : Range) (now : Time.Instant)
    (s : UploadStore) : (mark table range now s).outcomes = s.outcomes := by
  rw [mark_frame]

@[simp] theorem data_mark (table : Int) (range : Range) (now : Time.Instant)
    (s : UploadStore) : (mark table range now s).data = s.data := by
  rw [mark_frame]

@[simp] theorem dataOf_mark (table : Int) (range : Range) (now : Time.Instant)
    (s : UploadStore) (t : Int) (f : Family) :
    (mark table range now s).dataOf t f = s.dataOf t f := by
  rw [UploadStore.dataOf, data_mark, UploadStore.dataOf]

end SkyCatalog.Job
