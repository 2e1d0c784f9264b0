import SkyCatalog.Proofs.Crossmatch.Candidates
import SkyCatalog.Proofs.Crossmatch.Pieces
import SkyCatalog.Proofs.Mapping.Conversion
import SkyCatalog.Proofs.Upload.Covered

/-!
# What one batch does

A batch turns rows into records, keeps their data and then their outcomes. What it
keeps of a row depends on that row alone: `record?` is the record it yields and
`outcome?` what that record turns out to be. `settle` is the store in which a batch of
rows is kept. A batch of rows in ascending order leaves exactly this store if it is
accepted row by row (`runBatch_eq_settle`), and fails otherwise (`runBatch_isOk_iff`).
Two batches one after the other leave what one batch of all their rows leaves
(`settle_append`).
-/

namespace SkyCatalog

/-! ## What rows give -/

/-- What rows give one after the other, each time under the identifier of the row. -/
def byRow {α : Type} (give : Row → List α) (rows : List Row) : List (String × α) :=
  rows.flatMap fun r => (give r).map fun value => (r.id, value)

section ByRow

variable {α : Type} {give : Row → List α} {rows : List Row}

theorem mem_keys_byRow {id : String} :
    id ∈ (byRow give rows).map (·.1) ↔ ∃ r ∈ rows, give r ≠ [] ∧ r.id = id := by
  simp only [byRow, List.mem_map, List.mem_flatMap]
  constructor
  · rintro ⟨-, ⟨r, hr, value, hvalue, rfl⟩, hid⟩
    exact ⟨r, hr, List.ne_nil_of_mem hvalue, hid⟩
  · rintro ⟨r, hr, hne, hid⟩
    obtain ⟨value, hvalue⟩ := List.exists_mem_of_ne_nil _ hne
    exact ⟨(r.id, value), ⟨r, hr, value, hvalue, rfl⟩, hid⟩

theorem get?_putAll_byRow_of_forall_ne {id : String} (h : ∀ r ∈ rows, r.id ≠ id)
    (m : Keyed String α) : (m.putAll (byRow give rows)).get? id = m.get? id := by
  refine Keyed.get?_putAll_of_notMem fun hid => ?_
  obtain ⟨r, hr, -, heq⟩ := mem_keys_byRow.mp hid
  exact h r hr heq

/-- Of what rows give, a row has the last that it gives itself. -/
theorem get?_putAll_byRow (h : Ascending rows) {r : Row} (hr : r ∈ rows) (m : Keyed String α) :
    (m.putAll (byRow give rows)).get? r.id = (give r).getLast?.or (m.get? r.id) := by
  -- by induction on the rows; no other row writes under the identifier
  induction rows generalizing m with
  | nil => simp at hr
  | cons q rest ih =>
      obtain ⟨hq, hrest⟩ := List.pairwise_cons.mp h
      have hsplit : byRow give (q :: rest) =
          ((give q).map fun value => (q.id, value)) ++ byRow give rest := List.flatMap_cons
      rw [hsplit, Keyed.putAll_append]
      rcases List.mem_cons.mp hr with rfl | hmem
      · rw [get?_putAll_byRow_of_forall_ne fun b hb => (String.ne_of_lt (hq b hb)).symm,
          Keyed.get?_putAll_map]
      · have hfirst : r.id ∉ ((give q).map fun value => (q.id, value)).map (·.1) := by
          simp only [List.map_map, List.mem_map, not_exists, not_and]
          rintro value - hid
          exact String.ne_of_lt (hq r hmem) hid
        rw [ih hrest hmem, Keyed.get?_putAll_of_notMem hfirst]

end ByRow

namespace Job

variable (j : Job)

/-! ## One row -/

/-- The record that a row yields, if it holds any data. -/
def record? (r : Row) : Option Record :=
  j.plan.record? j.pass.strictness r

/-- What the record of a row turns out to be. -/
def outcome? (r : Row) : Option Outcome :=
  (j.record? r).map (j.pass.identification.outcomeOf j.catalogue)

/-- The data of a family that a row yields, in order. -/
def dataOf (family : Family) (r : Row) : List Datum :=
  (j.record? r).toList.flatMap fun record => record.data.filter (·.family = family)

/-- A row can be processed: its data are built, and the store refuses none of them. -/
def Accepts (s : UploadStore) (r : Row) : Prop :=
  j.plan.Converts j.pass.strictness r ∧ ∀ record ∈ j.record? r, Takes s record

/-- The records of rows. -/
def records (rows : List Row) : List Record :=
  rows.filterMap j.record?

/-- The outcomes of rows, each under the identifier of its row. -/
def outcomes (rows : List Row) : List (String × Outcome) :=
  rows.filterMap fun r => (j.outcome? r).map fun outcome => (r.id, outcome)

/-- The store with the data and the outcomes of rows added. -/
def settle (rows : List Row) (s : UploadStore) : UploadStore :=
  { (pieces (j.records rows)).foldl (keepPiece j.table) s with
    outcomes := s.outcomes.putAll (j.outcomes rows) }

theorem id_of_record? {r : Row} {record : Record} (h : j.record? r = some record) :
    record.id = r.id :=
  j.plan.id_of_record? j.pass.strictness h

theorem records_cons (r : Row) (rest : List Row) :
    j.records (r :: rest) = (j.record? r).toList ++ j.records rest := by
  cases h : j.record? r <;> simp [records, h]

theorem outcomes_cons (r : Row) (rest : List Row) :
    j.outcomes (r :: rest) =
      (j.outcome? r).toList.map (fun outcome => (r.id, outcome)) ++ j.outcomes rest := by
  cases h : j.outcome? r <;> simp [outcomes, h]

theorem outcomes_eq_byRow (rows : List Row) :
    j.outcomes rows = byRow (fun r => (j.outcome? r).toList) rows := by
  induction rows with
  | nil => rfl
  | cons r rest ih =>
      rw [outcomes_cons, ih]
      rfl

theorem outcomes_append (a b : List Row) : j.outcomes (a ++ b) = j.outcomes a ++ j.outcomes b :=
  List.filterMap_append

/-- The outcomes of rows are those of their records. -/
theorem outcomes_eq_map_records (rows : List Row) :
    j.outcomes rows = (j.records rows).map fun record =>
      (record.id, j.pass.identification.outcomeOf j.catalogue record) := by
  induction rows with
  | nil => rfl
  | cons r rest ih =>
      rw [outcomes_cons, records_cons, List.map_append, ih, outcome?]
      cases h : j.record? r with
      | none => rfl
      | some record => simp [j.id_of_record? h]

theorem familyData_records (rows : List Row) (family : Family) :
    familyData (j.records rows) family = byRow (j.dataOf family) rows := by
  induction rows with
  | nil => rfl
  | cons r rest ih =>
      rw [records_cons, byRow, List.flatMap_cons, ← byRow, ← ih, familyData, familyData,
        List.flatMap_append, dataOf]
      cases h : j.record? r with
      | none => rfl
      | some record => simp [j.id_of_record? h]

/-- The identifiers of the records of ascending rows ascend. -/
theorem pairwise_records {rows : List Row} (h : Ascending rows) :
    (j.records rows).Pairwise fun a b => a.id < b.id := by
  refine List.Pairwise.filterMap _ ?_ h
  intro a b hlt c hc d hd
  rwa [j.id_of_record? hc, j.id_of_record? hd]

theorem accepts_iff_forall {s : UploadStore} {rows : List Row} :
    (∀ r ∈ rows, j.Accepts s r) ↔
      (∀ r ∈ rows, j.plan.Converts j.pass.strictness r) ∧
        ∀ record ∈ j.records rows, Takes s record := by
  constructor
  · intro h
    refine ⟨fun r hr => (h r hr).1, fun record hrecord => ?_⟩
    obtain ⟨r, hr, hyield⟩ := List.mem_filterMap.mp hrecord
    exact (h r hr).2 record hyield
  · rintro ⟨hconvert, htake⟩ r hr
    exact ⟨hconvert r hr, fun record hrecord =>
      htake record (List.mem_filterMap.mpr ⟨r, hr, hrecord⟩)⟩

/-! ## One batch -/

/-- Identifying the records of ascending rows gives the outcomes of the rows, in order. -/
theorem entries_identify {rows : List Row} (h : Ascending rows) :
    (j.pass.identification.identify j.catalogue (j.records rows)).entries = j.outcomes rows := by
  have hrecords := j.pairwise_records h
  have hnodup : ((j.records rows).map (·.id)).Nodup :=
    List.pairwise_map.mpr (hrecords.imp String.ne_of_lt)
  have hascending : (j.outcomes rows).Pairwise fun a b => compare a.1 b.1 = .lt := by
    rw [outcomes_eq_map_records, List.pairwise_map]
    exact hrecords.imp compare_eq_lt_iff.mpr
  rw [j.pass.identification.identify_eq j.catalogue hnodup, ← outcomes_eq_map_records,
    Keyed.ofList_entries_eq hascending]

/-- What the batch finds out about a row. -/
theorem get?_identify_records {rows : List Row} (h : Ascending rows) {r : Row} (hr : r ∈ rows) :
    (j.pass.identification.identify j.catalogue (j.records rows)).get? r.id = j.outcome? r := by
  refine Option.ext fun outcome => ?_
  rw [← Keyed.mem_entries_iff, j.entries_identify h]
  simp only [outcomes, List.mem_filterMap, Option.map_eq_some_iff, Prod.mk.injEq]
  constructor
  · rintro ⟨q, hq, found, hfound, hid, rfl⟩
    rwa [h.eq_of_id_eq hq hr hid] at hfound
  · intro hfound
    exact ⟨r, hr, outcome, hfound, rfl, rfl⟩

/-- A batch of ascending rows that are accepted is kept as a whole. -/
theorem runBatch_eq_settle {rows : List Row} {s : UploadStore} (h : Ascending rows)
    (haccepts : ∀ r ∈ rows, j.Accepts s r) (lands : Family → Bool) :
    j.runBatch lands rows s = (j.settle rows s,
      .ok (j.pass.identification.identify j.catalogue (j.records rows))) := by
  obtain ⟨hconvert, htake⟩ := j.accepts_iff_forall.mp haccepts
  have hframe : ((pieces (j.records rows)).foldl (keepPiece j.table) s).outcomes = s.outcomes := by
    rw [foldl_keepPiece_frame fun piece => placed_of_mem_pieces]
  have happly : j.plan.apply j.pass.strictness rows = .ok (j.records rows) :=
    j.plan.apply_eq_ok j.pass.strictness hconvert
  simp only [runBatch, happly, keepData_of_takes htake, UploadStore.addOutcomes, hframe,
    j.entries_identify h, settle]

/-- A batch with a row that is not accepted fails. Of the data of its records at most
those of some families are kept. -/
theorem runBatch_of_not_accepts {rows : List Row} {s : UploadStore}
    (h : ¬∀ r ∈ rows, j.Accepts s r) (lands : Family → Bool) :
    ∃ (keep : Family → Bool) (e : PassError), j.runBatch lands rows s =
      (((pieces (j.records rows)).filter fun piece => keep piece.1).foldl (keepPiece j.table) s,
        .error e) := by
  -- a row is not converted, and nothing is kept; or a family of one of them is refused
  by_cases hconvert : ∀ r ∈ rows, j.plan.Converts j.pass.strictness r
  · have happly : j.plan.apply j.pass.strictness rows = .ok (j.records rows) :=
      j.plan.apply_eq_ok j.pass.strictness hconvert
    have htake : ¬∀ record ∈ j.records rows, Takes s record :=
      fun htake => h (j.accepts_iff_forall.mpr ⟨hconvert, htake⟩)
    obtain ⟨f, -, hkeep⟩ := keepData_of_refused htake j.table lands
    exact ⟨lands, .store (.writesRejected f), by simp only [runBatch, happly, hkeep]⟩
  · cases happly : j.plan.apply j.pass.strictness rows with
    | ok records => exact absurd ((j.plan.apply_isOk_iff j.pass.strictness).mp ⟨_, happly⟩) hconvert
    | error e => exact ⟨fun _ => false, .construction e, by simp [runBatch, happly]⟩

/-- A batch of ascending rows goes through exactly if each of them is accepted. -/
theorem runBatch_isOk_iff {rows : List Row} {s : UploadStore} (h : Ascending rows)
    (lands : Family → Bool) :
    (∃ outcomes, (j.runBatch lands rows s).2 = .ok outcomes) ↔ ∀ r ∈ rows, j.Accepts s r := by
  constructor
  · rintro ⟨outcomes, hok⟩
    by_contra hnot
    obtain ⟨keep, e, hrun⟩ := j.runBatch_of_not_accepts hnot lands
    rw [hrun] at hok
    cases hok
  · intro haccepts
    exact ⟨_, by rw [j.runBatch_eq_settle h haccepts]⟩

/-! ## Two batches -/

/-- A batch that is kept changes the data and the outcomes only. -/
theorem settle_frame (rows : List Row) (s : UploadStore) :
    j.settle rows s =
      { s with
        data := (j.settle rows s).data
        outcomes := s.outcomes.putAll (j.outcomes rows) } := by
  rw [settle, foldl_keepPiece_frame fun piece => placed_of_mem_pieces]

@[simp] theorem tables_settle (rows : List Row) (s : UploadStore) :
    (j.settle rows s).tables = s.tables := by
  rw [settle_frame]

@[simp] theorem table_settle (rows : List Row) (s : UploadStore) (id : Int) :
    (j.settle rows s).table id = s.table id := by
  rw [UploadStore.table, tables_settle, UploadStore.table]

@[simp] theorem rejected_settle (rows : List Row) (s : UploadStore) :
    (j.settle rows s).rejected = s.rejected := by
  rw [settle_frame]

@[simp] theorem outcomes_settle (rows : List Row) (s : UploadStore) :
    (j.settle rows s).outcomes = s.outcomes.putAll (j.outcomes rows) :=
  rfl

theorem get?_data_settle (rows : List Row) (s : UploadStore) (t : Int) (f : Family) :
    (j.settle rows s).data.get? ⟨t, f⟩ =
      if t = j.table ∧ s.rejected ≠ some f ∧ familyData (j.records rows) f ≠ [] then
        some ((s.dataOf j.table f).putAll (familyData (j.records rows) f))
      else s.data.get? ⟨t, f⟩ := by
  have hall := get?_foldl_keepPiece_filter s j.table (j.records rows) (fun _ => true) t f
  simpa [settle] using hall

theorem dataOf_settle (rows : List Row) (s : UploadStore) (t : Int) (f : Family) :
    (j.settle rows s).dataOf t f =
      if t = j.table ∧ s.rejected ≠ some f then
        (s.dataOf t f).putAll (familyData (j.records rows) f)
      else s.dataOf t f := by
  have hall := dataOf_foldl_keepPiece_filter s j.table (j.records rows) (fun _ => true) t f
  have hsame : (j.settle rows s).dataOf t f =
      ((pieces (j.records rows)).foldl (keepPiece j.table) s).dataOf t f := rfl
  rw [hsame]
  simpa using hall

theorem accepts_congr {s s' : UploadStore} (h : s.rejected = s'.rejected) (r : Row) :
    j.Accepts s r ↔ j.Accepts s' r := by
  simp only [Accepts, Takes, h]

/-- Two batches one after the other leave what one batch of all their rows leaves. -/
theorem settle_append (a b : List Row) (s : UploadStore) :
    j.settle (a ++ b) s = j.settle b (j.settle a s) := by
  have hdata : (j.settle (a ++ b) s).data = (j.settle b (j.settle a s)).data := by
    refine Keyed.ext_get? fun shelf => ?_
    obtain ⟨t, f⟩ := shelf
    have happend : familyData (j.records (a ++ b)) f =
        familyData (j.records a) f ++ familyData (j.records b) f := by
      simp only [records, List.filterMap_append, familyData, List.flatMap_append]
    rw [get?_data_settle, get?_data_settle, get?_data_settle, dataOf_settle, happend,
      rejected_settle, Keyed.putAll_append]
    by_cases hkept : t = j.table ∧ s.rejected ≠ some f
    · obtain ⟨rfl, hrejected⟩ := hkept
      -- the family has a place in the store once one of the batches has data of it
      by_cases ha : familyData (j.records a) f = [] <;>
        by_cases hb : familyData (j.records b) f = [] <;>
          simp [hrejected, ha, hb, Keyed.putAll]
    · rw [if_neg fun h => hkept ⟨h.1, h.2.1⟩, if_neg fun h => hkept ⟨h.1, h.2.1⟩,
        if_neg fun h => hkept ⟨h.1, h.2.1⟩]
  rw [settle_frame, hdata, settle_frame j b, settle_frame j a, outcomes_append, Keyed.putAll_append]

/-! ## What is read of a row that is kept -/

section Readings

variable {j} {rows : List Row} {r : Row}

theorem get?_outcomes_settle (h : Ascending rows) (hr : r ∈ rows) (s : UploadStore) :
    (j.settle rows s).outcomes.get? r.id = (j.outcome? r).or (s.outcomes.get? r.id) := by
  rw [outcomes_settle, outcomes_eq_byRow, get?_putAll_byRow h hr]
  cases j.outcome? r <;> rfl

theorem get?_dataOf_settle (h : Ascending rows) (hr : r ∈ rows) (s : UploadStore) (t : Int)
    (f : Family) :
    ((j.settle rows s).dataOf t f).get? r.id =
      if t = j.table ∧ s.rejected ≠ some f then
        (j.dataOf f r).getLast?.or ((s.dataOf t f).get? r.id)
      else (s.dataOf t f).get? r.id := by
  rw [dataOf_settle, familyData_records]
  split
  · rw [get?_putAll_byRow h hr]
  · rfl

theorem get?_settle_of_forall_ne {id : String} (h : ∀ r ∈ rows, r.id ≠ id) (s : UploadStore) :
    (j.settle rows s).outcomes.get? id = s.outcomes.get? id ∧
      ∀ t f, ((j.settle rows s).dataOf t f).get? id = (s.dataOf t f).get? id := by
  constructor
  · rw [outcomes_settle, outcomes_eq_byRow, get?_putAll_byRow_of_forall_ne h]
  · intro t f
    rw [dataOf_settle, familyData_records]
    split
    · rw [get?_putAll_byRow_of_forall_ne h]
    · rfl

/-- A row that is accepted has no data of a family that is refused. -/
theorem dataOf_eq_nil_of_accepts {s : UploadStore} {f : Family} (h : j.Accepts s r)
    (hrejected : s.rejected = some f) : j.dataOf f r = [] := by
  rw [dataOf, List.flatMap_eq_nil_iff]
  intro record hrecord
  refine List.filter_eq_nil_iff.mpr fun d hd hfamily => ?_
  have htake := h.2 record (Option.mem_toList.mp hrecord) d hd
  rw [decide_eq_true_eq.mp hfamily] at htake
  exact htake hrejected

end Readings

end Job

end SkyCatalog
