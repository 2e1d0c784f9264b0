import SkyCatalog.Crossmatch.Pass
import SkyCatalog.Proofs.Keyed

/-!
# The rows that a range covers

The rows of a stored table stand in ascending order of their identifiers, each
identifier once. `covered` are those that a range covers, the start excluded and the end
included. The rows that are fetched after a cursor and then held against the end of the
range are the first of the covered ones (`filter_take_after`), and once some of them are
done the range that begins at the last of these covers the rest (`covered_after_take`).
The rows up to a cursor are those that do not come behind it (`mem_coveredUpTo_iff_notMem`).
-/

namespace SkyCatalog

theorem compare_eq_lt_iff {a b : String} : compare a b = .lt ↔ a < b :=
  compareOfLessAndEq_eq_lt

/-- Rows whose identifiers ascend strictly. -/
def Ascending (rows : List Row) : Prop :=
  rows.Pairwise fun a b => a.id < b.id

theorem Ascending.nodup {rows : List Row} (h : Ascending rows) : (rows.map (·.id)).Nodup :=
  List.pairwise_map.mpr (h.imp String.ne_of_lt)

/-- Ascending rows with the identifier of one of them are that row. -/
theorem Ascending.eq_of_id_eq {rows : List Row} (h : Ascending rows) {a b : Row}
    (ha : a ∈ rows) (hb : b ∈ rows) (hid : a.id = b.id) : a = b :=
  List.inj_on_of_nodup_map h.nodup ha hb hid

namespace Range

/-- Does the range cover an identifier? -/
def covers (r : Range) (id : String) : Bool :=
  r.startAfter.all (· < id) && r.admits id

theorem covers_iff {r : Range} {id : String} :
    r.covers id = true ↔ (∀ start ∈ r.startAfter, start < id) ∧ ∀ last ∈ r.endAt, id ≤ last := by
  obtain ⟨_ | start, _ | last⟩ := r <;> simp [covers, admits]

/-- What comes before an identifier within the end of the range is within it, too. -/
theorem admits_of_le {r : Range} {a b : String} (hab : a ≤ b) (hb : r.admits b = true) :
    r.admits a = true := by
  obtain ⟨start, _ | last⟩ := r
  · rfl
  · simp only [admits, decide_eq_true_eq] at hb ⊢
    exact String.le_trans hab hb

end Range

/-- Where the entries that pass a test come first, those among the first entries are the
first of them. -/
theorem filter_take_of_pairwise {α : Type} {p : α → Bool} {l : List α}
    (h : l.Pairwise fun a b => p b = true → p a = true) (n : Nat) :
    (l.take n).filter p = (l.filter p).take n := by
  induction l generalizing n with
  | nil => simp
  | cons a rest ih =>
      obtain ⟨ha, hrest⟩ := List.pairwise_cons.mp h
      cases n with
      | zero => simp
      | succ n =>
          rw [List.take_succ_cons]
          by_cases hp : p a = true
          · rw [List.filter_cons_of_pos hp, List.filter_cons_of_pos hp, List.take_succ_cons,
              ih hrest]
          · -- the first entry does not pass, and so no entry does
            have hnone : ∀ b ∈ rest, ¬p b = true := fun b hb hpb => hp (ha b hb hpb)
            rw [List.filter_cons_of_neg hp, List.filter_cons_of_neg hp,
              List.filter_eq_nil_iff.mpr hnone,
              List.filter_eq_nil_iff.mpr fun b hb => hnone b (List.mem_of_mem_take hb),
              List.take_nil]

/-- Where the entries that pass a test come first, a short list of first entries or one
that does not pass as a whole leaves no later entry that passes. -/
theorem drop_filter_eq_nil {α : Type} {p : α → Bool} {l : List α}
    (h : l.Pairwise fun a b => p b = true → p a = true) {n : Nat}
    (hshort : ((l.take n).filter p).length < (l.take n).length ∨ (l.take n).length < n) :
    (l.filter p).drop n = [] := by
  have hle := List.length_filter_le p l
  rw [filter_take_of_pairwise h, List.length_take, List.length_take] at hshort
  exact List.drop_eq_nil_of_le (by omega)

namespace StoredTable

variable (t : StoredTable)

/-- The rows that a range covers, in ascending order. -/
def covered (range : Range) : List Row :=
  t.rows.values.filter fun r => range.covers r.id

theorem ascending_values : Ascending t.rows.values := by
  refine List.pairwise_map.mpr (t.rows.ascending.imp_of_mem fun ha hb hlt => ?_)
  rw [t.rows_keyed _ ha, t.rows_keyed _ hb]
  exact compare_eq_lt_iff.mp hlt

theorem ascending_covered (range : Range) : Ascending (t.covered range) :=
  t.ascending_values.filter _

theorem mem_covered {range : Range} {r : Row} :
    r ∈ t.covered range ↔ r ∈ t.rows.values ∧ range.covers r.id = true :=
  List.mem_filter

/-- The rows that a range covers up to a cursor, which is included. -/
def coveredUpTo (range : Range) (cursor : Option String) : List Row :=
  (t.covered range).filter fun r => cursor.any (r.id ≤ ·)

theorem mem_coveredUpTo {range : Range} {cursor : Option String} {r : Row} :
    r ∈ t.coveredUpTo range cursor ↔ r ∈ t.covered range ∧ ∃ last ∈ cursor, r.id ≤ last := by
  cases cursor <;> simp [coveredUpTo]

/-- A row is covered up to a cursor if it is covered, but not behind the cursor. -/
theorem mem_coveredUpTo_iff_notMem {start endAt cursor : Option String} {r : Row} :
    r ∈ t.coveredUpTo ⟨start, endAt⟩ cursor ↔
      r ∈ t.covered ⟨start, endAt⟩ ∧ r ∉ t.covered ⟨cursor, endAt⟩ := by
  rw [mem_coveredUpTo]
  refine and_congr_right fun hr => ?_
  obtain ⟨hmem, hcovers⟩ := t.mem_covered.mp hr
  have hend := (Range.covers_iff.mp hcovers).2
  rw [mem_covered, Range.covers_iff]
  constructor
  · rintro ⟨last, hlast, hle⟩ ⟨-, hafter, -⟩
    exact Std.not_le.mpr (hafter last hlast) hle
  · intro hnot
    by_contra hnone
    refine hnot ⟨hmem, fun last hlast => ?_, hend⟩
    exact Std.not_le.mp fun hle => hnone ⟨last, hlast, hle⟩

/-- The rows after a cursor and up to the end of a range. -/
theorem filter_after (cursor : Option String) (range : Range) :
    ((t.rows.after cursor).map (·.2)).filter (fun r => range.admits r.id) =
      t.covered ⟨cursor, range.endAt⟩ := by
  have hafter : (t.rows.after cursor).map (·.2) =
      t.rows.values.filter fun r => cursor.all (· < r.id) := by
    rw [Keyed.values, List.filter_map]
    cases cursor with
    | none => simp [Keyed.after]
    | some c =>
        refine congrArg _ (List.filter_congr fun e he => ?_)
        simp [t.rows_keyed e he, compare_eq_lt_iff]
  rw [hafter, List.filter_filter]
  refine List.filter_congr fun r _ => ?_
  rw [Range.covers, Bool.and_comm]
  rfl

theorem pairwise_admits_after (cursor : Option String) (range : Range) :
    ((t.rows.after cursor).map (·.2)).Pairwise fun a b =>
      range.admits b.id = true → range.admits a.id = true := by
  have hascending : Ascending ((t.rows.after cursor).map (·.2)) := by
    have hcovered := t.ascending_covered ⟨cursor, none⟩
    rw [← t.filter_after cursor ⟨cursor, none⟩] at hcovered
    simpa [Range.admits] using hcovered
  exact hascending.imp fun hlt => Range.admits_of_le (Std.le_of_lt hlt)

/-- The rows that are fetched and lie in the range are the first of those covered. -/
theorem filter_take_after (cursor : Option String) (range : Range) (n : Nat) :
    (((t.rows.after cursor).map (·.2)).take n).filter (fun r => range.admits r.id) =
      (t.covered ⟨cursor, range.endAt⟩).take n := by
  rw [filter_take_of_pairwise (t.pairwise_admits_after cursor range), filter_after]

/-- After the first of the covered rows come the others. -/
theorem covered_after_take {cursor endAt : Option String} {n : Nat} {last : Row}
    (h : ((t.covered ⟨cursor, endAt⟩).take n).getLast? = some last) :
    t.covered ⟨some last.id, endAt⟩ = (t.covered ⟨cursor, endAt⟩).drop n := by
  have hascending := t.ascending_covered ⟨cursor, endAt⟩
  have hlast : last ∈ t.covered ⟨cursor, endAt⟩ := List.mem_of_mem_take (List.mem_of_getLast? h)
  have hstart := (Range.covers_iff.mp (t.mem_covered.mp hlast).2).1
  have hfilter : t.covered ⟨some last.id, endAt⟩ =
      (t.covered ⟨cursor, endAt⟩).filter fun r => last.id < r.id := by
    rw [covered, covered, List.filter_filter]
    refine List.filter_congr fun r _ => ?_
    rw [Bool.eq_iff_iff, Bool.and_eq_true, Range.covers_iff, Range.covers_iff, decide_eq_true_eq]
    constructor
    · rintro ⟨hafter, hend⟩
      have hlt := hafter last.id rfl
      exact ⟨hlt, fun start hs => String.lt_trans (hstart start hs) hlt, hend⟩
    · rintro ⟨hlt, -, hend⟩
      exact ⟨fun start hs => by cases hs; exact hlt, hend⟩
  -- of the rows up to the last one none comes after it, and of the others each does
  rw [← List.take_append_drop n (t.covered ⟨cursor, endAt⟩)] at hascending
  obtain ⟨hfirst, -, hacross⟩ := List.pairwise_append.mp hascending
  obtain ⟨before, hbefore⟩ := List.getLast?_eq_some_iff.mp h
  have hnone : ∀ r ∈ (t.covered ⟨cursor, endAt⟩).take n, ¬last.id < r.id := by
    intro r hr
    rw [hbefore] at hr hfirst
    rcases List.mem_append.mp hr with hold | hnew
    · exact String.lt_asymm ((List.pairwise_append.mp hfirst).2.2 r hold last (by simp))
    · rw [List.mem_singleton.mp hnew]
      exact String.lt_irrefl _
  rw [hfilter]
  conv_lhs => rw [← List.take_append_drop n (t.covered ⟨cursor, endAt⟩)]
  rw [List.filter_append, List.filter_eq_nil_iff.mpr (by simpa using hnone), List.nil_append,
    List.filter_eq_self]
  intro r hr
  simpa using hacross last (List.mem_of_getLast? h) r hr

end StoredTable

end SkyCatalog
