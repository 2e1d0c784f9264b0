import SkyCatalog.Proofs.Crossmatch.Round

/-!
# What is given to rows

What a job has given to rows is read from two stores, one before and one after
(`Job.Gives`): the rows read what their records turn out to be and the data that they hold, and
every other identifier reads the outcome that it had. Keeping rows gives to them
(`Job.gives_settle`). Where it only matters who was given an outcome, and not which, there is
`OutcomesWithin`.
-/

namespace SkyCatalog

/-- From a store `s` to a store `u` rows at most were given outcomes. -/
def OutcomesWithin (rows : List Row) (s u : UploadStore) : Prop :=
  ∀ id, (∀ r ∈ rows, r.id ≠ id) → u.outcomes.get? id = s.outcomes.get? id

namespace OutcomesWithin

variable {rows rows' : List Row} {s u u' : UploadStore}

theorem of_eq (h : u.outcomes = s.outcomes) : OutcomesWithin rows s u :=
  fun id _ => by rw [h]

theorem mono (h : OutcomesWithin rows s u) (hsub : ∀ r ∈ rows, r ∈ rows') :
    OutcomesWithin rows' s u :=
  fun id hid => h id fun r hr => hid r (hsub r hr)

theorem congr_right (h : OutcomesWithin rows s u) (hsame : u'.outcomes = u.outcomes) :
    OutcomesWithin rows s u' := by
  intro id hid
  rw [hsame]
  exact h id hid

end OutcomesWithin

namespace Job

/-- From a store `s` to a store `u` a job has given to rows, and among the identifiers `among` to no
others. -/
structure Gives (j : Job) (rows : List Row) (among : String → Prop) (s u : UploadStore) : Prop where
  /-- A row that yields a record reads what this record turns out to be, … -/
  outcome : ∀ r ∈ rows, (j.record? r).isSome → u.outcomes.get? r.id = j.outcome? r
  /-- … and of each family that it yields data of it reads the last datum. -/
  datum : ∀ r ∈ rows, ∀ family, ∀ d ∈ (j.dataOf family r).getLast?,
    (u.dataOf j.table family).get? r.id = some d
  /-- All other identifiers read the outcomes that they had before. -/
  others : ∀ id, among id → (∀ r ∈ rows, (j.record? r).isSome → r.id ≠ id) →
    u.outcomes.get? id = s.outcomes.get? id

variable {j : Job} {rows rows' : List Row} {among : String → Prop} {s u : UploadStore}

theorem isSome_outcome? (r : Row) : (j.outcome? r).isSome = (j.record? r).isSome :=
  Option.isSome_map

/-- Keeping rows gives outcomes to these rows at most, … -/
theorem outcomesWithin_settle (j : Job) (rows : List Row) (s : UploadStore) :
    OutcomesWithin rows s (j.settle rows s) :=
  fun _ hid => (get?_settle_of_forall_ne hid s).1

/-- … and to none of them that has no record. -/
theorem get?_outcomes_settle_of_forall (h : Ascending rows) {id : String}
    (hnone : ∀ r ∈ rows, (j.record? r).isSome → r.id ≠ id) (s : UploadStore) :
    (j.settle rows s).outcomes.get? id = s.outcomes.get? id := by
  by_cases hid : ∃ r ∈ rows, r.id = id
  · -- a row with this identifier yields no record
    obtain ⟨r, hr, rfl⟩ := hid
    have hnot : j.outcome? r = none := by
      rw [← Option.not_isSome_iff_eq_none, isSome_outcome?]
      exact fun hyields => hnone r hr hyields rfl
    rw [get?_outcomes_settle h hr, hnot]
    rfl
  · exact j.outcomesWithin_settle rows s id fun r hr heq => hid ⟨r, hr, heq⟩

/-- Keeping rows gives to them, unless a family of their data is refused. -/
theorem gives_settle (h : Ascending rows)
    (hallowed : ∀ r ∈ rows, ∀ family, s.rejected = some family → j.dataOf family r = []) :
    j.Gives rows (fun _ => True) s (j.settle rows s) where
  outcome r hr hyields := by
    obtain ⟨outcome, houtcome⟩ := Option.isSome_iff_exists.mp ((j.isSome_outcome? r).trans hyields)
    rw [get?_outcomes_settle h hr, houtcome]
    rfl
  datum r hr family d hd := by
    rw [Option.mem_def] at hd
    have hrejected : s.rejected ≠ some family := by
      intro hrejected
      rw [hallowed r hr family hrejected] at hd
      cases hd
    rw [get?_dataOf_settle h hr, if_pos ⟨rfl, hrejected⟩, hd]
    rfl
  others _ _ hnone := get?_outcomes_settle_of_forall h hnone s

/-- A batch that is accepted gives to its rows. -/
theorem gives_settle_of_accepts (h : Ascending rows) (haccepts : ∀ r ∈ rows, j.Accepts s r) :
    j.Gives rows (fun _ => True) s (j.settle rows s) :=
  gives_settle h fun r hr _ hrejected => dataOf_eq_nil_of_accepts (haccepts r hr) hrejected

namespace Gives

/-- The mark at the end of a pass takes nothing back. -/
theorem mark (h : j.Gives rows among s u) (table : Int) (range : Range) (now : Time.Instant) :
    j.Gives rows among s (Job.mark table range now u) where
  outcome r hr hyields := by
    rw [outcomes_mark]
    exact h.outcome r hr hyields
  datum r hr family d hd := by
    rw [dataOf_mark]
    exact h.datum r hr family d hd
  others id hid hnone := by
    rw [outcomes_mark]
    exact h.others id hid hnone

/-- The order of the rows does not matter. -/
theorem congr_rows (h : j.Gives rows among s u) (hrows : ∀ r, r ∈ rows' ↔ r ∈ rows) :
    j.Gives rows' among s u where
  outcome r hr := h.outcome r ((hrows r).mp hr)
  datum r hr := h.datum r ((hrows r).mp hr)
  others id hid hnone := h.others id hid fun r hr => hnone r ((hrows r).mpr hr)

end Gives

end Job

end SkyCatalog
