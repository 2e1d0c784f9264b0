import SkyCatalog.Proofs.Crossmatch.Batch

/-!
# Stores on the way to a goal

Passes that are interrupted, or that share the rows of a table, leave stores that differ.
But whatever is written changes, where it changes anything, what is read to what is read
from one store, the goal, in which all rows are kept (`Toward`). Where the goal is once
reached nothing changes any more (`SettledAt.mono`), and a batch that goes through reaches
it for its rows, whatever was written before (`settledAt_settle`).
-/

namespace SkyCatalog

/-- Every reading is as before or as in the goal. -/
structure Toward (goal s s' : UploadStore) : Prop where
  outcome : ∀ id, s'.outcomes.get? id = s.outcomes.get? id ∨
    s'.outcomes.get? id = goal.outcomes.get? id
  datum : ∀ t f id, (s'.dataOf t f).get? id = (s.dataOf t f).get? id ∨
    (s'.dataOf t f).get? id = (goal.dataOf t f).get? id

/-- Every reading of an identifier is as in the goal. -/
structure SettledAt (goal s : UploadStore) (id : String) : Prop where
  outcome : s.outcomes.get? id = goal.outcomes.get? id
  datum : ∀ t f, (s.dataOf t f).get? id = (goal.dataOf t f).get? id

theorem Toward.of_eq {goal s s' : UploadStore} (houtcomes : s'.outcomes = s.outcomes)
    (hdata : s'.data = s.data) : Toward goal s s' where
  outcome id := Or.inl (by rw [houtcomes])
  datum t f id := Or.inl (by rw [UploadStore.dataOf, hdata, UploadStore.dataOf])

theorem Toward.trans {goal s s' s'' : UploadStore} (h : Toward goal s s')
    (h' : Toward goal s' s'') : Toward goal s s'' where
  outcome id := by
    rcases h'.outcome id with hsame | hgoal
    · rw [hsame]
      exact h.outcome id
    · exact Or.inr hgoal
  datum t f id := by
    rcases h'.datum t f id with hsame | hgoal
    · rw [hsame]
      exact h.datum t f id
    · exact Or.inr hgoal

theorem SettledAt.mono {goal s s' : UploadStore} {id : String} (h : SettledAt goal s id)
    (htoward : Toward goal s s') : SettledAt goal s' id where
  outcome := by
    rcases htoward.outcome id with hsame | hgoal
    · rw [hsame]
      exact h.outcome
    · exact hgoal
  datum t f := by
    rcases htoward.datum t f id with hsame | hgoal
    · rw [hsame]
      exact h.datum t f
    · exact hgoal

/-- What is written in front of a reading is read, or the reading stands. -/
theorem or_eq_or_or_eq {α : Type} (written before first : Option α) :
    written.or before = before ∨ written.or before = written.or first := by
  cases written <;> simp

/-- What is written twice is read as if it were written once. -/
theorem or_eq_or_of {α : Type} {written before first : Option α}
    (h : before = first ∨ before = written.or first) : written.or before = written.or first := by
  rcases h with rfl | rfl
  · rfl
  · cases written <;> rfl

namespace Job

variable {j : Job} {rows : List Row} {r : Row}

/-! ## The goal -/

variable {b : List Row} {s u u' : UploadStore}

/-- Whatever families of a batch are written, and with its outcomes or without, leads to
the goal. -/
theorem toward_of_written (hrows : Ascending rows) (hb : Ascending b) (hsub : ∀ r ∈ b, r ∈ rows)
    (houtcomes : u'.outcomes = u.outcomes ∨ u'.outcomes = u.outcomes.putAll (j.outcomes b))
    (hdata : ∀ t f, u'.dataOf t f = u.dataOf t f ∨
      t = j.table ∧ u'.dataOf t f = (u.dataOf t f).putAll (familyData (j.records b) f)) :
    Toward (j.settle rows (s.reject none)) u u' where
  outcome id := by
    rcases houtcomes with hsame | hwritten
    · left
      rw [hsame]
    · -- a row of the batch is now read as in the goal, if it has an outcome
      rw [hwritten, outcomes_eq_byRow]
      by_cases hid : ∃ r ∈ b, r.id = id
      · obtain ⟨r, hr, rfl⟩ := hid
        rw [get?_putAll_byRow hb hr, get?_outcomes_settle hrows (hsub r hr)]
        cases j.outcome? r with
        | none => exact Or.inl rfl
        | some outcome => exact Or.inr rfl
      · left
        exact get?_putAll_byRow_of_forall_ne (fun r hr heq => hid ⟨r, hr, heq⟩) _
  datum t f id := by
    rcases hdata t f with hsame | ⟨rfl, hwritten⟩
    · left
      rw [hsame]
    · rw [hwritten, familyData_records]
      by_cases hid : ∃ r ∈ b, r.id = id
      · obtain ⟨r, hr, rfl⟩ := hid
        rw [get?_putAll_byRow hb hr, get?_dataOf_settle hrows (hsub r hr),
          if_pos ⟨rfl, by simp [UploadStore.reject]⟩]
        exact or_eq_or_or_eq _ _ _
      · left
        exact get?_putAll_byRow_of_forall_ne (fun r hr heq => hid ⟨r, hr, heq⟩) _

theorem toward_settle (hrows : Ascending rows) (hb : Ascending b) (hsub : ∀ r ∈ b, r ∈ rows)
    (u : UploadStore) : Toward (j.settle rows (s.reject none)) u (j.settle b u) := by
  refine toward_of_written hrows hb hsub (Or.inr (j.outcomes_settle b u)) fun t f => ?_
  rw [dataOf_settle]
  split
  · next h => exact Or.inr ⟨h.1, rfl⟩
  · exact Or.inl rfl

/-- A batch that fails leads to the goal, too. -/
theorem toward_foldl_keepPiece (hrows : Ascending rows) (hb : Ascending b)
    (hsub : ∀ r ∈ b, r ∈ rows) (keep : Family → Bool) (u : UploadStore) :
    Toward (j.settle rows (s.reject none)) u
      (((pieces (j.records b)).filter fun piece => keep piece.1).foldl (keepPiece j.table) u) := by
  refine toward_of_written hrows hb hsub (Or.inl ?_) fun t f => ?_
  · rw [foldl_keepPiece_frame fun piece hpiece =>
      placed_of_mem_pieces (List.mem_filter.mp hpiece).1]
  · rw [dataOf_foldl_keepPiece_filter]
    split
    · next h => exact Or.inr ⟨h.1, rfl⟩
    · exact Or.inl rfl

/-- A batch that goes through reaches the goal for its rows. -/
theorem settledAt_settle (hrows : Ascending rows) (hb : Ascending b) (hsub : ∀ r ∈ b, r ∈ rows)
    (htoward : Toward (j.settle rows (s.reject none)) s u) (haccepts : ∀ r ∈ b, j.Accepts u r)
    (hr : r ∈ b) : SettledAt (j.settle rows (s.reject none)) (j.settle b u) r.id where
  outcome := by
    have hbefore := htoward.outcome r.id
    rw [get?_outcomes_settle hrows (hsub r hr)] at hbefore ⊢
    rw [get?_outcomes_settle hb hr]
    -- what was read before the batch does not matter: it is as in `s` or as in the goal
    exact or_eq_or_of hbefore
  datum t f := by
    have hbefore := htoward.datum t f r.id
    rw [get?_dataOf_settle hrows (hsub r hr)] at hbefore ⊢
    rw [get?_dataOf_settle hb hr]
    by_cases ht : t = j.table
    · have hallowed : t = j.table ∧ (s.reject none).rejected ≠ some f :=
        ⟨ht, by simp [UploadStore.reject]⟩
      rw [if_pos hallowed] at hbefore ⊢
      by_cases hrejected : u.rejected = some f
      · -- the batch went through although the family is refused: the row has none of its data
        rw [dataOf_eq_nil_of_accepts (haccepts r hr) hrejected] at hbefore ⊢
        rw [if_neg fun h => h.2 hrejected]
        rcases hbefore with hsame | hsame
        · exact hsame
        · exact hsame
      · rw [if_pos ⟨ht, hrejected⟩]
        exact or_eq_or_of hbefore
    · rw [if_neg fun h => ht h.1] at hbefore ⊢
      rw [if_neg fun h => ht h.1]
      rcases hbefore with hsame | hsame
      · exact hsame
      · exact hsame

/-- What belongs to no row is as in the goal all along. -/
theorem settledAt_of_forall_ne {id : String} (h : ∀ r ∈ rows, r.id ≠ id)
    (htoward : Toward (j.settle rows (s.reject none)) s u) :
    SettledAt (j.settle rows (s.reject none)) u id where
  outcome := by
    have hgoal := (get?_settle_of_forall_ne (j := j) h (s.reject none)).1
    rcases htoward.outcome id with hsame | hsame
    · exact hsame.trans hgoal.symm
    · exact hsame
  datum t f := by
    have hgoal := (get?_settle_of_forall_ne (j := j) h (s.reject none)).2 t f
    rcases htoward.datum t f id with hsame | hsame
    · exact hsame.trans hgoal.symm
    · exact hsame

end Job

end SkyCatalog
