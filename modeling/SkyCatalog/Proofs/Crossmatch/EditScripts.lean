import Mathlib.Order.MinMax

/-!
# Edit scripts

A script changes a text by inserting, deleting and substituting single characters one after the
other (`runScript?`). Which texts can be turned into which others by scripts of a given length is
the relation `Edits`; it does not depend on whether texts are read forwards or backwards
(`edits_reverse_iff`).

`distance` is the recursion on first characters that edit distances satisfy. A script of that
length exists (`edits_distance`), and as no edit brings a text nearer to another by more than one
(`EditStep.distance_le`), no script is shorter (`Edits.distance_le`).
-/

namespace SkyCatalog

/-! ## Scripts -/

/-- A change at the front of a text. -/
inductive Change where
  | insert (c : Char)
  | delete
  | substitute (c : Char)

/-- The text after a change, if there is a character to be changed. -/
def Change.apply? : Change → List Char → Option (List Char)
  | .insert c, cs => some (c :: cs)
  | .delete, _ :: rest => some rest
  | .substitute c, _ :: rest => some (c :: rest)
  | .delete, [] | .substitute _, [] => none

/-- The text after a change behind some of its characters. -/
def Change.applyAt? (change : Change) : Nat → List Char → Option (List Char)
  | 0, cs => change.apply? cs
  | _ + 1, [] => none
  | place + 1, c :: rest => (change.applyAt? place rest).map (c :: ·)

/-- A change of a single character and its place in the text. -/
structure Edit where
  place : Nat
  change : Change

/-- The text after all edits of a script, if each of them can be made. -/
def runScript? (script : List Edit) (text : List Char) : Option (List Char) :=
  script.foldlM (fun cs edit => edit.change.applyAt? edit.place cs) text

/-- A text and what a single edit makes of it. -/
inductive EditStep : List Char → List Char → Prop where
  | insert (front : List Char) (c : Char) (back : List Char) :
      EditStep (front ++ back) (front ++ c :: back)
  | delete (front : List Char) (c : Char) (back : List Char) :
      EditStep (front ++ c :: back) (front ++ back)
  | substitute (front : List Char) (c d : Char) (back : List Char) :
      EditStep (front ++ c :: back) (front ++ d :: back)

/-- A text and what a number of edits make of it. -/
inductive Edits : Nat → List Char → List Char → Prop where
  | none (a : List Char) : Edits 0 a a
  | step {n : Nat} {a b c : List Char} (first : EditStep a b) (rest : Edits n b c) :
      Edits (n + 1) a c

variable {a b c : List Char} {n : Nat}

theorem EditStep.cons (h : EditStep a b) (x : Char) : EditStep (x :: a) (x :: b) := by
  cases h with
  | insert front c back => exact .insert (x :: front) c back
  | delete front c back => exact .delete (x :: front) c back
  | substitute front c d back => exact .substitute (x :: front) c d back

theorem EditStep.reverse (h : EditStep a b) : EditStep a.reverse b.reverse := by
  cases h with
  | insert front c back => simpa using EditStep.insert back.reverse c front.reverse
  | delete front c back => simpa using EditStep.delete back.reverse c front.reverse
  | substitute front c d back => simpa using EditStep.substitute back.reverse c d front.reverse

/-- A change behind some characters leaves them alone. -/
theorem Change.applyAt?_append {change : Change} (h : change.apply? a = some b)
    (front : List Char) : change.applyAt? front.length (front ++ a) = some (front ++ b) := by
  induction front with
  | nil => exact h
  | cons x rest ih =>
      rw [List.cons_append, List.length_cons, Change.applyAt?, ih]
      rfl

/-- The steps are what edits do. -/
theorem exists_edit_iff : (∃ edit : Edit, edit.change.applyAt? edit.place a = some b) ↔
    EditStep a b := by
  constructor
  · rintro ⟨⟨place, change⟩, h⟩
    -- the characters before the place are the same in both texts
    induction place generalizing a b with
    | zero =>
        cases change with
        | insert c =>
            cases h
            exact .insert [] c a
        | delete =>
            cases a with
            | nil => cases h
            | cons x rest =>
                cases h
                exact .delete [] x b
        | substitute c =>
            cases a with
            | nil => cases h
            | cons x rest =>
                cases h
                exact .substitute [] x c rest
    | succ place ih =>
        cases a with
        | nil => cases h
        | cons x rest =>
            obtain ⟨changed, hchanged, rfl⟩ := Option.map_eq_some_iff.mp h
            exact (ih hchanged).cons x
  · rintro (⟨front, c, back⟩ | ⟨front, c, back⟩ | ⟨front, c, d, back⟩)
    · exact ⟨⟨front.length, .insert c⟩, Change.applyAt?_append rfl front⟩
    · exact ⟨⟨front.length, .delete⟩, Change.applyAt?_append rfl front⟩
    · exact ⟨⟨front.length, .substitute d⟩, Change.applyAt?_append rfl front⟩

theorem exists_script_iff :
    (∃ script, runScript? script a = some b ∧ script.length = n) ↔ Edits n a b := by
  constructor
  · rintro ⟨script, hrun, rfl⟩
    induction script generalizing a with
    | nil =>
        cases hrun
        exact .none _
    | cons edit rest ih =>
        obtain ⟨m, hedit, hrest⟩ := Option.bind_eq_some_iff.mp hrun
        exact .step (exists_edit_iff.mp ⟨edit, hedit⟩) (ih hrest)
  · intro h
    induction h with
    | none a => exact ⟨[], rfl, rfl⟩
    | step first _ ih =>
        obtain ⟨edit, hedit⟩ := exists_edit_iff.mpr first
        obtain ⟨script, hrun, hlength⟩ := ih
        refine ⟨edit :: script, Option.bind_eq_some_iff.mpr ⟨_, hedit, hrun⟩, ?_⟩
        rw [List.length_cons, hlength]

theorem Edits.cons (h : Edits n a b) (x : Char) : Edits n (x :: a) (x :: b) := by
  induction h with
  | none a => exact .none _
  | step first _ ih => exact .step (first.cons x) ih

/-- The last edit of a script. -/
theorem Edits.snoc (h : Edits n a b) (last : EditStep b c) : Edits (n + 1) a c := by
  induction h with
  | none a => exact .step last (.none c)
  | step first _ ih => exact .step first (ih last)

theorem Edits.reverse (h : Edits n a b) : Edits n a.reverse b.reverse := by
  induction h with
  | none a => exact .none _
  | step first _ ih => exact .step first.reverse ih

theorem edits_reverse_iff : Edits n a.reverse b.reverse ↔ Edits n a b :=
  ⟨fun h => by simpa using h.reverse, Edits.reverse⟩

/-! ## The recursion on first characters -/

/-- The distance of two texts, by what becomes of their first characters: the one is deleted, the
other inserted, or the one substituted by the other where they differ. -/
def distance : List Char → List Char → Nat
  | [], bs => bs.length
  | as@(_ :: _), [] => as.length
  | c :: as, d :: bs =>
      min (min (distance as (d :: bs) + 1) (distance (c :: as) bs + 1))
        (distance as bs + if c = d then 0 else 1)
termination_by as bs => as.length + bs.length

@[simp] theorem distance_nil (bs : List Char) : distance [] bs = bs.length := by
  rw [distance]

@[simp] theorem distance_nil_right (as : List Char) : distance as [] = as.length := by
  cases as <;> rw [distance]

theorem distance_cons_cons (x y : Char) (a b : List Char) :
    distance (x :: a) (y :: b) = min (min (distance a (y :: b) + 1) (distance (x :: a) b + 1))
      (distance a b + if x = y then 0 else 1) := by
  rw [distance]

theorem distance_cons_le (x : Char) (a c : List Char) :
    distance (x :: a) c ≤ distance a c + 1 := by
  cases c with
  | nil => simp
  | cons y c =>
      rw [distance_cons_cons]
      omega

theorem distance_cons_right_le (a : List Char) (y : Char) (c : List Char) :
    distance a (y :: c) ≤ distance a c + 1 := by
  cases a with
  | nil => simp
  | cons x a =>
      rw [distance_cons_cons]
      omega

theorem distance_cons_cons_le (x y : Char) (a c : List Char) :
    distance (x :: a) (y :: c) ≤ distance a c + if x = y then 0 else 1 := by
  rw [distance_cons_cons]
  exact min_le_right _ _

/-! ## A script of that length -/

theorem edits_insert (b : List Char) : Edits b.length [] b := by
  induction b with
  | nil => exact .none []
  | cons x b ih => exact ih.snoc (.insert [] x b)

theorem edits_delete (a : List Char) : Edits a.length a [] := by
  induction a with
  | nil => exact .none []
  | cons x a ih => exact .step (.delete [] x a) ih

/-- The first characters become the same by one edit at most. -/
theorem Edits.cons_cons (h : Edits n a b) (x y : Char) :
    Edits (n + if x = y then 0 else 1) (x :: a) (y :: b) := by
  by_cases hxy : x = y
  · subst hxy
    simpa using h.cons x
  · rw [if_neg hxy]
    exact .step (.substitute [] x y a) (h.cons y)

/-- There is a script of as many edits. -/
theorem edits_distance (a b : List Char) : Edits (distance a b) a b := by
  induction a, b using distance.induct with
  | case1 b =>
      rw [distance_nil]
      exact edits_insert b
  | case2 x a =>
      rw [distance_nil_right]
      exact edits_delete (x :: a)
  | case3 x a y b ihdelete ihinsert ihboth =>
      rw [distance_cons_cons]
      -- the first characters are treated as where the minimum lies
      rcases min_choice (min (distance a (y :: b) + 1) (distance (x :: a) b + 1))
        (distance a b + if x = y then 0 else 1) with hmin | hmin
      · rw [hmin]
        rcases min_choice (distance a (y :: b) + 1) (distance (x :: a) b + 1) with hmin | hmin
        · rw [hmin]
          exact .step (.delete [] x a) ihdelete
        · rw [hmin]
          exact ihinsert.snoc (.insert [] y b)
      · rw [hmin]
        exact ihboth.cons_cons x y

/-! ## No shorter script -/

theorem distance_le_cons (x : Char) (a c : List Char) :
    distance a c ≤ distance (x :: a) c + 1 := by
  -- by induction on the text that is measured against
  induction c with
  | nil =>
      rw [distance_nil_right, distance_nil_right, List.length_cons]
      omega
  | cons y c ih =>
      have hinsert := distance_cons_right_le a y c
      rw [distance_cons_cons]
      omega

theorem distance_substitute_le (x y : Char) (a c : List Char) :
    distance (x :: a) c ≤ distance (y :: a) c + 1 := by
  induction c with
  | nil => simp
  | cons z c ih =>
      have hdelete := distance_cons_le x a (z :: c)
      have hinsert := distance_cons_right_le (x :: a) z c
      have hboth := distance_cons_cons_le x z a c
      have hone : (if x = z then 0 else 1) ≤ 1 := by split <;> omega
      rw [distance_cons_cons y]
      omega

/-- What stands in front of two texts leaves their distances from a third as near to each other as
they were. -/
theorem distance_cons_mono (x : Char) (h : ∀ c, distance a c ≤ distance b c + 1) (c : List Char) :
    distance (x :: a) c ≤ distance (x :: b) c + 1 := by
  induction c with
  | nil => simpa using h []
  | cons y c ih =>
      have hdelete := h (y :: c)
      have hboth := h c
      rw [distance_cons_cons, distance_cons_cons]
      omega

theorem distance_append_mono (h : ∀ c, distance a c ≤ distance b c + 1) (front : List Char) :
    ∀ c, distance (front ++ a) c ≤ distance (front ++ b) c + 1 := by
  induction front with
  | nil => exact h
  | cons x rest ih => exact distance_cons_mono x ih

/-- **No edit brings a text nearer to another by more than one.** -/
theorem EditStep.distance_le (h : EditStep a b) (c : List Char) :
    distance a c ≤ distance b c + 1 := by
  -- what stands before the edit is alike on both sides
  cases h with
  | insert front x back =>
      apply distance_append_mono
      exact distance_le_cons x back
  | delete front x back =>
      apply distance_append_mono
      exact distance_cons_le x back
  | substitute front x y back =>
      apply distance_append_mono
      exact distance_substitute_le x y back

theorem distance_self (a : List Char) : distance a a = 0 := by
  induction a with
  | nil => rw [distance_nil, List.length_nil]
  | cons x a ih =>
      have hboth := distance_cons_cons_le x x a a
      rw [if_pos rfl, ih] at hboth
      omega

/-- No script is shorter. -/
theorem Edits.distance_le (h : Edits n a b) : distance a b ≤ n := by
  induction h with
  | none a => rw [distance_self]
  | @step n a b c first _ ih =>
      have hstep := first.distance_le c
      exact hstep.trans (Nat.succ_le_succ ih)

end SkyCatalog
