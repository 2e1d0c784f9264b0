import SkyCatalog.Mapping.Plan
import SkyCatalog.Proofs.Except
import SkyCatalog.Proofs.Keyed

/-!
# The groups of a plan

The winners are distributed over the groups of their objects, and the column that feeds a slot
is then the winner of the slot with its unit read (`source?_groupWinners`); this fails with the
unit of a winner or not at all (`failure?_groupWinners`). A group is only formed for an object
that has a column (`formed_groupWinners`).

Constants are written into the groups one after the other. They form no group and touch no
column: each group ends with the present constants for its object, in their order
(`get?_addConstants_run`).
-/

namespace SkyCatalog

namespace Plan

/-! ## Reading the unit of a winner -/

theorem ofCandidate_eq_ok_iff {c : Candidate} {source : Source} :
    Source.ofCandidate c = .ok source ↔
      source.column = c.column.name ∧
        MeasureUnit.read (c.column.unit.getD "") = .ok source.unit ∧
          source.priority = c.priority := by
  unfold Source.ofCandidate
  constructor
  · intro h
    split at h
    · next unit hunit =>
      cases h
      exact ⟨rfl, hunit, rfl⟩
    · cases h
  · rintro ⟨hcolumn, hunit, hpriority⟩
    rw [hunit]
    cases source
    simp only at hcolumn hpriority
    rw [hcolumn, hpriority]

theorem failure?_ofCandidate (c : Candidate) :
    failure? (Source.ofCandidate c) =
      (failure? (MeasureUnit.read (c.column.unit.getD ""))).map fun e =>
        .unknownUnit c.column.name e.written := by
  unfold Source.ofCandidate
  cases MeasureUnit.read (c.column.unit.getD "") <;> rfl

/-! ## Columns -/

/-- A column feeds the slot that it is added for and changes no other. -/
theorem source?_addSource (groups : Keyed ObjectKey Group) (slot' : Slot) (source : Source)
    (slot : Slot) :
    source? ⟨addSource groups slot' source⟩ slot =
      if slot = slot' then some source else source? ⟨groups⟩ slot := by
  obtain ⟨object, parameter⟩ := slot
  obtain ⟨object', parameter'⟩ := slot'
  simp only [source?, addSource, Keyed.get?_put, Std.compare_eq_iff_eq, Slot.mk.injEq]
  by_cases hobject : object = object'
  · subst hobject
    by_cases hparameter : parameter = parameter'
    · simp [hparameter, Keyed.get?_put]
    · -- a new group has no other column than the one added
      cases groups.get? object <;> simp [hparameter, Keyed.get?_put]
  · simp [hobject]

/-- The step of `groupWinners`. -/
def addWinner (groups : Keyed ObjectKey Group) (e : Slot × Candidate) :
    Except ConversionError (Keyed ObjectKey Group) :=
  (Source.ofCandidate e.2).map (addSource groups e.1)

theorem groupWinners_eq (w : Keyed Slot Candidate) :
    groupWinners w = w.entries.foldlM addWinner .empty :=
  rfl

theorem addWinner_eq_ok_iff {groups groups' : Keyed ObjectKey Group} {e : Slot × Candidate} :
    addWinner groups e = .ok groups' ↔
      ∃ source, Source.ofCandidate e.2 = .ok source ∧ addSource groups e.1 source = groups' :=
  map_eq_ok_iff

/-- Each winner of a list feeds its slot, and the other slots are fed as before. -/
theorem source?_addWinner_run {l : List (Slot × Candidate)} (hl : (l.map (·.1)).Nodup)
    {groups groups' : Keyed ObjectKey Group} (h : l.foldlM addWinner groups = .ok groups')
    (slot : Slot) :
    source? ⟨groups'⟩ slot =
      ((Keyed.find? slot l).bind fun c => (Source.ofCandidate c).toOption).or
        (source? ⟨groups⟩ slot) := by
  induction l generalizing groups with
  | nil =>
      cases h
      rfl
  | cons e rest ih =>
      obtain ⟨hhead, hrest⟩ := List.nodup_cons.mp hl
      obtain ⟨middle, hstep, hrun⟩ := foldlM_cons_eq_ok_iff.mp h
      obtain ⟨source, hsource, rfl⟩ := addWinner_eq_ok_iff.mp hstep
      rw [ih hrest hrun, source?_addSource]
      by_cases hslot : slot = e.1
      · -- no later winner is for the same slot
        subst hslot
        rw [Keyed.find?_eq_none_iff.mpr hhead]
        simp [Keyed.find?, hsource, Except.toOption]
      · simp [Keyed.find?, hslot]

/-- The column that feeds a slot is its winner with the unit read. -/
theorem source?_groupWinners {w : Keyed Slot Candidate} {groups : Keyed ObjectKey Group}
    (h : groupWinners w = .ok groups) (slot : Slot) :
    source? ⟨groups⟩ slot = (w.get? slot).bind fun c => (Source.ofCandidate c).toOption := by
  rw [groupWinners_eq] at h
  rw [source?_addWinner_run w.nodup_keys h slot]
  exact Option.or_none

/-- The winners are grouped unless the unit of one of them is not understood. -/
theorem failure?_groupWinners (w : Keyed Slot Candidate) :
    failure? (groupWinners w) =
      w.entries.findSome? fun e => failure? (Source.ofCandidate e.2) := by
  have hbad : ∀ groups e, failure? (addWinner groups e) = failure? (Source.ofCandidate e.2) :=
    fun groups e => by rw [addWinner, failure?_map]
  rw [groupWinners_eq, failure?_foldlM hbad]

/-- Where the winners are grouped, the units of all are understood. -/
theorem exists_source_of_groupWinners {w : Keyed Slot Candidate}
    {groups : Keyed ObjectKey Group} (h : groupWinners w = .ok groups) {slot : Slot}
    {c : Candidate} (hc : w.get? slot = some c) : ∃ source, Source.ofCandidate c = .ok source := by
  have hfail := failure?_groupWinners w
  rw [h, failure?_ok] at hfail
  have hread := List.findSome?_eq_none_iff.mp hfail.symm _ (Keyed.mem_entries_iff.mpr hc)
  exact failure?_eq_none_iff.mp hread

/-- Groups as the winners form them: each has a column and no constant. -/
def Formed (groups : Keyed ObjectKey Group) : Prop :=
  ∀ object g, groups.get? object = some g →
    (∃ parameter source, g.columns.get? parameter = some source) ∧ g.constants = .empty

theorem Formed.addSource {groups : Keyed ObjectKey Group} (h : Formed groups) (slot : Slot)
    (source : Source) : Formed (addSource groups slot source) := by
  intro object g hg
  simp only [Plan.addSource, Keyed.get?_put, Std.compare_eq_iff_eq] at hg
  split at hg
  · cases hg
    refine ⟨⟨slot.parameter, source, by simp [Keyed.get?_put]⟩, ?_⟩
    cases hold : groups.get? slot.object with
    | none => rfl
    | some old => exact (h slot.object old hold).2
  · exact h object g hg

/-- The parameter that a constant gives, if it is present. -/
def presentConstant? (constant : Json) : Option Parameter :=
  (Parameter.ofConstant constant).toOption.join

/-- The parameters that constants for one object give. -/
def presentValues (values : List (String × Json)) : List (String × Parameter) :=
  values.filterMap fun e => (presentConstant? e.2).map (e.1, ·)

/-- The parameters that a list of constants gives an object, in their order. -/
def constantsFor (constants : List Constants) (object : ObjectKey) :
    List (String × Parameter) :=
  constants.flatMap fun c => if c.object = object then presentValues c.values.entries else []

theorem constantsFor_cons (c : Constants) (rest : List Constants) (object : ObjectKey) :
    constantsFor (c :: rest) object = constantsFor [c] object ++ constantsFor rest object := by
  simp [constantsFor]

/-- A group with more constants; a later one replaces an earlier one of its name. -/
def withConstants (g : Group) (values : List (String × Parameter)) : Group :=
  { g with constants := g.constants.putAll values }

theorem withConstants_append (g : Group) (a b : List (String × Parameter)) :
    withConstants g (a ++ b) = withConstants (withConstants g a) b := by
  simp only [withConstants, Keyed.putAll_append]

theorem addConstant_eq_ok {object : ObjectKey} {g g' : Group} {e : String × Json}
    (h : addConstant object g e = .ok g') : g' = withConstants g (presentValues [e]) := by
  unfold addConstant at h
  split at h
  · cases h
  · next hvalue =>
    cases h
    simp [presentValues, presentConstant?, hvalue, Except.toOption, withConstants, Keyed.putAll]
  · next value hvalue =>
    cases h
    simp [presentValues, presentConstant?, hvalue, Except.toOption, withConstants, Keyed.putAll]

theorem addConstant_run {object : ObjectKey} {values : List (String × Json)} {g g' : Group}
    (h : values.foldlM (addConstant object) g = .ok g') :
    g' = withConstants g (presentValues values) := by
  induction values generalizing g with
  | nil =>
      cases h
      rfl
  | cons e rest ih =>
      obtain ⟨middle, hstep, hrun⟩ := foldlM_cons_eq_ok_iff.mp h
      have hsplit : presentValues (e :: rest) = presentValues [e] ++ presentValues rest := by
        rw [presentValues, ← List.singleton_append, List.filterMap_append]
        rfl
      rw [ih hrun, addConstant_eq_ok hstep, hsplit, withConstants_append]

/-- Constants for one object change the group of the object, if there is one. -/
theorem get?_addConstants {groups groups' : Keyed ObjectKey Group} {c : Constants}
    (h : addConstants groups c = .ok groups') (object : ObjectKey) :
    groups'.get? object =
      (groups.get? object).map (withConstants · (constantsFor [c] object)) := by
  have hnone : ∀ g : Group, withConstants g [] = g := fun _ => rfl
  unfold addConstants at h
  split at h
  · next hget =>
    -- the object has no group, and its constants are passed over
    cases h
    by_cases hobject : c.object = object
    · simp [← hobject, hget]
    · simp [constantsFor, hobject, hnone]
  · next group hget =>
    obtain ⟨g', hrun, rfl⟩ := map_eq_ok_iff.mp h
    rw [Keyed.get?_put]
    by_cases hobject : object = c.object
    · subst hobject
      simp [hget, constantsFor, addConstant_run hrun]
    · simp [constantsFor, hobject, Ne.symm hobject, hnone]

/-- Every group ends with the constants for its object, in their order. -/
theorem get?_addConstants_run {constants : List Constants} {groups groups' : Keyed ObjectKey Group}
    (h : constants.foldlM addConstants groups = .ok groups') (object : ObjectKey) :
    groups'.get? object =
      (groups.get? object).map (withConstants · (constantsFor constants object)) := by
  induction constants generalizing groups with
  | nil =>
      cases h
      cases groups'.get? object <;> rfl
  | cons c rest ih =>
      obtain ⟨middle, hstep, hrun⟩ := foldlM_cons_eq_ok_iff.mp h
      rw [ih hrun, get?_addConstants hstep, constantsFor_cons c rest, Option.map_map]
      simp only [withConstants_append]
      rfl

/-- Constants do not change which column feeds a slot. -/
theorem source?_addConstants_run {constants : List Constants}
    {groups groups' : Keyed ObjectKey Group}
    (h : constants.foldlM addConstants groups = .ok groups') (slot : Slot) :
    source? ⟨groups'⟩ slot = source? ⟨groups⟩ slot := by
  simp only [source?, get?_addConstants_run h]
  cases groups.get? slot.object <;> rfl

/-- Constants fail with the unit of one of them. -/
theorem exists_of_addConstants_run_eq_error {constants : List Constants}
    {groups : Keyed ObjectKey Group} {e : ConversionError}
    (h : constants.foldlM addConstants groups = .error e) :
    ∃ c ∈ constants, ∃ entry ∈ c.values.entries, ∃ unit,
      Parameter.ofConstant entry.2 = .error unit ∧
        e = .unknownUnit (constantName c.object entry.1) unit.written := by
  obtain ⟨groups', c, hc, hstep⟩ := exists_of_foldlM_eq_error h
  unfold addConstants at hstep
  split at hstep
  · cases hstep
  · obtain ⟨g, entry, hentry, hfails⟩ :=
      exists_of_foldlM_eq_error (map_eq_error_iff.mp hstep)
    unfold addConstant at hfails
    split at hfails
    · next unit hunit =>
      cases hfails
      exact ⟨c, hc, entry, hentry, unit, hunit, rfl⟩
    · cases hfails
    · cases hfails

end Plan

end SkyCatalog
