import SkyCatalog.Proofs.Mapping.Groups
import SkyCatalog.Proofs.Mapping.Winners

/-!
# Resolving rules

A plan can be made if some column is offered for some slot, if the units of the winners are
understood, and if the constants are. Every slot is then fed by its winner
(`source?_of_resolve`). A failure is one of these three (`resolve_eq_error`).

`resolve_winners` collects what this says about the rules: which column feeds a slot, when
there is nothing to feed, that the unit of a column counts exactly if the column wins a slot,
and that the order of the rules never matters.
-/

namespace SkyCatalog

namespace Plan

variable {rules : List Rule} {constants : List Constants} {t : Table}

/-! ## Steps of the resolution -/

/-- Rules and tables enter a plan through their winners. -/
theorem resolve_congr {rules' : List Rule} {t' : Table} (hname : t'.name = t.name)
    (hwinners : winners rules' t' = winners rules t) :
    resolve rules' constants t' = resolve rules constants t := by
  simp only [resolve, hname, hwinners]

theorem isEmpty_winners_iff :
    (winners rules t).entries.isEmpty = true ↔ ∀ slot i c, ¬Offered rules t slot i c := by
  simp only [Keyed.isEmpty_entries_iff, get?_winners_eq_none_iff]

theorem resolve_of_isEmpty (h : (winners rules t).entries.isEmpty = true) :
    resolve rules constants t = .error (.noColumnsMatched t.name) := by
  simp only [resolve, h, if_true]
  rfl

theorem resolve_of_groupWinners_eq_error {e : ConversionError}
    (h : groupWinners (winners rules t) = .error e)
    (hsome : (winners rules t).entries.isEmpty = false) :
    resolve rules constants t = .error e := by
  simp only [resolve, hsome, h]
  rfl

theorem resolve_of_groupWinners_eq_ok {groups : Keyed ObjectKey Group}
    (h : groupWinners (winners rules t) = .ok groups)
    (hsome : (winners rules t).entries.isEmpty = false) :
    resolve rules constants t = (constants.foldlM addConstants groups).map Plan.mk := by
  simp only [resolve, hsome, h]
  rfl

/-- A plan has the groups that the winners form, with the constants in them. -/
theorem exists_groups_of_resolve {p : Plan} (h : resolve rules constants t = .ok p) :
    ∃ groups, groupWinners (winners rules t) = .ok groups ∧
      constants.foldlM addConstants groups = .ok p.groups := by
  cases hempty : (winners rules t).entries.isEmpty with
  | true =>
      rw [resolve_of_isEmpty hempty] at h
      cases h
  | false =>
      cases hgroups : groupWinners (winners rules t) with
      | error e =>
          rw [resolve_of_groupWinners_eq_error hgroups hempty] at h
          cases h
      | ok groups =>
          rw [resolve_of_groupWinners_eq_ok hgroups hempty] at h
          obtain ⟨groups', hrun, rfl⟩ := map_eq_ok_iff.mp h
          exact ⟨groups, rfl, hrun⟩

/-! ## Plans -/

/-- In a plan every slot is fed by its winner. -/
theorem source?_of_resolve {p : Plan} (h : resolve rules constants t = .ok p) (slot : Slot) :
    p.source? slot =
      ((winners rules t).get? slot).bind fun c => (Source.ofCandidate c).toOption := by
  obtain ⟨groups, hgroups, hrun⟩ := exists_groups_of_resolve h
  rw [← source?_groupWinners hgroups]
  exact source?_addConstants_run hrun slot

theorem source?_eq_none_iff {p : Plan} (h : resolve rules constants t = .ok p) {slot : Slot} :
    p.source? slot = none ↔ ∀ i c, ¬Offered rules t slot i c := by
  rw [source?_of_resolve h, ← get?_winners_eq_none_iff]
  cases hwinner : (winners rules t).get? slot with
  | none => simp
  | some c =>
      obtain ⟨groups, hgroups, -⟩ := exists_groups_of_resolve h
      obtain ⟨source, hsource⟩ := exists_source_of_groupWinners hgroups hwinner
      simp [hsource, Except.toOption]

theorem source?_eq_some_iff {p : Plan} (h : resolve rules constants t = .ok p) {slot : Slot}
    {source : Source} :
    p.source? slot = some source ↔
      ∃ i c, Wins rules t slot i c ∧ source.column = c.column.name ∧
        MeasureUnit.read (c.column.unit.getD "") = .ok source.unit ∧
          source.priority = c.priority := by
  simp only [source?_of_resolve h, Option.bind_eq_some_iff, get?_winners_eq_some_iff,
    toOption_eq_some_iff, ofCandidate_eq_ok_iff]
  constructor
  · rintro ⟨c, ⟨i, hwins⟩, hsource⟩
    exact ⟨i, c, hwins, hsource⟩
  · rintro ⟨i, c, hwins, hsource⟩
    exact ⟨c, ⟨i, hwins⟩, hsource⟩

/-! ## Failures -/

/-- Winners that cannot be grouped: the error names a winner and its unit. -/
theorem exists_wins_of_groupWinners_eq_error {e : ConversionError}
    (h : groupWinners (winners rules t) = .error e) :
    ∃ slot i c unit, Wins rules t slot i c ∧
      MeasureUnit.read (c.column.unit.getD "") = .error unit ∧
        e = .unknownUnit c.column.name unit.written := by
  have hfail := failure?_groupWinners (winners rules t)
  rw [h, failure?_error] at hfail
  obtain ⟨entry, hentry, hbad⟩ := List.exists_of_findSome?_eq_some hfail.symm
  rw [failure?_ofCandidate] at hbad
  obtain ⟨unit, hunit, rfl⟩ := Option.map_eq_some_iff.mp hbad
  obtain ⟨i, hwins⟩ := get?_winners_eq_some_iff.mp (Keyed.mem_entries_iff.mp hentry)
  exact ⟨entry.1, i, entry.2, unit, hwins, failure?_eq_some_iff.mp hunit, rfl⟩

/-- No plan is made for one of three causes: nothing is offered, the unit of a winner is not
understood, or that of a constant is not. -/
theorem resolve_eq_error {e : ConversionError} (h : resolve rules constants t = .error e) :
    ((∀ slot i c, ¬Offered rules t slot i c) ∧ e = .noColumnsMatched t.name) ∨
      (∃ slot i c unit, Wins rules t slot i c ∧
        MeasureUnit.read (c.column.unit.getD "") = .error unit ∧
          e = .unknownUnit c.column.name unit.written) ∨
      ∃ c ∈ constants, ∃ entry ∈ c.values.entries, ∃ unit,
        Parameter.ofConstant entry.2 = .error unit ∧
          e = .unknownUnit (constantName c.object entry.1) unit.written := by
  cases hempty : (winners rules t).entries.isEmpty with
  | true =>
      rw [resolve_of_isEmpty hempty] at h
      cases h
      exact Or.inl ⟨isEmpty_winners_iff.mp hempty, rfl⟩
  | false =>
      cases hgroups : groupWinners (winners rules t) with
      | error e' =>
          rw [resolve_of_groupWinners_eq_error hgroups hempty] at h
          cases h
          exact Or.inr (Or.inl (exists_wins_of_groupWinners_eq_error hgroups))
      | ok groups =>
          rw [resolve_of_groupWinners_eq_ok hgroups hempty] at h
          exact Or.inr (Or.inr (exists_of_addConstants_run_eq_error (map_eq_error_iff.mp h)))

theorem resolve_eq_noColumnsMatched_iff :
    resolve rules constants t = .error (.noColumnsMatched t.name) ↔
      ∀ slot i c, ¬Offered rules t slot i c := by
  refine ⟨fun h => ?_, fun h => resolve_of_isEmpty (isEmpty_winners_iff.mpr h)⟩
  obtain ⟨hnone, -⟩ | ⟨_, _, _, _, -, -, heq⟩ | ⟨_, _, _, _, _, -, heq⟩ := resolve_eq_error h
  · exact hnone
  · cases heq
  · cases heq

/-- A winner whose unit is not understood leaves no plan; the error names such a winner. -/
theorem resolve_of_wins_unknownUnit {slot : Slot} {i : Nat} {c : Candidate}
    (hwins : Wins rules t slot i c)
    (hunit : ∀ unit, MeasureUnit.read (c.column.unit.getD "") ≠ .ok unit) :
    ∃ slot' i' c' unit, Wins rules t slot' i' c' ∧
      MeasureUnit.read (c'.column.unit.getD "") = .error unit ∧
        resolve rules constants t = .error (.unknownUnit c'.column.name unit.written) := by
  have hwinner : (winners rules t).get? slot = some c := get?_winners_eq_some_iff.mpr ⟨i, hwins⟩
  cases hgroups : groupWinners (winners rules t) with
  | error e =>
      have hempty : (winners rules t).entries.isEmpty = false := by
        refine Bool.eq_false_iff.mpr fun h => ?_
        exact isEmpty_winners_iff.mp h slot i c hwins.offered
      rw [resolve_of_groupWinners_eq_error hgroups hempty]
      obtain ⟨slot', i', c', unit, hwins', hread, rfl⟩ :=
        exists_wins_of_groupWinners_eq_error hgroups
      exact ⟨slot', i', c', unit, hwins', hread, rfl⟩
  | ok groups =>
      obtain ⟨source, hsource⟩ := exists_source_of_groupWinners hgroups hwinner
      exact absurd (ofCandidate_eq_ok_iff.mp hsource).2.1 (hunit source.unit)

/-! ## The rules of a plan -/

/-- **The winners feed the slots.** No plan is made for lack of a column exactly if no column
is offered for any slot. In a plan a slot is fed by no column exactly if none is offered for
it, and otherwise by the winner, under its name, with its unit and its priority. A winner with
a unit that is not understood leaves no plan; the unit of a column that wins nothing has no
effect on the outcome. The outcome is the same for the rules in any order. -/
theorem resolve_winners (rules : List Rule) (constants : List Constants) (t : Table) :
    (resolve rules constants t = .error (.noColumnsMatched t.name) ↔
        ∀ slot i c, ¬Offered rules t slot i c) ∧
      (∀ p, resolve rules constants t = .ok p → ∀ slot,
        (p.source? slot = none ↔ ∀ i c, ¬Offered rules t slot i c) ∧
          ∀ source, p.source? slot = some source ↔
            ∃ i c, Wins rules t slot i c ∧ source.column = c.column.name ∧
              MeasureUnit.read (c.column.unit.getD "") = .ok source.unit ∧
                source.priority = c.priority) ∧
      (∀ slot i c, Wins rules t slot i c →
        (∀ unit, MeasureUnit.read (c.column.unit.getD "") ≠ .ok unit) →
          ∃ slot' i' c' unit, Wins rules t slot' i' c' ∧
            MeasureUnit.read (c'.column.unit.getD "") = .error unit ∧
              resolve rules constants t = .error (.unknownUnit c'.column.name unit.written)) ∧
      (∀ i, (∀ slot c, ¬Wins rules t slot i c) → ∀ unit,
        resolve rules constants (t.withUnit i unit) = resolve rules constants t) ∧
      ∀ rules', rules.Perm rules' →
        resolve rules' constants t = resolve rules constants t := by
  refine ⟨resolve_eq_noColumnsMatched_iff, fun p h slot => ?_, fun slot i c hwins hunit => ?_,
    fun i h unit => ?_, fun rules' h => ?_⟩
  · exact ⟨source?_eq_none_iff h, fun source => source?_eq_some_iff h⟩
  · exact resolve_of_wins_unknownUnit hwins hunit
  · exact resolve_congr rfl (winners_withUnit unit h)
  · exact resolve_congr rfl (winners_perm h t)

/-- Of two columns that one rule accepts the earlier wins, and the other may carry a unit that
is not understood. -/
theorem resolve_winners_losing_unit :
    ∃ p, resolve [⟨⟨⟨.designation, ""⟩, "design"⟩, .all [], 1⟩] []
          ⟨1, "survey", [⟨"id", .text, none, none, none, false⟩,
            ⟨"size", .text, some "furlong", none, none, false⟩]⟩ = .ok p ∧
      p.source? ⟨⟨.designation, ""⟩, "design"⟩ = some ⟨"id", .dimensionless, 1⟩ := by
  have hresolve : (resolve [⟨⟨⟨.designation, ""⟩, "design"⟩, .all [], 1⟩] []
      ⟨1, "survey", [⟨"id", .text, none, none, none, false⟩,
        ⟨"size", .text, some "furlong", none, none, false⟩]⟩).toOption.isSome = true := by
    decide +kernel
  obtain ⟨p, hp⟩ := Option.isSome_iff_exists.mp hresolve
  have hplan := toOption_eq_some_iff.mp hp
  have hunit : (MeasureUnit.read "").toOption = some .dimensionless := by decide +kernel
  refine ⟨p, hplan, (((resolve_winners _ _ _).2.1 p hplan _).2 _).mpr
    ⟨0, ⟨⟨"id", .text, none, none, none, false⟩, 1⟩, ?_, rfl, toOption_eq_some_iff.mp hunit, rfl⟩⟩
  -- every offer has the priority of the one rule
  refine ⟨⟨rfl, _, List.mem_singleton_self _, rfl, rfl, rfl⟩, ?_, fun i' c' _ _ => Nat.zero_le i'⟩
  rintro i' c' ⟨-, rule, hrule, -, -, hpriority⟩
  rw [← hpriority, List.mem_singleton.mp hrule]

end Plan

end SkyCatalog
