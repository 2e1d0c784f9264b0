import SkyCatalog.Proofs.Assembly.Correspondence
import SkyCatalog.Proofs.Assembly.Invariant
import SkyCatalog.Proofs.Decimal.Bounds

/-!
# Scores lie between zero and one

Whatever configuration a matcher is built from, its numbers are in their ranges
(`admissible_of_build`); nothing is asked of the configuration, not even that its fields have
different names. From there on it is an induction on the tree (`score_mem_unit`). The score of a
leaf is zero, one, a constant in the range or the similarity of two names, which is computed by a
division and a subtraction that are both rounded. The main statement is `score_of_build`.
-/

namespace SkyCatalog.Matcher

open Construction Decimal

/-! ## What is built -/

/-- The numbers of a matcher that is built are in their ranges. -/
theorem admissible_of_build {v : Json} {m : Matcher} (h : registry.build v = .ok m) :
    m.Admissible := by
  -- each constructor makes an admissible matcher of the numbers and the parts that it takes
  refine Registry.build_invariant (P := Admissible) ?_ h
  intro name c s a s' hc hparts hrun
  rcases get?_constructors_iff.mp hc with ⟨-, rfl⟩ | ⟨-, rfl⟩ | ⟨-, rfl⟩ | ⟨-, rfl⟩ | ⟨-, rfl⟩ |
    ⟨-, rfl⟩ | ⟨-, rfl⟩
  · obtain ⟨radius, hradius, rfl⟩ := (checks_notNegative _).exists_of_run hrun
    exact hradius
  · obtain ⟨maxDistance, m, hcheck, hrest⟩ := run_bind_eq_ok_iff.mp hrun
    obtain ⟨-, -, -, hdistance⟩ := (checks_notNegative _ _ _ _).mp hcheck
    obtain ⟨ignoreCase, m', -, hmake⟩ := run_bind_eq_ok_iff.mp hrest
    obtain ⟨rfl, -⟩ := run_pure_eq_ok_iff.mp hmake
    exact hdistance
  · obtain ⟨tolerance, htolerance, rfl⟩ := (checks_notNegative _).exists_of_run hrun
    exact htolerance
  · obtain ⟨value, hvalue, rfl⟩ := (checks_scoreArgument _).exists_of_run hrun
    exact hvalue
  · obtain ⟨left, m, htook, hrest⟩ := run_bind_eq_ok_iff.mp hrun
    obtain ⟨right, m', htook', hmake⟩ := run_bind_eq_ok_iff.mp hrest
    obtain ⟨rfl, -⟩ := run_pure_eq_ok_iff.mp hmake
    have hleft := run_part_eq_ok_iff.mp htook
    have hright := run_part_eq_ok_iff.mp htook'
    exact ⟨hleft.satisfies hparts, hright.satisfies (hleft.partsSatisfy hparts)⟩
  · obtain ⟨inner, hinner, rfl⟩ := exists_of_run_part hparts hrun
    exact hinner
  · obtain ⟨inner, hinner, rfl⟩ := exists_of_run_part hparts hrun
    exact hinner

/-! ## What is scored -/

theorem zero_mem_unit : (0.0 : Float) ≤ 0.0 ∧ (0.0 : Float) ≤ 1.0 :=
  inUnit_iff.mp (.zero .positive)

theorem one_mem_unit : (0.0 : Float) ≤ 1.0 ∧ (1.0 : Float) ≤ 1.0 :=
  inUnit_iff.mp (.finite (by decide) (Int.le_refl _) (Nat.le_refl _))

/-- Both outcomes of a test are scores. -/
theorem test_mem_unit (p : Prop) [Decidable p] :
    0.0 ≤ (if p then 1.0 else 0.0 : Float) ∧ (if p then 1.0 else 0.0 : Float) ≤ 1.0 := by
  split
  · exact one_mem_unit
  · exact zero_mem_unit

/-- Two names are similar to a degree from zero to one. -/
theorem similarity_mem_unit (distance : Nat) {maxDistance : Float}
    (h : isNotNegative maxDistance = true) :
    0.0 ≤ similarity distance maxDistance ∧ similarity distance maxDistance ≤ 1.0 := by
  obtain ⟨hfinite, hlow⟩ : maxDistance.isFinite = true ∧ 0.0 ≤ maxDistance := by
    simpa [isNotNegative] using h
  unfold similarity
  split
  · exact test_mem_unit _
  · next hpos =>
    obtain ⟨m, e, hm, hunpack⟩ := exists_unpack_of_pos hfinite hlow hpos
    have hquotient := hasSign_div (hasSign_ofNat distance) hunpack
    simp only
    split
    · next hleast => exact ⟨hleast, one_sub_le_one hquotient hleast⟩
    · -- the distance is beyond the greatest, and the difference is less than zero
      exact zero_mem_unit

theorem score_mem_unit {m : Matcher} (h : m.Admissible) (r : Record) (o : ReferenceObject) :
    0.0 ≤ m.score r o ∧ m.score r o ≤ 1.0 := by
  induction m with
  | circle radius =>
      rw [score]
      split
      · exact test_mem_unit _
      · exact zero_mem_unit
  | names maxDistance ignoreCase =>
      rw [score]
      split
      · exact similarity_mem_unit _ h
      · exact zero_mem_unit
  | velocity tolerance =>
      rw [score]
      split
      · exact test_mem_unit _
      · exact zero_mem_unit
  | constant s =>
      rw [score]
      simpa [isScore, Admissible] using h
  | both left right ihleft ihright => exact mul_mem_unit (ihleft h.1) (ihright h.2)
  | ifNamed inner ih =>
      rw [score]
      split
      · exact one_mem_unit
      · exact ih h
  | ifVelocity inner ih =>
      rw [score]
      split
      · exact one_mem_unit
      · exact ih h
  | custom f => exact h.elim

/-- **A score lies between zero and one**, whatever the configuration that the matcher was built
from, the record and the reference object. -/
theorem score_of_build {v : Json} {m : Matcher} (h : registry.build v = .ok m) (r : Record)
    (o : ReferenceObject) :
    0.0 ≤ m.score r o ∧ m.score r o ≤ 1.0 ∧ (m.score r o).isNaN = false := by
  obtain ⟨hlow, hhigh⟩ := score_mem_unit (admissible_of_build h) r o
  exact ⟨hlow, hhigh, isNaN_eq_false_of_le hlow⟩

/-- The product of a constant and of the similarity of two names, which differ in two places. -/
theorem score_of_build_nested :
    let v : Json := .object
      [("matcher1", .object [("type", .text "constant"), ("value", .real 0.5)]),
        ("matcher2", .object [("matcher", .object
          [("max_distance", .int 3), ("type", .text "levenshtein")]),
          ("type", .text "ignore_no_name")]), ("type", .text "and")]
    let m : Matcher := .both (.constant 0.5) (.ifNamed (.names (Float.ofInt 3) false))
    let r : Record := ⟨"r", [.designation ⟨"NGC 598"⟩]⟩
    let o : ReferenceObject := ⟨5818, [.designation ⟨"NGC 589"⟩]⟩
    registry.build v = .ok m ∧
      0.0 ≤ m.score r o ∧ m.score r o ≤ 1.0 ∧ (m.score r o).isNaN = false := by
  intro v m r o
  have h : registry.build v = .ok m := rfl
  exact ⟨h, score_of_build h r o⟩

end SkyCatalog.Matcher
