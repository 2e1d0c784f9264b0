import SkyCatalog.Proofs.Crossmatch.Retrieval
import SkyCatalog.Proofs.Decimal.TotalOrder

/-!
# Circles and cones

A matcher looks for the closest pair of positions and compares its separation with a radius; a
search asks of each position whether it lies within the radius. Both come to the same
(`circle_agrees_with_cone`), for any number of positions on either side, none included.

Nothing is assumed of the separation. It is compared in the same order of its arguments on both
sides, and if it were no number, it would be the least only where nothing else is to be compared.
-/

namespace SkyCatalog

variable {r : Record} {o : ReferenceObject} {radius : Float}

/-- The closest position lies within the radius exactly if some position does. -/
theorem exists_closestSeparation?_le_iff {p : Position} :
    (∃ s ∈ Holdings.closestSeparation? o p, s ≤ radius) ↔ o.LiesNear radius p := by
  rw [Holdings.closestSeparation?, Decimal.exists_least?_le_iff]
  simp [ReferenceObject.LiesNear, Position.separation]

/-- The closest position does not change with the families that are left out. -/
theorem closestSeparation?_restrictTo {families : List Family} (h : .icrs ∈ families) :
    Holdings.closestSeparation? (o.restrictTo families) = Holdings.closestSeparation? o := by
  funext p
  rw [Holdings.closestSeparation?, Holdings.closestSeparation?, o.positions_restrictTo h]

namespace Matcher

/-- The closest pair lies within the radius exactly if the object lies near some position. -/
theorem exists_separation?_le_iff : (∃ s ∈ separation? r o, s ≤ radius) ↔
    ∃ p ∈ Holdings.positions r, o.LiesNear radius p := by
  rw [separation?, Decimal.exists_least?_le_iff]
  simp only [List.mem_filterMap, ← exists_closestSeparation?_le_iff, Option.mem_def]
  constructor
  · rintro ⟨s, ⟨p, hp, hs⟩, hle⟩
    exact ⟨p, hp, s, hs, hle⟩
  · rintro ⟨p, hp, s, hs, hle⟩
    exact ⟨s, ⟨p, hp, hs⟩, hle⟩

theorem score_circle_of_near (h : ∃ p ∈ Holdings.positions r, o.LiesNear radius p) :
    (circle radius).score r o = 1.0 := by
  obtain ⟨s, hs, hle⟩ := exists_separation?_le_iff.mpr h
  rw [score, Option.mem_def.mp hs]
  exact if_pos hle

theorem score_circle_of_not_near (h : ¬∃ p ∈ Holdings.positions r, o.LiesNear radius p) :
    (circle radius).score r o = 0.0 := by
  rw [← exists_separation?_le_iff] at h
  rw [score]
  cases hs : separation? r o with
  | none => rfl
  | some s => exact if_neg fun hle => h ⟨s, hs, hle⟩

/-- **Circle and cone agree.** A circle scores one if the search around some position of the
record accepts the object, and zero if none does; restricting the object to families that include
positions changes neither the score nor the answer of any search. -/
theorem circle_agrees_with_cone (r : Record) (o : ReferenceObject) (radius : Float) :
    ((circle radius).score r o = 1.0 ↔
        ∃ p ∈ Holdings.positions r, (Search.cone p.ra p.dec radius).accepts o = true) ∧
      ((¬∃ p ∈ Holdings.positions r, (Search.cone p.ra p.dec radius).accepts o = true) →
        (circle radius).score r o = 0.0) ∧
      ∀ families : List Family, .icrs ∈ families →
        (circle radius).score r (o.restrictTo families) = (circle radius).score r o ∧
          ∀ ra dec, (Search.cone ra dec radius).accepts (o.restrictTo families) =
            (Search.cone ra dec radius).accepts o := by
  simp only [Search.accepts_cone_iff]
  refine ⟨⟨fun hone => ?_, score_circle_of_near⟩, score_circle_of_not_near, ?_⟩
  · by_contra hnone
    rw [score_circle_of_not_near hnone] at hone
    exact absurd hone (by decide)
  · intro families hfamilies
    constructor
    · simp only [score, separation?, closestSeparation?_restrictTo hfamilies]
    · intro ra dec
      simp only [Search.accepts, o.positions_restrictTo hfamilies]

/-- An object on both sides of the line where the circle closes, with its name left out, and one
without a position. -/
theorem circle_agrees_with_cone_at_the_seam :
    let r : Record := ⟨"r", [.icrs ⟨0.0, 0.0, 0.1, 0.1⟩]⟩
    let o : ReferenceObject := ⟨1, [.icrs ⟨359.9999, 0.0, 0.1, 0.1⟩, .designation ⟨"M33"⟩,
      .icrs ⟨0.0001, 0.0, 0.1, 0.1⟩]⟩
    let unplaced : ReferenceObject := ⟨2, [.designation ⟨"M33"⟩]⟩
    (circle 10.0).score r (o.restrictTo [.redshift, .icrs]) = (circle 10.0).score r o ∧
      (o.restrictTo [.redshift, .icrs]).data.length = 2 ∧ (circle 10.0).score r unplaced = 0.0 := by
  intro r o unplaced
  refine ⟨((circle_agrees_with_cone r o 10.0).2.2 _ (by decide)).1, by decide, ?_⟩
  exact (circle_agrees_with_cone r unplaced 10.0).2.1 (by simp [Search.accepts, unplaced,
    Holdings.positions, Holdings.data, Datum.position?])

end Matcher

end SkyCatalog
