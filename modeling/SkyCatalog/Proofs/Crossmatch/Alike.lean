import SkyCatalog.Proofs.Crossmatch.Cones

/-!
# Matchers see sets

Positions and names are compared in all pairs, and all that is asked of velocities outside their
own matcher is whether there are any. A tree without a matcher of velocities therefore gives the
same score to data that have the same names and the same positions (`Holdings.Alike`), in whatever
order and however often they are listed. The main statement is `score_of_sets`.

A matcher of velocities is left out with reason: it compares the first velocity of the record with
the mean of those of the object, which the order and the number of the data change.
-/

namespace SkyCatalog

namespace Holdings

/-- Two holders of data have the same names and the same positions, and both or neither of them
hold a velocity. -/
structure Alike {α : Type} [Holdings α] (a b : α) : Prop where
  designations : ∀ d, d ∈ Holdings.designations a ↔ d ∈ Holdings.designations b
  positions : ∀ p, p ∈ Holdings.positions a ↔ p ∈ Holdings.positions b
  velocity : (∃ v, .redshift v ∈ Holdings.data a) ↔ ∃ v, .redshift v ∈ Holdings.data b

variable {α : Type} [Holdings α] {a b : α}

/-- The same data in any order, and repeated or not, are alike. -/
theorem alike_of_data (h : ∀ d, d ∈ data a ↔ d ∈ data b) : Alike a b where
  designations d := by simp only [Holdings.designations, List.mem_filterMap, h]
  positions p := by simp only [Holdings.positions, List.mem_filterMap, h]
  velocity := by simp only [h]

theorem Alike.isEmpty_designations (h : Alike a b) :
    (Holdings.designations a).isEmpty = (Holdings.designations b).isEmpty := by
  rw [Bool.eq_iff_iff, List.isEmpty_iff, List.isEmpty_iff]
  simp only [List.eq_nil_iff_forall_not_mem, h.designations]

theorem Alike.mem_foldedNames (h : Alike a b) {ignoreCase : Bool} {name : String} :
    name ∈ Matcher.foldedNames ignoreCase a ↔ name ∈ Matcher.foldedNames ignoreCase b := by
  simp only [Matcher.foldedNames, List.mem_map, h.designations]

end Holdings

namespace Matcher

open Holdings (Alike)

/-- The tree compares names and positions only, apart from asking for velocities. -/
def ByNamesAndPositions : Matcher → Prop
  | .circle _ => True
  | .names _ _ => True
  | .velocity _ => False
  | .constant _ => True
  | .both left right => left.ByNamesAndPositions ∧ right.ByNamesAndPositions
  | .ifNamed inner => inner.ByNamesAndPositions
  | .ifVelocity inner => inner.ByNamesAndPositions
  | .custom _ => False

variable {r r' : Record} {o o' : ReferenceObject}

/-- The least of some numbers depends on which they are. -/
theorem min?_congr {l l' : List Nat} (h : ∀ n, n ∈ l ↔ n ∈ l') : l.min? = l'.min? := by
  refine Option.ext fun n => ?_
  simp only [List.min?_eq_some_iff, h]

theorem nameDistance?_congr (hr : Alike r r') (ho : Alike o o') (ignoreCase : Bool) :
    nameDistance? ignoreCase r o = nameDistance? ignoreCase r' o' := by
  refine min?_congr fun n => ?_
  simp only [List.mem_flatMap, List.mem_map, hr.mem_foldedNames, ho.mem_foldedNames]

theorem liesNear_congr (ho : Alike o o') {radius : Float} {p : Position} :
    o.LiesNear radius p ↔ o'.LiesNear radius p := by
  simp only [ReferenceObject.LiesNear, ho.positions]

theorem score_circle_congr (hr : Alike r r') (ho : Alike o o') (radius : Float) :
    (circle radius).score r o = (circle radius).score r' o' := by
  have hnear : (∃ p ∈ Holdings.positions r, o.LiesNear radius p) ↔
      ∃ p ∈ Holdings.positions r', o'.LiesNear radius p := by
    simp only [hr.positions, liesNear_congr ho]
  by_cases h : ∃ p ∈ Holdings.positions r, o.LiesNear radius p
  · rw [score_circle_of_near h, score_circle_of_near (hnear.mp h)]
  · rw [score_circle_of_not_near h, score_circle_of_not_near (mt hnear.mpr h)]

/-- **The score of data that are alike** is the same, by induction on the tree. -/
theorem score_congr {m : Matcher} (hm : m.ByNamesAndPositions) (hr : Alike r r')
    (ho : Alike o o') : m.score r o = m.score r' o' := by
  induction m with
  | circle radius =>
      -- of the separations it matters only whether one is within the radius
      exact score_circle_congr hr ho radius
  | names maxDistance ignoreCase => rw [score, score, nameDistance?_congr hr ho]
  | velocity tolerance => exact hm.elim
  | constant value => rfl
  | both left right ihleft ihright => rw [score, score, ihleft hm.1, ihright hm.2]
  | ifNamed inner ih =>
      rw [score, score, hr.isEmpty_designations, ho.isEmpty_designations, ih hm]
  | ifVelocity inner ih =>
      -- the first velocity and the mean differ, but not whether there is one
      have hrecord : (Holdings.redshift? r).isNone = (Holdings.redshift? r').isNone := by
        rw [Bool.eq_iff_iff, Record.isNone_redshift?_iff, Record.isNone_redshift?_iff]
        exact not_congr hr.velocity
      have hobject : (Holdings.redshift? o).isNone = (Holdings.redshift? o').isNone := by
        rw [Bool.eq_iff_iff, ReferenceObject.isNone_redshift?_iff,
          ReferenceObject.isNone_redshift?_iff]
        exact not_congr ho.velocity
      rw [score, score, hrecord, hobject, ih hm]
  | custom f => exact hm.elim

/-- **Matchers see sets.** A tree that compares names and positions gives the same score to
records and objects that have the same of them, and both or neither a velocity; so the order and
the repetition of the data do not matter on either side. -/
theorem score_of_sets {m : Matcher} (hm : m.ByNamesAndPositions) (r r' : Record)
    (o o' : ReferenceObject) :
    (Alike r r' → Alike o o' → m.score r o = m.score r' o') ∧
      ((∀ d, d ∈ r.data ↔ d ∈ r'.data) → (∀ d, d ∈ o.data ↔ d ∈ o'.data) →
        m.score r o = m.score r' o') := by
  refine ⟨fun hr ho => score_congr hm hr ho, fun hr ho => ?_⟩
  exact score_congr hm (Holdings.alike_of_data hr) (Holdings.alike_of_data ho)

/-- Two records and two objects that are alike: their names and positions are listed in another
order and twice, their velocities are not the same, and one has an identifier besides. -/
theorem score_of_sets_listed_twice :
    let m : Matcher := .both (.ifNamed (.names 3.0 true))
      (.both (.circle 10.0) (.ifVelocity (.constant 0.5)))
    let here : Datum := .icrs ⟨10.0, 20.0, 0.1, 0.1⟩
    let there : Datum := .icrs ⟨10.001, 20.0, 0.1, 0.1⟩
    let r : Record := ⟨"r", [.designation ⟨"M33"⟩, here, .redshift ⟨-179.0, none⟩]⟩
    let r' : Record := ⟨"r", [here, .redshift ⟨7.0, none⟩, .redshift ⟨5.0, none⟩, here,
      .designation ⟨"M33"⟩]⟩
    let o : ReferenceObject := ⟨1, [.designation ⟨"m33"⟩, there, .designation ⟨"NGC 598"⟩]⟩
    let o' : ReferenceObject := ⟨1, [there, .designation ⟨"NGC 598"⟩, .pgc ⟨1⟩,
      .designation ⟨"m33"⟩, .designation ⟨"NGC 598"⟩]⟩
    m.ByNamesAndPositions ∧ Alike r r' ∧ Alike o o' ∧ m.score r o = m.score r' o' ∧
      (∀ d, d ∈ o.data ↔ d ∈ (o.data ++ o.data.reverse)) ∧
      m.score r o = m.score r ⟨1, o.data ++ o.data.reverse⟩ := by
  intro m here there r r' o o'
  have hm : m.ByNamesAndPositions := ⟨trivial, trivial, trivial⟩
  have hr : Alike r r' := by
    constructor <;> simp [r, r', here, Holdings.designations, Holdings.positions, Holdings.data,
      Datum.designation?, Datum.position?, eq_comm]
  have ho : Alike o o' := by
    constructor <;> simp [o, o', there, Holdings.designations, Holdings.positions, Holdings.data,
      Datum.designation?, Datum.position?, eq_comm, or_comm]
  have htwice : ∀ d, d ∈ o.data ↔ d ∈ o.data ++ o.data.reverse := by simp
  exact ⟨hm, hr, ho, (score_of_sets hm r r' o o').1 hr ho, htwice,
    (score_of_sets hm r r o ⟨1, _⟩).2 (fun _ => Iff.rfl) htwice⟩

/-- A matcher of velocities sees which one comes first. -/
example :
    let near : Datum := .redshift ⟨100.0, none⟩
    let far : Datum := .redshift ⟨500.0, none⟩
    (velocity 10.0).score ⟨"r", [near, far]⟩ ⟨1, [near]⟩ = 1.0 ∧
      (velocity 10.0).score ⟨"r", [far, near]⟩ ⟨1, [near]⟩ = 0.0 := by
  decide +kernel

end Matcher

end SkyCatalog
