import SkyCatalog.Holdings

/-!
# What stands for the data of a family

For a record the first datum of a family stands for the others (`Record.bind_find?_family`), for a
reference object the combination of all (`ReferenceObject.designation?_eq`,
`ReferenceObject.redshift?_eq`). Either is a matter of the data of that family alone, wherever
those of other families stand between them. The combination asks that all data be of one family,
which those that are selected by it are (`ReferenceObject.aggregate_ofFamily`).
-/

namespace SkyCatalog

namespace Datum

theorem isSome_position?_iff (d : Datum) : d.position?.isSome = true ↔ d.family = .icrs := by
  cases d <;> simp [position?, family]

theorem isSome_designation?_iff (d : Datum) :
    d.designation?.isSome = true ↔ d.family = .designation := by
  cases d <;> simp [designation?, family]

theorem isSome_redshift?_iff (d : Datum) : d.redshift?.isSome = true ↔ d.family = .redshift := by
  cases d <;> simp [redshift?, family]

variable {α : Type} {read : Datum → Option α} {family : Family}

theorem read_eq_none (h : ∀ d, (read d).isSome = true ↔ d.family = family) {d : Datum}
    (hfamily : d.family ≠ family) : read d = none :=
  Option.not_isSome_iff_eq_none.mp fun hsome => hfamily ((h d).mp hsome)

/-- Data that are not read may be left out. -/
theorem filterMap_filter_of_read {keep : Datum → Bool}
    (h : ∀ d, (read d).isSome = true → keep d = true) (data : List Datum) :
    (data.filter keep).filterMap read = data.filterMap read := by
  have hkept : (fun d => if keep d = true then read d else none) = read := by
    funext d
    cases hread : read d with
    | none => exact ite_self none
    | some value => exact if_pos (h d (by simp [hread]))
  rw [List.filterMap_filter, hkept]

/-- A reading of one family passes over the data of the others. -/
theorem filterMap_filter_family (h : ∀ d, (read d).isSome = true ↔ d.family = family)
    (data : List Datum) :
    (data.filter (·.family = family)).filterMap read = data.filterMap read :=
  filterMap_filter_of_read (fun d hd => by simpa using (h d).mp hd) data

/-- No velocity is read where none is held. -/
theorem filterMap_redshift?_eq_nil_iff {data : List Datum} :
    data.filterMap redshift? = [] ↔ ¬∃ v, .redshift v ∈ data := by
  rw [List.filterMap_eq_nil_iff]
  constructor
  · rintro h ⟨v, hv⟩
    cases h _ hv
  · intro h d hd
    cases d with
    | redshift v => exact absurd ⟨v, hd⟩ h
    | icrs | designation | pgc => rfl

/-- Data of one family are combined without a refusal. -/
theorem aggregate_of_family {data : List Datum} (h : ∀ d ∈ data, d.family = family) :
    aggregate data = .ok (aggregateFamily? family data) := by
  cases data with
  | nil => cases family <;> rfl
  | cons first rest =>
      obtain rfl := h first List.mem_cons_self
      have hnone : (first :: rest).find? (fun d => d.family ≠ first.family) = none :=
        List.find?_eq_none.mpr fun d hd => by simp [h d hd]
      simp only [aggregate, hnone]

end Datum

/-! ## Records -/

namespace Record

/-- Looking for the first datum of a family and reading it, or reading all data and taking the
first. -/
theorem bind_find?_family {α : Type} {read : Datum → Option α} {family : Family}
    (h : ∀ d, (read d).isSome = true ↔ d.family = family) (data : List Datum) :
    (data.find? (·.family = family)).bind read = (data.filterMap read).head? := by
  induction data with
  | nil => rfl
  | cons d rest ih =>
      by_cases hfamily : d.family = family
      · obtain ⟨value, hvalue⟩ := Option.isSome_iff_exists.mp ((h d).mpr hfamily)
        simp [hfamily, hvalue]
      · simpa [hfamily, Datum.read_eq_none h hfamily] using ih

theorem designation?_eq_head? (r : Record) :
    Holdings.designation? r = (Holdings.designations r).head? :=
  bind_find?_family Datum.isSome_designation?_iff r.data

theorem position?_eq_head? (r : Record) :
    Holdings.position? r = (Holdings.positions r).head? :=
  bind_find?_family Datum.isSome_position?_iff r.data

theorem redshift?_eq_head? (r : Record) :
    Holdings.redshift? r = (r.data.filterMap Datum.redshift?).head? :=
  bind_find?_family Datum.isSome_redshift?_iff r.data

theorem isNone_redshift?_iff {r : Record} :
    (Holdings.redshift? r).isNone = true ↔ ¬∃ v, .redshift v ∈ r.data := by
  rw [redshift?_eq_head?, ← Datum.filterMap_redshift?_eq_nil_iff, Option.isNone_iff_eq_none,
    List.head?_eq_none_iff]

end Record

/-! ## Reference objects -/

namespace ReferenceObject

theorem combined?_designation (o : ReferenceObject) : o.combined? .designation =
    (Designation.aggregate? (Holdings.designations o)).map .designation := by
  rw [combined?, Datum.aggregateFamily?,
    Datum.filterMap_filter_family Datum.isSome_designation?_iff]
  rfl

theorem combined?_redshift (o : ReferenceObject) : o.combined? .redshift =
    (Redshift.aggregate? (o.data.filterMap Datum.redshift?)).map .redshift := by
  rw [combined?, Datum.aggregateFamily?,
    Datum.filterMap_filter_family Datum.isSome_redshift?_iff]

/-- The name that stands for the others is elected from all of them. -/
theorem designation?_eq (o : ReferenceObject) :
    Holdings.designation? o = Designation.aggregate? (Holdings.designations o) := by
  change (o.combined? .designation).bind Datum.designation? = _
  rw [combined?_designation]
  cases Designation.aggregate? (Holdings.designations o) <;> rfl

/-- The velocity that stands for the others is the mean of all of them. -/
theorem redshift?_eq (o : ReferenceObject) :
    Holdings.redshift? o = Redshift.aggregate? (o.data.filterMap Datum.redshift?) := by
  change (o.combined? .redshift).bind Datum.redshift? = _
  rw [combined?_redshift]
  cases Redshift.aggregate? (o.data.filterMap Datum.redshift?) <;> rfl

theorem isNone_redshift?_iff {o : ReferenceObject} :
    (Holdings.redshift? o).isNone = true ↔ ¬∃ v, .redshift v ∈ o.data := by
  rw [redshift?_eq, ← Datum.filterMap_redshift?_eq_nil_iff, Redshift.aggregate?]
  split <;> simp_all

/-- Restricting an object to families that include positions keeps its positions. -/
theorem positions_restrictTo (o : ReferenceObject) {families : List Family}
    (h : .icrs ∈ families) : Holdings.positions (o.restrictTo families) = Holdings.positions o :=
  Datum.filterMap_filter_of_read
    (fun d hd => by simpa [(d.isSome_position?_iff).mp hd] using h) o.data

/-- The data of a family are of one family, and are combined as such. -/
theorem aggregate_ofFamily (o : ReferenceObject) (family : Family) :
    Datum.aggregate (Holdings.ofFamily o family) = .ok (o.combined? family) :=
  Datum.aggregate_of_family fun d hd => by simpa using (List.mem_filter.mp hd).2

end ReferenceObject

end SkyCatalog
