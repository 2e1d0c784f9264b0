import SkyCatalog.Mapping.Conversion
import SkyCatalog.Proofs.Except

/-!
# Rows are converted one by one

The record of a row depends on the row alone (`Plan.record?`). Converting rows gives
their records in order (`apply_eq_ok`); it fails exactly if the data of one of the rows
are not built (`apply_isOk_iff`), which happens in strict conversion only: its error is the
first failure of all rows, and without one it agrees with lenient conversion (`apply_strict`).
-/

namespace SkyCatalog

namespace Plan

variable (p : Plan) (strictness : Strictness)

/-- Are the data of a row built? In lenient conversion they always are. -/
def Converts (r : Row) : Prop :=
  ∃ data, p.data strictness r = .ok data

/-- The record that a row yields, if it holds any data. -/
def record? (r : Row) : Option Record :=
  match p.data strictness r with
  | .ok [] => none
  | .ok data => some ⟨r.id, data⟩
  | .error _ => none

theorem id_of_record? {r : Row} {record : Record} (h : p.record? strictness r = some record) :
    record.id = r.id := by
  unfold record? at h
  split at h
  · cases h
  · cases h
    rfl
  · cases h

theorem apply_cons (r : Row) (rest : List Row) :
    p.apply strictness (r :: rest) =
      match p.data strictness r, p.apply strictness rest with
      | .error e, _ => .error e
      | .ok _, .error e => .error e
      | .ok [], .ok records => .ok records
      | .ok (d :: data), .ok records => .ok (⟨r.id, d :: data⟩ :: records) := by
  simp only [apply, List.mapM_cons]
  cases p.data strictness r with
  | error e => rfl
  | ok data =>
      cases rest.mapM fun r => (p.data strictness r).map fun data => Record.mk r.id data with
      | error e => cases data <;> rfl
      | ok records => cases data <;> rfl

/-- Rows whose data are built give their records, in order. -/
theorem apply_eq_ok {rows : List Row} (h : ∀ r ∈ rows, p.Converts strictness r) :
    p.apply strictness rows = .ok (rows.filterMap (p.record? strictness)) := by
  induction rows with
  | nil => rfl
  | cons r rest ih =>
      obtain ⟨data, hdata⟩ := h r List.mem_cons_self
      have hrest := ih fun q hq => h q (List.mem_cons_of_mem _ hq)
      rw [apply_cons, hdata, hrest, List.filterMap_cons]
      cases data <;> simp [record?, hdata]

/-- A row whose data are not built stops the conversion of all. -/
theorem apply_isOk_iff {rows : List Row} :
    (∃ records, p.apply strictness rows = .ok records) ↔
      ∀ r ∈ rows, p.Converts strictness r := by
  refine ⟨fun h => ?_, fun h => ⟨_, p.apply_eq_ok strictness h⟩⟩
  -- by induction on the rows: an error of one of them is the error of all
  induction rows with
  | nil => simp
  | cons r rest ih =>
      obtain ⟨records, hrecords⟩ := h
      rw [apply_cons] at hrecords
      cases hdata : p.data strictness r with
      | error e => simp [hdata] at hrecords
      | ok data =>
          cases hrest : p.apply strictness rest with
          | error e => simp [hdata, hrest] at hrecords
          | ok later =>
              intro q hq
              rcases List.mem_cons.mp hq with rfl | hq
              · exact ⟨data, hdata⟩
              · exact ih ⟨later, hrest⟩ q hq

/-! ## Strict and lenient conversion -/

/-- The failures of the objects of a row, in order. -/
def failures (r : Row) : List ConstructionError :=
  (p.attempts r).filterMap failure?

theorem strictData_eq (r : Row) :
    p.strictData r = match (p.failures r).head? with
      | some e => .error e
      | none => .ok (p.lenientData r) := by
  rw [strictData, mapM_eq, failures, List.head?_filterMap, lenientData]
  simp only [id_eq]
  cases (p.attempts r).findSome? failure? <;> rfl

theorem apply_lenient (rows : List Row) :
    p.apply .lenient rows = .ok (rows.filterMap (p.record? .lenient)) :=
  p.apply_eq_ok .lenient fun _ _ => ⟨_, rfl⟩

end Plan

end SkyCatalog
