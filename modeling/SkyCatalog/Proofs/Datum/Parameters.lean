import SkyCatalog.Datum.Stored
import SkyCatalog.Proofs.Json.Tidy

/-!
# Parameters that a family looks at

A family looks at the parameters of certain names only (`Family.reads`): where these agree, the
same datum is built (`Datum.ofParameters_congr`). The parameter of a name is what the column of
this name holds (`Datum.get?_parametersOfColumns`), and a finite number without a unit counts as
given in whatever unit is asked for.
-/

namespace SkyCatalog

open Json (lookup)

/-- The names of the parameters that a family looks at. -/
def Family.reads : Family → List String
  | .icrs => ["ra", "dec", "e_ra", "e_dec"]
  | .designation => ["design"]
  | .redshift => ["cz", "e_cz", "z", "e_z"]
  | .pgc => ["pgc"]

/-! ## Parameters -/

variable {params : Parameters} {name : String} {x : Float}

/-- A finite number without a unit counts as given in whatever unit is asked for. -/
theorem Parameter.toNumber_real (family : Family) (unit : MeasureUnit) (hx : x.isFinite = true) :
    (Parameter.quantity ⟨x, .dimensionless⟩).toNumber family name unit = .ok x := by
  have hvalue : (⟨x, .dimensionless⟩ : Quantity).inUnit? unit = some x := rfl
  simp only [Parameter.toNumber, hvalue]
  exact if_pos hx

theorem Parameters.number_of_real (family : Family) (unit : MeasureUnit) (hx : x.isFinite = true)
    (h : params.get? name = some (.quantity ⟨x, .dimensionless⟩)) :
    params.number family name unit = .ok x := by
  rw [Parameters.number, h]
  exact Parameter.toNumber_real family unit hx

theorem Parameters.number?_of_real (family : Family) (unit : MeasureUnit)
    (hx : x.isFinite = true) (h : params.get? name = some (.quantity ⟨x, .dimensionless⟩)) :
    params.number? family name unit = .ok (some x) := by
  rw [Parameters.number?, h]
  exact congrArg (Except.map some) (Parameter.toNumber_real family unit hx)

namespace Datum

/-- **What a family looks at.** Parameters of other names do not matter. -/
theorem ofParameters_congr {family : Family} {p q : Parameters}
    (h : ∀ name ∈ family.reads, p.get? name = q.get? name) :
    ofParameters family p = ofParameters family q := by
  cases family <;> simp only [Family.reads, List.forall_mem_cons] at h
  · simp only [ofParameters, Position.ofParameters, Parameters.number, h]
  · simp only [ofParameters, Designation.ofParameters, h]
  · simp only [ofParameters, Redshift.ofParameters, Parameters.number?, h]
  · simp only [ofParameters, Identifier.ofParameters, Parameters.number, h]

/-- The parameter of a name is what the column of this name holds. -/
theorem get?_parametersOfColumns {columns : List (String × Json)}
    (h : (columns.map (·.1)).Nodup) (name : String) :
    (parametersOfColumns columns).get? name =
      (lookup name columns).bind (Parameter.ofCell? · .dimensionless) := by
  have hlookup : Keyed.find? name columns = lookup name columns := by
    apply Option.ext
    intro cell
    rw [Keyed.find?_eq_some_iff h, Json.lookup_eq_some_iff h]
  rw [parametersOfColumns, Keyed.get?_ofList, ← List.filterMap_reverse, ← hlookup,
    ← Keyed.find?_reverse h]
  exact Keyed.find?_filterMap (by simpa using h) (Parameter.ofCell? · .dimensionless) name

/-- Finite numbers are stored as such. -/
theorem ofCell?_ofFloat (hx : x.isFinite = true) :
    Parameter.ofCell? (.ofFloat x) .dimensionless = some (.quantity ⟨x, .dimensionless⟩) := by
  rw [Json.ofFloat, if_pos hx]
  rfl

end Datum

end SkyCatalog
