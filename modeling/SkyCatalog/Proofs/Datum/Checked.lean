import SkyCatalog.Datum.Stored
import SkyCatalog.Proofs.Datum.WholeNumbers
import SkyCatalog.Proofs.Sky

/-!
# Checked data

What a checked constructor lets through satisfies the invariant of its family (`make_valid`), and
it gives back what satisfies it already (`make_of_valid`). A datum may be built in other ways as
well: from parameters, from columns, and from its stored form (`Datum.Built`). All of these end in
the same constructors, so that every datum that is built is valid (`Datum.Built.valid`).
-/

namespace SkyCatalog

theorem requireFinite_eq_ok_iff {family : Family} {parameter : String} {x : Float} {u : Unit} :
    requireFinite family parameter x = .ok u ↔ x.isFinite = true := by
  simp only [requireFinite]
  split <;> simp_all

theorem requireNotNegative_eq_ok_iff {family : Family} {parameter : String} {x : Float}
    {u : Unit} : requireNotNegative family parameter x = .ok u ↔ ¬x < 0.0 := by
  simp only [requireNotNegative]
  split <;> simp_all

theorem not_lt_zero_iff {x : Float} (hx : x.isFinite = true) : ¬x < 0.0 ↔ 0.0 ≤ x :=
  Decimal.not_lt_iff hx (Decimal.isFinite_iff.mpr ⟨_, Sky.ofFloat?_zero⟩)

namespace Position

theorem make_eq_ok_iff {ra dec raError decError : Float} {p : Position} :
    make ra dec raError decError = .ok p ↔
      (ra.isFinite = true ∧ dec.isFinite = true ∧ raError.isFinite = true ∧
        decError.isFinite = true) ∧ (-90.0 ≤ dec ∧ dec ≤ 90.0) ∧
      (¬raError < 0.0 ∧ ¬decError < 0.0) ∧ ⟨Sky.wrapCircle ra, dec, raError, decError⟩ = p := by
  have hpoles : (!(decide (-90.0 ≤ dec) && decide (dec ≤ 90.0))) = true ↔
      ¬(-90.0 ≤ dec ∧ dec ≤ 90.0) := by
    rw [Bool.not_eq_true', Bool.and_eq_false_iff, decide_eq_false_iff_not, decide_eq_false_iff_not,
      not_and_or]
  simp only [make, bind_eq_ok_iff, requireFinite_eq_ok_iff, hpoles, exists_const]
  by_cases hdec : -90.0 ≤ dec ∧ dec ≤ 90.0
  · rw [if_neg (not_not.mpr hdec)]
    simp only [bind_eq_ok_iff, requireNotNegative_eq_ok_iff, exists_const, pure, Except.pure,
      Except.ok.injEq, hdec, and_assoc, true_and]
  · rw [if_pos hdec]
    simp only [hdec, false_and, and_false, iff_false]
    rintro ⟨-, -, -, -, h⟩
    cases h

theorem make_valid {ra dec raError decError : Float} {p : Position}
    (h : make ra dec raError decError = .ok p) : p.Valid := by
  obtain ⟨⟨hra, hdec, hraError, hdecError⟩, ⟨hsouth, hnorth⟩, ⟨hraLow, hdecLow⟩, rfl⟩ :=
    make_eq_ok_iff.mp h
  obtain ⟨hfinite, hlow, hhigh⟩ := Sky.wrapCircle_spec hra
  exact ⟨hfinite, hdec, hraError, hdecError, hlow, hhigh, hsouth, hnorth,
    (not_lt_zero_iff hraError).mp hraLow, (not_lt_zero_iff hdecError).mp hdecLow⟩

theorem make_of_valid {p : Position} (h : p.Valid) :
    make p.ra p.dec p.raError p.decError = .ok p := by
  obtain ⟨hra, hdec, hraError, hdecError, hlow, hhigh, hsouth, hnorth, hraLow, hdecLow⟩ := h
  refine make_eq_ok_iff.mpr ⟨⟨hra, hdec, hraError, hdecError⟩, ⟨hsouth, hnorth⟩,
    ⟨(not_lt_zero_iff hraError).mpr hraLow, (not_lt_zero_iff hdecError).mpr hdecLow⟩, ?_⟩
  rw [Sky.wrapCircle_of_mem hra hlow hhigh]

end Position

namespace Designation

theorem make_eq_ok_iff {name : String} {d : Designation} :
    make name = .ok d ↔ Text.trim name ≠ "" ∧ ⟨Text.trim name⟩ = d := by
  simp only [make, ← String.isEmpty_iff, ne_eq]
  split
  · next hempty => simp [hempty]
  · next hempty => simp [hempty]

theorem make_valid {name : String} {d : Designation} (h : make name = .ok d) : d.Valid := by
  obtain ⟨hname, rfl⟩ := make_eq_ok_iff.mp h
  exact ⟨hname, Text.trim_trim name⟩

theorem make_of_valid {d : Designation} (h : d.Valid) : make d.name = .ok d := by
  obtain ⟨hname, htrim⟩ := h
  refine make_eq_ok_iff.mpr ?_
  rw [htrim]
  exact ⟨hname, rfl⟩

end Designation

namespace Redshift

theorem make_eq_ok_iff {velocity : Float} {error : Option Float} {r : Redshift} :
    make velocity error = .ok r ↔
      velocity.isFinite = true ∧ (∀ e, error = some e → e.isFinite = true ∧ ¬e < 0.0) ∧
        ⟨velocity, error⟩ = r := by
  cases error with
  | none =>
      simp only [make, bind_eq_ok_iff, requireFinite_eq_ok_iff, exists_const, pure, Except.pure,
        Except.ok.injEq, reduceCtorEq, false_implies, forall_true_iff, true_and]
  | some e =>
      simp only [make, bind_eq_ok_iff, requireFinite_eq_ok_iff, requireNotNegative_eq_ok_iff,
        exists_const, pure, Except.pure, Except.ok.injEq, Option.some.injEq, forall_eq', and_assoc]

theorem make_valid {velocity : Float} {error : Option Float} {r : Redshift}
    (h : make velocity error = .ok r) : r.Valid := by
  obtain ⟨hvelocity, herror, rfl⟩ := make_eq_ok_iff.mp h
  refine ⟨hvelocity, fun e he => ?_⟩
  obtain ⟨hfinite, hlow⟩ := herror e he
  exact ⟨hfinite, (not_lt_zero_iff hfinite).mp hlow⟩

theorem make_of_valid {r : Redshift} (h : r.Valid) : make r.velocity r.error = .ok r := by
  obtain ⟨hvelocity, herror⟩ := h
  refine make_eq_ok_iff.mpr ⟨hvelocity, fun e he => ?_, rfl⟩
  obtain ⟨hfinite, hlow⟩ := herror e he
  exact ⟨hfinite, (not_lt_zero_iff hfinite).mpr hlow⟩

end Redshift

/-! ## Ways to build a datum -/

namespace Datum

/-- A datum satisfies the invariant of its family. -/
def Valid : Datum → Prop
  | .icrs p => p.Valid
  | .designation d => d.Valid
  | .redshift r => r.Valid
  | .pgc i => 0 < i.number

/-- A datum that was built: by the constructor of its family, from parameters, from columns, or
from its stored form. -/
inductive Built : Datum → Prop where
  | position {ra dec raError decError : Float} {p : Position}
      (h : Position.make ra dec raError decError = .ok p) : Built (.icrs p)
  | designation {name : String} {d : Designation} (h : Designation.make name = .ok d) :
      Built (.designation d)
  | redshift {velocity : Float} {error : Option Float} {r : Redshift}
      (h : Redshift.make velocity error = .ok r) : Built (.redshift r)
  | identifier {number : Int} {i : Identifier} (h : Identifier.make number = .ok i) :
      Built (.pgc i)
  | parameters {family : Family} {params : Parameters} {d : Datum}
      (h : Datum.ofParameters family params = .ok d) : Built d
  | columns {family : Family} {columns : List (String × Json)} {d : Datum}
      (h : Datum.ofColumns family columns = .ok d) : Built d
  | stored {written : Written} {d : Datum} (h : Datum.ofWritten? written = some d) : Built d

/-- Whatever the parameters are, they go through the constructor. -/
theorem valid_of_ofParameters {family : Family} {params : Parameters} {d : Datum}
    (h : Datum.ofParameters family params = .ok d) : d.Valid := by
  cases family with
  | icrs =>
      obtain ⟨p, hp, rfl⟩ := map_eq_ok_iff.mp h
      simp only [Position.ofParameters, bind_eq_ok_iff] at hp
      obtain ⟨ra, -, dec, -, raError, -, decError, -, hmake⟩ := hp
      exact Position.make_valid hmake
  | designation =>
      obtain ⟨d, hd, rfl⟩ := map_eq_ok_iff.mp h
      simp only [Designation.ofParameters] at hd
      split at hd
      · exact Designation.make_valid hd
      · cases hd
  | redshift =>
      obtain ⟨r, hr, rfl⟩ := map_eq_ok_iff.mp h
      obtain ⟨velocity, -, hr⟩ := bind_eq_ok_iff.mp hr
      cases velocity with
      | some velocity =>
          obtain ⟨error, -, hmake⟩ := bind_eq_ok_iff.mp hr
          exact Redshift.make_valid hmake
      | none =>
          obtain ⟨z, -, hr⟩ := bind_eq_ok_iff.mp hr
          cases z with
          | some z =>
              obtain ⟨error, -, hmake⟩ := bind_eq_ok_iff.mp hr
              exact Redshift.make_valid hmake
          | none => cases hr
  | pgc =>
      obtain ⟨i, hi, rfl⟩ := map_eq_ok_iff.mp h
      obtain ⟨-, -, -, hpos⟩ := Identifier.ofParameters_eq_ok_iff.mp hi
      exact hpos

/-- A stored form is read through its columns. -/
theorem exists_ofColumns_of_ofWritten? {written : Written} {d : Datum}
    (h : Datum.ofWritten? written = some d) :
    ∃ family columns, Datum.ofColumns family columns = .ok d := by
  unfold Datum.ofWritten? at h
  split at h
  · split at h
    · obtain ⟨family, -, h⟩ := Option.bind_eq_some_iff.mp h
      obtain ⟨columns, -, h⟩ := Option.bind_eq_some_iff.mp h
      split at h
      · next hcolumns =>
        cases h
        exact ⟨family, _, hcolumns⟩
      · cases h
    · cases h
  · cases h

/-- **Every datum that is built is valid.** -/
theorem Built.valid {d : Datum} (h : d.Built) : d.Valid := by
  cases h with
  | position h => exact Position.make_valid h
  | designation h => exact Designation.make_valid h
  | redshift h => exact Redshift.make_valid h
  | identifier h =>
      obtain ⟨hpos, hnumber⟩ := Identifier.make_eq_ok_iff.mp h
      exact hpos.trans_eq hnumber.symm
  | parameters h => exact valid_of_ofParameters h
  | columns h => exact valid_of_ofParameters h
  | stored h =>
      obtain ⟨family, columns, hcolumns⟩ := exists_ofColumns_of_ofWritten? h
      exact valid_of_ofParameters hcolumns

end Datum

end SkyCatalog
