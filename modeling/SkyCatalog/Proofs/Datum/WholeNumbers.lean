import SkyCatalog.Datum.Stored
import SkyCatalog.Proofs.Datum.Parameters
import SkyCatalog.Proofs.Decimal.WholeWriting
import SkyCatalog.Proofs.Except
import SkyCatalog.Proofs.Keyed

/-!
# Whole numbers as identifiers and as names

A cell may hold an integer as a number or as a text (`WholeCell`). Either way it becomes a
double before it becomes an identifier, so that what is identified is the double nearest to it,
and at most the greatest number of sixty-four bits (`Identifier.ofParameters_wholeCell`). A
stored identifier takes the same way back, and comes back if a double holds it
(`ofColumns_columns_pgc_iff`). As a name a number is written with its digits up to `2 ^ 53`
(`Designation.ofParameters_int`).

`integers_through_doubles` puts these together: up to `2 ^ 53` nothing is altered, and the next
integer is (`integers_altered`).
-/

namespace SkyCatalog

open Decimal

/-- A cell holds an integer: as a number, or as a text of a sign and digits, which may have
blanks around it. -/
inductive WholeCell (n : Int) : Json → Prop where
  | number : WholeCell n (.int n)
  | text {s : String} (h : readWhole? (Text.trim s) = some n) : WholeCell n (.text s)

variable {n : Int} {cell : Json} {params : Parameters}

/-- A text that denotes an integer is not blank. -/
theorem not_isBlankText_of_readWhole? {s : String} (h : readWhole? (Text.trim s) = some n) :
    Text.isBlankText s = false := by
  rw [Bool.eq_false_iff]
  intro hblank
  rw [Text.trim_of_isBlankText hblank] at h
  cases h

/-- Whichever way the cell holds the integer, the number asked for is the double that stands
for it. -/
theorem WholeCell.number_eq (hcell : WholeCell n cell) (family : Family) {name : String}
    (hparams : params.get? name = Parameter.ofCell? cell .dimensionless) :
    ∃ x, StandsFor x n ∧ params.number family name .dimensionless =
      if x.isFinite then .ok x else .error (.invalidValue family name .notFinite) := by
  cases hcell with
  | number =>
      refine ⟨Float.ofInt n, standsFor_ofInt n, ?_⟩
      rw [Parameters.number, hparams]
      rfl
  | @text s h =>
      obtain ⟨x, hread, hstands⟩ := readFloat?_of_readWhole? h
      have hcell : Parameter.ofCell? (.text s) .dimensionless = some (.text s) := by
        simp [Parameter.ofCell?, not_isBlankText_of_readWhole? h]
      refine ⟨x, hstands, ?_⟩
      rw [Parameters.number, hparams, hcell]
      simp only [Parameter.toNumber, hread]
      rfl

theorem Identifier.make_eq_ok_iff {number : Int} {i : Identifier} :
    Identifier.make number = .ok i ↔ 0 < number ∧ i.number = number := by
  obtain ⟨k⟩ := i
  simp only [Identifier.make]
  split
  · simp
    omega
  · simp
    omega

/-- The whole number that a finite double stands for, if it is not too large. -/
theorem wholeNumber?_eq_some_iff {x : Float} {m k : Int} (hm : integer? x = some m) :
    wholeNumber? x = some k ↔ m.natAbs ≤ 2 ^ 63 ∧ k = min m maxInt64 := by
  have hbound : Nat.pow 2 63 = 2 ^ 63 := rfl
  rw [wholeNumber?, hm, hbound]
  simp only [Option.ite_none_right_eq_some, Option.some.injEq]
  exact and_congr_right fun _ => eq_comm

theorem Identifier.ofParameters_eq_ok_iff {i : Identifier} :
    Identifier.ofParameters params = .ok i ↔
      ∃ x, params.number .pgc "pgc" .dimensionless = .ok x ∧
        wholeNumber? x = some i.number ∧ 0 < i.number := by
  rw [Identifier.ofParameters, bind_eq_ok_iff]
  refine exists_congr fun x => and_congr_right fun _ => ?_
  cases hwhole : wholeNumber? x with
  | none => simp
  | some k =>
      simp only [Identifier.make_eq_ok_iff, Option.some.injEq]
      constructor
      · rintro ⟨hpos, rfl⟩
        exact ⟨rfl, hpos⟩
      · rintro ⟨rfl, hpos⟩
        exact ⟨hpos, rfl⟩

/-- **What a cell that holds an integer identifies**: the nearest double, if it is positive and
not too large, and the greatest number of sixty-four bits in place of the one above it. -/
theorem Identifier.ofParameters_wholeCell (hcell : WholeCell n cell)
    (hparams : params.get? "pgc" = Parameter.ofCell? cell .dimensionless) (i : Identifier) :
    Identifier.ofParameters params = .ok i ↔
      0 < n ∧ nearest n.natAbs ≤ 2 ^ 63 ∧ i.number = min (nearest n.natAbs : Int) maxInt64 := by
  obtain ⟨x, hstands, hnumber⟩ := hcell.number_eq .pgc hparams
  have hmax : 0 < maxInt64 := by decide
  rw [Identifier.ofParameters_eq_ok_iff, hnumber]
  rcases hstands.cases with ⟨hfinite, m, hm, hnearest, hpos, -⟩ | ⟨hinfinite, hlarge⟩
  · simp only [if_pos hfinite, Except.ok.injEq, exists_eq_left', wholeNumber?_eq_some_iff hm,
      ← hnearest]
    omega
  · simp only [hinfinite, Bool.false_eq_true, if_false, reduceCtorEq, false_and, exists_false,
      false_iff]
    rintro ⟨-, hle, -⟩
    omega

/-- Up to `2 ^ 53` it is the integer itself. -/
theorem Identifier.ofParameters_wholeCell_exact (hcell : WholeCell n cell)
    (hparams : params.get? "pgc" = Parameter.ofCell? cell .dimensionless)
    (hn : n.natAbs ≤ 2 ^ 53) (i : Identifier) :
    Identifier.ofParameters params = .ok i ↔ 0 < n ∧ i.number = n := by
  have hmax : maxInt64 = 2 ^ 63 - 1 := rfl
  rw [Identifier.ofParameters_wholeCell hcell hparams, nearest_of_le hn]
  omega

/-- A column alone. -/
theorem get?_parametersOfColumns_single (name : String) (cell : Json) :
    (Datum.parametersOfColumns [(name, cell)]).get? name =
      Parameter.ofCell? cell .dimensionless := by
  have hnames : ([(name, cell)].map (·.1)).Nodup := List.nodup_singleton name
  rw [Datum.get?_parametersOfColumns hnames]
  simp [Json.lookup]

/-- The greatest identifier is rounded up and then cut back. -/
theorem nearest_maxInt64 : nearest maxInt64.natAbs = 2 ^ 63 := by
  decide +kernel

/-- **Stored identifiers.** An identifier of sixty-four bits is given back if only zeros follow
its fifty-three leading binary digits, and so is the greatest one. -/
theorem ofColumns_columns_pgc_iff {i : Identifier} (hpos : 0 < i.number)
    (hmax : i.number ≤ maxInt64) :
    Datum.ofColumns .pgc (Datum.pgc i).columns = .ok (.pgc i) ↔
      2 ^ (i.number.natAbs.log2 - 52) ∣ i.number.natAbs ∨ i.number = maxInt64 := by
  have hparams : (Datum.parametersOfColumns (Datum.pgc i).columns).get? "pgc" =
    Parameter.ofCell? (.int i.number) .dimensionless := get?_parametersOfColumns_single _ _
  have hof : Datum.ofColumns .pgc (Datum.pgc i).columns = .ok (.pgc i) ↔
      Identifier.ofParameters (Datum.parametersOfColumns (Datum.pgc i).columns) = .ok i := by
    simp only [Datum.ofColumns, Datum.ofParameters, map_eq_ok_iff, Datum.pgc.injEq,
      exists_eq_right]
  have hvalue : maxInt64 = 2 ^ 63 - 1 := rfl
  have hle : nearest i.number.natAbs ≤ 2 ^ 63 := nearest_le_two_pow (by omega)
  rw [hof, Identifier.ofParameters_wholeCell .number hparams, ← nearest_eq_self_iff]
  constructor
  · rintro ⟨-, -, hnumber⟩
    omega
  · rintro (hsame | hgreatest)
    · omega
    · have hup := nearest_maxInt64
      rw [← hgreatest] at hup
      omega

/-! ## Names -/

/-- A whole number of at most `2 ^ 53` is named by its digits. -/
theorem Parameter.numberText_eq {x : Float} (h : StandsFor x n) (hn : n.natAbs ≤ 2 ^ 53) :
    Parameter.numberText x = toString n := by
  have hinteger := h.integer?_eq (nearest_of_le hn) (by omega)
  simp only [Parameter.numberText, hinteger]
  split
  · rfl
  · next hlarge =>
    refine h.plainText_eq ?_ hn
    rintro rfl
    exact hlarge (by decide)

theorem toString_int_ne_empty (n : Int) : toString n ≠ "" := by
  intro h
  have hread := readWhole?_toString n
  rw [h] at hread
  cases hread

/-- Different integers are written differently. -/
theorem toString_int_injective {m n : Int} (h : toString m = toString n) : m = n := by
  have hread := readWhole?_toString m
  rw [h, readWhole?_toString] at hread
  exact (Option.some.inj hread).symm

/-- **Names.** A cell that holds an integer of at most `2 ^ 53` as a number names it by its
digits. -/
theorem Designation.ofParameters_int
    (hparams : params.get? "design" = Parameter.ofCell? (.int n) .dimensionless)
    (hn : n.natAbs ≤ 2 ^ 53) : Designation.ofParameters params = .ok ⟨toString n⟩ := by
  have htext : (Parameter.quantity ⟨Float.ofInt n, .dimensionless⟩).toText = toString n :=
    Parameter.numberText_eq (standsFor_ofInt n) hn
  have hempty : (toString n).isEmpty = false := by
    rw [Bool.eq_false_iff, ne_eq, String.isEmpty_iff]
    exact toString_int_ne_empty n
  simp only [Designation.ofParameters, hparams, Parameter.ofCell?, htext, Designation.make,
    trim_toString_int, hempty]
  rfl

/-- **Integers on their way through doubles.** Whatever the integer, what it identifies is the
double nearest to it, cut back to sixty-four bits; what is stored comes back if it is a double
itself, or the greatest identifier. An integer of at most `2 ^ 53` is not altered: it identifies
itself, it is named by its digits, and no other such integer has this name. -/
theorem integers_through_doubles {n : Int} {cell : Json} {identifiers names : Parameters}
    (hcell : WholeCell n cell)
    (hidentifiers : identifiers.get? "pgc" = Parameter.ofCell? cell .dimensionless)
    (hnames : names.get? "design" = Parameter.ofCell? (.int n) .dimensionless) :
    (∀ i, Identifier.ofParameters identifiers = .ok i ↔
      0 < n ∧ nearest n.natAbs ≤ 2 ^ 63 ∧ i.number = min (nearest n.natAbs : Int) maxInt64) ∧
    (∀ i : Identifier, 0 < i.number → i.number ≤ maxInt64 →
      (Datum.ofColumns .pgc (Datum.pgc i).columns = .ok (.pgc i) ↔
        2 ^ (i.number.natAbs.log2 - 52) ∣ i.number.natAbs ∨ i.number = maxInt64)) ∧
    (n.natAbs ≤ 2 ^ 53 →
      (∀ i, Identifier.ofParameters identifiers = .ok i ↔ 0 < n ∧ i.number = n) ∧
      Designation.ofParameters names = .ok ⟨toString n⟩ ∧
      ∀ (m : Int) (others : Parameters), m.natAbs ≤ 2 ^ 53 →
        others.get? "design" = Parameter.ofCell? (.int m) .dimensionless →
        Designation.ofParameters others = Designation.ofParameters names → m = n) := by
  refine ⟨Identifier.ofParameters_wholeCell hcell hidentifiers,
    fun i => ofColumns_columns_pgc_iff, fun hn => ?_⟩
  have hname := Designation.ofParameters_int hnames hn
  refine ⟨Identifier.ofParameters_wholeCell_exact hcell hidentifiers hn, hname, ?_⟩
  intro m others hm hothers hsame
  rw [hname, Designation.ofParameters_int hothers hm, Except.ok.injEq,
    Designation.mk.injEq] at hsame
  exact toString_int_injective hsame

/-- The greatest integer up to which none is altered, as a text with a sign and blanks. -/
theorem integers_through_doubles_two_pow_53 :
    let identifiers := Datum.parametersOfColumns [("pgc", .text " +9007199254740992 ")]
    let names := Datum.parametersOfColumns [("design", .int 9007199254740992)]
    Identifier.ofParameters identifiers = .ok ⟨9007199254740992⟩ ∧
      Designation.ofParameters names = .ok ⟨"9007199254740992"⟩ := by
  intro identifiers names
  obtain ⟨-, -, hexact⟩ := integers_through_doubles (n := 9007199254740992)
    (.text (by decide +kernel))
    (get?_parametersOfColumns_single "pgc" (.text " +9007199254740992 "))
    (get?_parametersOfColumns_single "design" (.int 9007199254740992))
  obtain ⟨hidentifier, hname, -⟩ := hexact (by decide)
  exact ⟨(hidentifier _).mpr ⟨by decide, rfl⟩, hname⟩

/-- The next integer is altered, on its way in and when it is read back, and has a name that
stands for another; the integer above the greatest identifier is taken for the greatest. -/
theorem integers_altered :
    Datum.ofColumns .pgc [("pgc", .int 9007199254740993)] = .ok (.pgc ⟨9007199254740992⟩) ∧
    Datum.ofColumns .pgc [("pgc", .text "9007199254740993")] = .ok (.pgc ⟨9007199254740992⟩) ∧
    Datum.ofColumns .pgc (Datum.pgc ⟨9007199254740993⟩).columns ≠
      .ok (.pgc ⟨9007199254740993⟩) ∧
    Datum.ofColumns .pgc [("pgc", .text "9223372036854775808")] =
      .ok (.pgc ⟨9223372036854775807⟩) ∧
    Datum.ofColumns .designation [("design", .int 9007199254740993)] =
      .ok (.designation ⟨"9007199254740992"⟩) := by
  decide +kernel

end SkyCatalog
