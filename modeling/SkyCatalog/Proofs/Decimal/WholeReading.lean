import Mathlib.Data.List.TakeWhile
import SkyCatalog.Proofs.Decimal.Whole
import SkyCatalog.Proofs.Text.Blank
import SkyCatalog.Decimal.Reading

/-!
# Whole numbers read from text

A text that consists of a sign, if any, and of digits denotes an integer, however long it
is (`readWhole?`). Read as a double it becomes what the integer itself becomes
(`readFloat?_of_readWhole?`): the nearest double, or an infinity. An integer as it is written
denotes itself (`readWhole?_toString`), so different integers are written differently.
-/

namespace SkyCatalog.Decimal

open Float.Model.UnpackedFloat

/-- The integer that a text denotes: a sign and digits, however many. -/
def readWhole? (s : String) : Option Int :=
  let (negative, digits) := takeSign s.toList
  if digits.isEmpty || !digits.all Char.isDigit then none
  else some (if negative then -(ofDigits digits : Int) else ofDigits digits)

theorem literal?_of_digits {digits : List Char} (hne : digits ≠ [])
    (hdigits : ∀ c ∈ digits, c.isDigit = true) :
    literal? digits = some ⟨ofDigits digits, 0⟩ := by
  have htake : digits.takeWhile Char.isDigit = digits := List.takeWhile_eq_self_iff.mpr hdigits
  have hdrop : digits.dropWhile Char.isDigit = [] := List.dropWhile_eq_nil_iff.mpr hdigits
  simp [literal?, htake, hdrop, hne, exponentPart?]

/-- Digits are no word for a special value. -/
theorem magnitude?_of_digits {digits : List Char} (hne : digits ≠ [])
    (hdigits : ∀ c ∈ digits, c.isDigit = true) :
    magnitude? digits = some (Literal.toFloat ⟨ofDigits digits, 0⟩) := by
  have hlower : ∀ c : Char, c.isDigit = true → c.toLower = c := by
    intro c hc
    simp only [Char.isDigit, Bool.and_eq_true, decide_eq_true_eq] at hc
    rw [Char.toLower, dif_neg]
    rintro ⟨hlow, -⟩
    exact absurd (UInt32.le_trans hlow hc.2) (by decide)
  have hsame : digits.map Char.toLower = digits := by
    conv_rhs => rw [← List.map_id digits]
    exact List.map_congr_left fun c hc => hlower c (hdigits c hc)
  have hword : ∀ word : List Char, (∃ c ∈ word, c.isDigit = false) → digits ≠ word := by
    rintro word ⟨c, hc, hno⟩ rfl
    rw [hdigits c hc] at hno
    cases hno
  have hinf : digits ≠ "inf".toList := hword _ ⟨'i', by decide, by decide⟩
  have hinfinity : digits ≠ "infinity".toList := hword _ ⟨'i', by decide, by decide⟩
  have hnan : digits ≠ "nan".toList := hword _ ⟨'n', by decide, by decide⟩
  rw [magnitude?]
  simp only [hsame, hinf, hinfinity, hnan, or_self, if_false, literal?_of_digits hne hdigits,
    Option.map_some]

theorem stands_literal (m : Nat) : Stands (Literal.toFloat ⟨m, 0⟩) .positive (nearest m) := by
  simp only [Literal.toFloat]
  split
  · next hzero =>
    subst hzero
    exact stands_ofNat 0
  · split
    · next hlong =>
      -- so many digits denote a number beyond the range
      refine Or.inr ⟨rfl, ?_⟩
      have hdigits : ¬(Nat.toDigits 10 m).length ≤ 20 := by omega
      rw [Nat.length_toDigits_le_iff (by decide) (by decide)] at hdigits
      exact two_pow_le_nearest (le_trans (by decide) (Nat.le_of_not_lt hdigits))
    · rw [if_neg (by omega)]
      exact stands_ofNat m

/-- **A text that denotes an integer is read as the double that the integer becomes.** -/
theorem readFloat?_of_readWhole? {s : String} {n : Int} (h : readWhole? s = some n) :
    ∃ x, readFloat? s = some x ∧ StandsFor x n := by
  unfold readWhole? at h
  unfold readFloat?
  generalize takeSign s.toList = signed at h ⊢
  obtain ⟨negative, digits⟩ := signed
  simp only at h ⊢
  split at h
  · cases h
  · next hsome =>
    simp only [Bool.or_eq_true, List.isEmpty_iff, Bool.not_eq_true', not_or, Bool.not_eq_false,
      List.all_eq_true] at hsome
    obtain ⟨hne, hdigits⟩ := hsome
    have hn := Option.some.inj h
    have hstands := stands_literal (ofDigits digits)
    rw [magnitude?_of_digits hne hdigits, Option.map_some]
    refine ⟨_, rfl, ?_⟩
    cases negative with
    | false =>
        simp only [Bool.false_eq_true, if_false] at hn ⊢
        subst hn
        exact ⟨.positive, rfl, hstands⟩
    | true =>
        simp only [if_true] at hn ⊢
        subst hn
        rw [StandsFor, Int.natAbs_neg]
        exact ⟨.negative, rfl, hstands.neg⟩

/-! ## Integers as they are written -/

theorem ofDigits_toDigits (n : Nat) : ofDigits (Nat.toDigits 10 n) = n := by
  have h := Nat.ofDigitChars_ten_toDigits (n := n)
  rwa [Nat.ofDigitChars_eq_foldl] at h

theorem isDigit_toDigits {n : Nat} : ∀ c ∈ Nat.toDigits 10 n, c.isDigit = true :=
  fun _ hc => Nat.isDigit_of_mem_toDigits (by decide) (by decide) hc

/-- Digits have no sign in front. -/
theorem takeSign_of_digits {digits : List Char} (hdigits : ∀ c ∈ digits, c.isDigit = true) :
    takeSign digits = (false, digits) := by
  unfold takeSign
  split
  · exact absurd (hdigits '+' List.mem_cons_self) (by decide)
  · exact absurd (hdigits '-' List.mem_cons_self) (by decide)
  · rfl

/-- The characters of a written integer. -/
theorem toList_toString_int (n : Int) :
    (toString n).toList = (if n < 0 then ['-'] else []) ++ Nat.toDigits 10 n.natAbs := by
  rw [Int.toString_eq_repr]
  cases n with
  | ofNat k => exact Nat.toList_repr
  | negSucc k =>
      rw [if_pos (Int.negSucc_lt_zero k), Int.natAbs_negSucc]
      exact String.toList_append.trans (congrArg _ Nat.toList_repr)

/-- An integer as it is written denotes itself. -/
theorem readWhole?_toString (n : Int) : readWhole? (toString n) = some n := by
  have hread : takeSign (toString n).toList = (decide (n < 0), Nat.toDigits 10 n.natAbs) := by
    rw [toList_toString_int]
    by_cases hneg : n < 0
    · simp [hneg, takeSign]
    · simp [hneg, takeSign_of_digits isDigit_toDigits]
  have hall : (Nat.toDigits 10 n.natAbs).all Char.isDigit = true :=
    List.all_eq_true.mpr isDigit_toDigits
  have hsome : (List.isEmpty (Nat.toDigits 10 n.natAbs) || !true) = false := by
    rw [List.isEmpty_eq_false_iff.mpr Nat.toDigits_ne_nil]
    rfl
  rw [readWhole?, hread]
  simp only [hall, hsome, ofDigits_toDigits, Bool.false_eq_true, if_false, decide_eq_true_eq]
  split
  · exact congrArg some (by omega)
  · exact congrArg some (by omega)

theorem isBlank_of_isDigit {c : Char} (h : c.isDigit = true) : Text.isBlank c = false := by
  have hrange : 48 ≤ c.toNat ∧ c.toNat ≤ 57 := by
    simp only [Char.isDigit, Bool.and_eq_true, decide_eq_true_eq, ge_iff_le,
      UInt32.le_iff_toNat_le] at h
    exact h
  simp only [Text.isBlank]
  generalize c.toNat = k at hrange
  simp
  omega

/-- Written integers have no blanks. -/
theorem trim_toString_int (n : Int) : Text.trim (toString n) = toString n := by
  apply Text.trim_of_no_blank
  intro c hc
  rw [toList_toString_int, List.mem_append] at hc
  rcases hc with hsign | hdigit
  · split at hsign
    · rw [List.mem_singleton.mp hsign]
      decide
    · cases hsign
  · exact isBlank_of_isDigit (isDigit_toDigits c hdigit)

end SkyCatalog.Decimal
