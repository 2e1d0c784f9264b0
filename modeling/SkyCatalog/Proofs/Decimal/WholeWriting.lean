import SkyCatalog.Proofs.Decimal.WholeReading
import SkyCatalog.Decimal.Layout

/-!
# Whole doubles as they are written

The interval of reals that round to a whole double below `2 ^ 53` reaches less than one to
either side. On a grid of multiples of `10 ^ k` with `0 ≤ k` it therefore holds nothing but
the whole number itself (`Interval.IsWhole.holds_iff`), so that the search for the fewest
digits, which ends at the grid of all whole numbers, returns that number without its last
zeros. The plain form puts the zeros back (`plain_magnitude`).

`StandsFor.plainText_eq` is the result: up to `2 ^ 53` a double is written with the digits
of the integer that it stands for.
-/

namespace SkyCatalog.Decimal

/-! ## Grids -/

/-- What a grid offers reads back. -/
theorem Interval.holds_of_onGrid? {i : Interval} {tie : Tie} {k : Int} {d : Nat}
    (hd : i.onGrid? tie k = some d) : i.holds k d = true := by
  simp only [Interval.onGrid?] at hd
  split at hd
  · next hboth =>
    -- both neighbours read back, so the tie does not matter
    simp only [Bool.and_eq_true] at hboth
    split at hd
    · cases hd
      exact hboth.1.2
    · split at hd
      · cases hd
        exact hboth.2
      · split at hd
        · split at hd
          · cases hd
            exact hboth.1.2
          · cases hd
            exact hboth.2
        · cases hd
          exact hboth.2
  · split at hd
    · next hbelow =>
      cases hd
      exact (Bool.and_eq_true _ _ ▸ hbelow).2
    · split at hd
      · next habove =>
        cases hd
        exact habove
      · cases hd

/-- The interval of a whole double: `m` in units of `1 / u`, and less than one unit to each side. -/
structure Interval.IsWhole (i : Interval) (m u : Nat) : Prop where
  value : i.value = m * u
  scale : 2 ^ (-i.exponent).toNat = u
  exponent : i.exponent ≤ 0
  low : m * u < i.low + u
  low_lt : i.low < m * u
  high : i.high < m * u + u
  lt_high : m * u < i.high

namespace Interval.IsWhole

variable {i : Interval} {m u : Nat}

theorem scale_pos (h : i.IsWhole m u) : 0 < u := by
  rw [← h.scale]
  exact Nat.two_pow_pos _

theorem binaryScale (h : i.IsWhole m u) {k : Int} (hk : 0 ≤ k) : i.binaryScale k = 1 := by
  have hup : i.exponent.toNat = 0 := by
    have := h.exponent
    omega
  have hdown : (-k).toNat = 0 := by omega
  rw [Interval.binaryScale, hup, hdown]

theorem decimalScale (h : i.IsWhole m u) (k : Int) :
    i.decimalScale k = 10 ^ k.toNat * u := by
  rw [← h.scale]
  rfl

/-- On a grid of whole numbers only the whole number itself reads back. -/
theorem holds_iff (h : i.IsWhole m u) {k : Int} (hk : 0 ≤ k) (d : Nat) :
    i.holds k d = true ↔ d * 10 ^ k.toNat = m := by
  have hpos := h.scale_pos
  simp only [Interval.holds, h.binaryScale hk, h.decimalScale, Nat.mul_one, ← Nat.mul_assoc]
  generalize d * 10 ^ k.toNat = here
  constructor
  · intro hin
    have hbounds : i.low ≤ here * u ∧ here * u ≤ i.high := by
      split at hin <;> simp only [Bool.and_eq_true, decide_eq_true_eq] at hin <;> omega
    have hlow : m < here + 1 := by
      apply Nat.lt_of_mul_lt_mul_right (a := u)
      rw [Nat.add_mul, Nat.one_mul]
      have := h.low
      omega
    have hhigh : here < m + 1 := by
      apply Nat.lt_of_mul_lt_mul_right (a := u)
      rw [Nat.add_mul, Nat.one_mul]
      have := h.high
      omega
    omega
  · rintro rfl
    have hlow := h.low_lt
    have hhigh := h.lt_high
    split <;> simp only [Bool.and_eq_true, decide_eq_true_eq] <;> omega

/-- Whatever a grid of whole numbers offers is the whole number itself. -/
theorem of_onGrid? (h : i.IsWhole m u) {tie : Tie} {k : Int} (hk : 0 ≤ k) {d : Nat}
    (hd : i.onGrid? tie k = some d) : d * 10 ^ k.toNat = m :=
  (h.holds_iff hk d).mp (Interval.holds_of_onGrid? hd)

/-- The grid of all whole numbers offers it. -/
theorem onGrid?_zero (h : i.IsWhole m u) (hm : 0 < m) (tie : Tie) :
    i.onGrid? tie 0 = some m := by
  have hbelow : i.value * i.binaryScale 0 / i.decimalScale 0 = m := by
    rw [h.binaryScale (Int.le_refl 0), h.decimalScale, h.value, Int.toNat_zero, Nat.pow_zero,
      Nat.one_mul, Nat.mul_one, Nat.mul_div_cancel _ h.scale_pos]
  have hholds : i.holds 0 m = true := (h.holds_iff (Int.le_refl 0) m).mpr (Nat.mul_one m)
  have habove : i.holds 0 (m + 1) = false := by
    rw [Bool.eq_false_iff]
    intro hin
    have := (h.holds_iff (Int.le_refl 0) (m + 1)).mp hin
    rw [Int.toNat_zero, Nat.pow_zero, Nat.mul_one] at this
    omega
  simp only [Interval.onGrid?, hbelow, hholds, habove]
  simp [Nat.ne_of_gt hm]

/-- The search ends at the whole number, as soon as a grid offers it. -/
theorem search (h : i.IsWhole m u) (hm : 0 < m) (tie : Tie) (steps : Nat) (k : Int)
    (hk : 0 ≤ k) (hsteps : k < steps) :
    ∃ d j, 0 ≤ j ∧ i.search tie steps k = ⟨d, j⟩ ∧ d * 10 ^ j.toNat = m := by
  induction steps generalizing k with
  | zero => omega
  | succ steps ih =>
      rw [Interval.search]
      cases hgrid : i.onGrid? tie k with
      | some d => exact ⟨d, k, hk, rfl, h.of_onGrid? hk hgrid⟩
      | none =>
          have hne : k ≠ 0 := by
            rintro rfl
            rw [h.onGrid?_zero hm] at hgrid
            cases hgrid
          exact ih (k - 1) (by omega) (by omega)

end Interval.IsWhole

/-- A significand of fifty-three digits and a whole number below `2 ^ 53`. -/
theorem isWhole_around {m i : Nat} (low : 2 ^ 52 ≤ m * 2 ^ i) :
    (Interval.around (m * 2 ^ i) (-i)).IsWhole m (2 ^ (i + 2)) := by
  have hunit : m * 2 ^ (i + 2) = 4 * (m * 2 ^ i) := by
    rw [Nat.pow_add, ← Nat.mul_assoc, Nat.mul_comm]
  have hwide : 4 ≤ 2 ^ (i + 2) := Nat.pow_le_pow_right (n := 2) (by decide) (Nat.le_add_left 2 i)
  have hscale : (-(-(i : Int) - 2)).toNat = i + 2 := by omega
  have hgap : ∀ p : Prop, [Decidable p] → (if p then 1 else 2) ≤ 2 ∧ 0 < (if p then 1 else 2) := by
    intro p _
    split <;> decide
  constructor
  · exact hunit.symm
  · simp only [Interval.around, hscale]
  · simp only [Interval.around]
    omega
  · simp only [Interval.around, hunit]
    have := hgap (m * 2 ^ i = Nat.pow 2 52 ∧ -1074 < -(i : Int))
    omega
  · simp only [Interval.around, hunit]
    have := hgap (m * 2 ^ i = Nat.pow 2 52 ∧ -1074 < -(i : Int))
    omega
  · simp only [Interval.around, hunit]
    omega
  · simp only [Interval.around, hunit]
    omega

/-- The fewest digits of a whole double below `2 ^ 53` denote it exactly. -/
theorem shortest_whole (tie : Tie) {m i : Nat} (low : 2 ^ 52 ≤ m * 2 ^ i)
    (high : m * 2 ^ i < 2 ^ 53) (hi : i ≤ 52) :
    ∃ d j, 0 ≤ j ∧ shortest tie (m * 2 ^ i) (-i) = ⟨d, j⟩ ∧ d * 10 ^ j.toNat = m := by
  have hlog : (m * 2 ^ i).log2 = 52 := log2_eq_of_bounds low high
  have hm : 0 < m := Nat.pos_of_ne_zero fun h => by
    subst h
    simp at low
  apply (isWhole_around low).search hm <;> rw [hlog] <;> omega

/-! ## Digits -/

theorem toDigits_mul_ten_pow {d : Nat} (hd : 0 < d) (j : Nat) :
    Nat.toDigits 10 (d * 10 ^ j) = Nat.toDigits 10 d ++ List.replicate j '0' := by
  induction j with
  | zero => simp
  | succ j ih =>
      have hpos : 0 < d * 10 ^ j := Nat.mul_pos hd (Nat.pow_pos (by decide))
      have hlast := Nat.toDigits_append_toDigits (b := 10) (d := 0) (by decide) hpos (by decide)
      have hzero : Nat.toDigits 10 0 = ['0'] := rfl
      rw [Nat.add_zero, hzero, ih, List.append_assoc, ← List.replicate_succ'] at hlast
      rw [hlast, Nat.pow_succ, ← Nat.mul_assoc, Nat.mul_comm]

/-- A decimal without negative exponent is written as a whole number. -/
theorem plain_magnitude {d : Nat} (hd : 0 < d) {j : Int} (hj : 0 ≤ j) :
    plain.magnitude ⟨d, j⟩ = Nat.toDigits 10 (d * 10 ^ j.toNat) := by
  have hlen : 0 < (Nat.toDigits 10 d).length := List.length_pos_iff.mpr Nat.toDigits_ne_nil
  obtain ⟨k, rfl⟩ := Int.eq_ofNat_of_zero_le hj
  have hwhole : ¬((k : Int) + (Nat.toDigits 10 d).length - 1 + 1 ≤ 0) := by omega
  have hplaces : ((k : Int) + (Nat.toDigits 10 d).length - 1 + 1).toNat =
      (Nat.toDigits 10 d).length + k := by omega
  simp only [Layout.magnitude, plain, if_true, placePoint, hwhole, if_false, hplaces]
  rw [List.take_of_length_le (Nat.le_add_right _ _), List.drop_of_length_le (Nat.le_add_right _ _),
    Nat.add_sub_cancel_left, Int.toNat_natCast, toDigits_mul_ten_pow hd]
  simp

/-- The significand of a whole double of at most `2 ^ 53`: shifted up, or `2 ^ 53` itself. -/
theorem significand_cases {m n : Nat} {e : Int} (hn : 0 < n) (hle : n ≤ 2 ^ 53)
    (low : 2 ^ 52 ≤ m) (high : m < 2 ^ 53)
    (value : m * 2 ^ e.toNat = n * 2 ^ (-e).toNat) :
    (∃ i : Nat, i ≤ 52 ∧ e = -i ∧ m = n * 2 ^ i) ∨ (m = 2 ^ 52 ∧ e = 1 ∧ n = 2 ^ 53) := by
  rcases Int.lt_or_le 0 e with hpos | hneg
  · right
    obtain ⟨j, rfl⟩ : ∃ j : Nat, e = j + 1 := ⟨(e - 1).toNat, by omega⟩
    have hup : ((j : Int) + 1).toNat = j + 1 := by omega
    have hdown : (-((j : Int) + 1)).toNat = 0 := by omega
    rw [hup, hdown, Nat.pow_zero, Nat.mul_one] at value
    have hj : j = 0 := by
      by_contra hne
      have hfour : 2 ^ 52 * 2 ^ 2 ≤ m * 2 ^ (j + 1) :=
        Nat.mul_le_mul low (Nat.pow_le_pow_right (by decide) (by omega))
      omega
    subst hj
    omega
  · left
    obtain ⟨i, rfl⟩ : ∃ i : Nat, e = -i := ⟨(-e).toNat, by omega⟩
    have hup : (-(i : Int)).toNat = 0 := by omega
    have hdown : (- -(i : Int)).toNat = i := by omega
    rw [hup, hdown, Nat.pow_zero, Nat.mul_one] at value
    refine ⟨i, ?_, rfl, value⟩
    by_contra hlarge
    have hpow : 1 * 2 ^ 53 ≤ n * 2 ^ i :=
      Nat.mul_le_mul hn (Nat.pow_le_pow_right (by decide) (by omega))
    omega

theorem plain_finite {negative : Bool} {m n : Nat} {e : Int} (hn : 0 < n) (hle : n ≤ 2 ^ 53)
    (low : 2 ^ 52 ≤ m) (high : m < 2 ^ 53)
    (value : m * 2 ^ e.toNat = n * 2 ^ (-e).toNat) :
    plain.finite ⟨negative, m, e⟩ = (if negative then ['-'] else []) ++ Nat.toDigits 10 n := by
  have hm : m ≠ 0 := by
    rintro rfl
    simp at low
  have htie : plain.tie = .up := rfl
  have hmagnitude : plain.magnitude (shortest .up m e) = Nat.toDigits 10 n := by
    rcases significand_cases hn hle low high value with ⟨i, hi, rfl, rfl⟩ | ⟨rfl, rfl, rfl⟩
    · obtain ⟨d, j, hj, hshortest, hvalue⟩ := shortest_whole .up low high hi
      have hd : 0 < d := Nat.pos_of_ne_zero fun h => by
        rw [h, Nat.zero_mul] at hvalue
        omega
      rw [hshortest, plain_magnitude hd hj, hvalue]
    · decide +kernel
  simp only [Layout.finite, hm, if_false, htie, hmagnitude]

/-- **A whole double of at most `2 ^ 53` is written with the digits of the integer.** -/
theorem StandsFor.plainText_eq {x : Float} {n : Int} (h : StandsFor x n) (hn : n ≠ 0)
    (hle : n.natAbs ≤ 2 ^ 53) : plainText x = toString n := by
  obtain ⟨s, hs, hwhole | ⟨-, hlarge⟩⟩ := h
  · rw [nearest_of_le hle] at hwhole
    have hwritten : toString n =
        String.ofList ((if n < 0 then ['-'] else []) ++ Nat.toDigits 10 n.natAbs) := by
      rw [← toList_toString_int, String.ofList_toList]
    rw [plainText, Layout.render, ofFloat?_eq, hwritten]
    unfold Represents at hwhole
    generalize x.toModel.unpack = u at hwhole
    have hpos : 0 < n.natAbs := Int.natAbs_pos.mpr hn
    generalize hm : n.natAbs = m at *
    cases hwhole with
    | zero => omega
    | finite _ low high least value =>
        have hsign : isMinus s = decide (n < 0) := by
          cases s with
          | positive =>
              have hnonneg : ¬n < 0 := by
                rw [← hs]
                exact Int.not_lt.mpr (Int.natCast_nonneg m)
              rw [decide_eq_false hnonneg]
              rfl
          | negative =>
              have hneg : n < 0 := by
                rw [← hs]
                exact Int.neg_neg_of_pos (Int.natCast_pos.mpr hpos)
              rw [decide_eq_true hneg]
              rfl
        simp only [plain_finite hpos hle low high value, hsign, decide_eq_true_eq]
  · rw [nearest_of_le hle] at hlarge
    omega

end SkyCatalog.Decimal
