import SkyCatalog.Proofs.Decimal.Exact

/-!
# Parts of a range of sixty-four bits

A number of sixty-four bits becomes the double nearest to it, and the greatest of them becomes
`2 ^ 64` (`unpack_greatest`). A quotient by that is exact: only the exponent changes
(`div_two_pow`). It has therefore the value of the nearest number in a fixed unit
(`exists_ofFloat?_part`). Rounding to the nearest keeps the order (`nearest_mono`), and finite
doubles stand in the order of their values (`Canonical.place_le_iff`), so a greater number makes up
no smaller part of the range (`part_mono`). Every part lies between zero and one (`part_mem_unit`);
one itself is reached by the numbers that are rounded up to `2 ^ 64`.
-/

namespace SkyCatalog.Decimal

open Float.Model Float.Model.UnpackedFloat

/-- The nearest has at most fifty-three digits before its zeros. -/
theorem exists_nearest_eq (n : Nat) : ∃ a b, a ≤ 2 ^ 53 ∧ nearest n = a * 2 ^ b := by
  refine ⟨_, _, halfEven_le ?_, rfl⟩
  calc n ≤ 2 ^ (n.log2 + 1) := Nat.lt_log2_self.le
    _ ≤ 2 ^ (53 + (n.log2 - 52)) := Nat.pow_le_pow_right (by decide) (by omega)
    _ = 2 ^ 53 * 2 ^ (n.log2 - 52) := Nat.pow_add _ _ _

/-- Rounding to the nearest keeps the order. -/
theorem nearest_mono {m n : Nat} (h : m ≤ n) : nearest m ≤ nearest n := by
  obtain ⟨a, b, ha, hm⟩ := exists_nearest_eq m
  obtain ⟨c, d, hc, hn⟩ := exists_nearest_eq n
  -- neither of the two lies closer to the other's number
  have hleft := dist_nearest_le m (b := d) hc
  have hright := dist_nearest_le n (b := b) ha
  rw [← hn] at hleft
  rw [← hm] at hright
  by_contra hlt
  obtain rfl : m = n := by omega
  exact hlt (Nat.le_refl _)

/-! ## Quotients -/

/-- Division by a power of two changes the exponent only. -/
theorem div_two_pow {s : Sign} {m : Nat} {e f : Int} (hpos : 0 < m) (low : 2 ^ 52 ≤ m)
    (high : m < 2 ^ 53) (hleast : -1021 ≤ e - f) (hunit : 0 < 2 ^ 52) :
    UnpackedFloat.div .binary64 (.finite s m e hpos) (.finite .positive (2 ^ 52) f hunit) =
      .finite s m (e - f - 52) hpos := by
  have hsign : s / .positive = s := by cases s <;> rfl
  have hlog : m.log2 = 52 := log2_eq_of_bounds low high
  have hcore : divCore .binary64 m e (2 ^ 52) f = (m * 2 ^ 1, e - f - 53, .exact) := by
    have htarget : min (e - f) (Format.binary64.targetExponent
        (totalExponent m e - totalExponent (2 ^ 52) f)) = e - f - 53 := by
      simp only [Format.targetExponent, totalExponent, Format.mantissaBits, Format.minExponent,
        hlog, Nat.log2_two_pow]
      norm_num
      omega
    have hshift : (e - f - (e - f - 53)).toNat = 53 := by omega
    have hsplit : m * 2 ^ 53 = m * 2 ^ 1 * 2 ^ 52 := by omega
    simp only [divCore, htarget, hshift, Nat.shiftLeft_eq, hsplit, Nat.mul_mod_left,
      Nat.mul_div_cancel _ hunit]
    rfl
  have hround := roundWithAccuracy_mul_two_pow s (e := e - f - 53) hpos low high (k := 1) (by omega)
  simp only [UnpackedFloat.div, hcore, hsign, hround]
  congr 1
  omega

/-- The exponents of whole numbers within the range. -/
theorem exponent_bounds {m n : Nat} {e : Int} (low : 2 ^ 52 ≤ m) (high : m < 2 ^ 53)
    (value : m * 2 ^ e.toNat = n * 2 ^ (-e).toNat) (hn : n ≤ 2 ^ 64) : -52 ≤ e ∧ e ≤ 12 := by
  constructor
  · by_contra hsmall
    have hup : e.toNat = 0 := by omega
    have hpow : 2 ^ 53 ≤ 2 ^ (-e).toNat := Nat.pow_le_pow_right (by decide) (by omega)
    rw [hup, Nat.pow_zero, Nat.mul_one] at value
    have hne : 0 < n := Nat.pos_of_ne_zero (by rintro rfl; omega)
    have hlarge : 1 * 2 ^ 53 ≤ n * 2 ^ (-e).toNat := Nat.mul_le_mul hne hpow
    omega
  · by_contra hlarge
    have hdown : (-e).toNat = 0 := by omega
    have hpow : 2 ^ 52 * 2 ^ 13 ≤ m * 2 ^ e.toNat :=
      Nat.mul_le_mul low (Nat.pow_le_pow_right (by decide) (by omega))
    rw [value, hdown] at hpow
    omega

/-- A whole number within the range survives packing. -/
theorem IsWhole.unpack_pack_of_le {s : Sign} {n : Nat} {u : UnpackedFloat} (h : IsWhole s n u)
    (hn : n ≤ 2 ^ 64) : (Float.Model.pack u).unpack = u := by
  cases h with
  | zero => cases s <;> rfl
  | @finite m e _ hpos low high least value =>
      have hbounds := exponent_bounds low high value hn
      exact unpack_pack_of_bounds s hpos low high least (by omega)

/-- A number of sixty-four bits becomes the double nearest to it, which may be `2 ^ 64`. -/
theorem represents_ofNat {n : Nat} (hn : n ≤ 2 ^ 64) :
    Represents (Float.ofNat n) .positive (nearest n) := by
  obtain ⟨u, hwhole, heq⟩ := exists_ofNat_eq n
  have hunpack : (Float.ofNat n).toModel.unpack = (Float.Model.pack u).unpack :=
    congrArg (·.toModel.unpack) heq
  rw [Represents, hunpack, hwhole.unpack_pack_of_le (nearest_le_two_pow hn)]
  exact hwhole

/-- The greatest number of sixty-four bits becomes `2 ^ 64`. -/
theorem unpack_greatest : (Float.ofNat (2 ^ 64 - 1)).toModel.unpack =
    .finite .positive (2 ^ 52) 12 (by decide) := rfl

/-! ## Values -/

namespace Binary

/-- The magnitude of the value as a rational number. -/
def magnitude (b : Binary) : ℚ :=
  b.significand * 2 ^ b.exponent

/-- A greater exponent is a greater value. -/
theorem Canonical.magnitude_lt_of_exponent_lt {a b : Binary} (ha : a.Canonical) (hb : b.Canonical)
    (h : a.exponent < b.exponent) : a.magnitude < b.magnitude := by
  have hleast := ha.least
  have hhigh : (a.significand : ℚ) < 2 ^ 53 := by exact_mod_cast ha.high
  have hlow : (2 ^ 52 : ℚ) ≤ b.significand := by
    exact_mod_cast hb.low.resolve_right (by omega)
  calc (a.significand : ℚ) * 2 ^ a.exponent < 2 ^ 53 * 2 ^ a.exponent := by gcongr
    _ = 2 ^ 52 * 2 ^ (a.exponent + 1) := by rw [zpow_add_one₀ (by norm_num)]; ring
    _ ≤ b.significand * 2 ^ b.exponent := by
        gcongr
        · norm_num
        · exact h

/-- Doubles stand in the order of their values. -/
theorem Canonical.place_le_iff {a b : Binary} (ha : a.Canonical) (hb : b.Canonical) :
    a.place ≤ b.place ↔ a.magnitude ≤ b.magnitude := by
  rcases Int.lt_trichotomy a.exponent b.exponent with hlt | heq | hgt
  · exact iff_of_true (ha.place_lt_of_exponent_lt hb hlt).le
      (ha.magnitude_lt_of_exponent_lt hb hlt).le
  · have hpos : (0 : ℚ) < 2 ^ b.exponent := by positivity
    rw [place, place, magnitude, magnitude, heq, Nat.add_le_add_iff_left,
      mul_le_mul_iff_left₀ hpos, Nat.cast_le]
  · exact iff_of_false (Nat.not_le.mpr (hb.place_lt_of_exponent_lt ha hgt))
      (not_le.mpr (hb.magnitude_lt_of_exponent_lt ha hgt))

end Binary

/-- Doubles that are not negative are compared by their magnitudes. -/
theorem le_iff_magnitude {x y : Float} {a b : Binary} (hx : Binary.ofFloat? x = some a)
    (hy : Binary.ofFloat? y = some b) (ha : a.negative = false) (hb : b.negative = false) :
    x ≤ y ↔ a.magnitude ≤ b.magnitude := by
  rw [le_iff hx hy, Binary.rank_of_positive ha, Binary.rank_of_positive hb, Int.ofNat_le]
  exact (Binary.ofFloat?_eq_some_iff.mp hx).1.place_le_iff (Binary.ofFloat?_eq_some_iff.mp hy).1

/-- A whole number that is given by its digits before and after the point. -/
theorem mul_zpow_of_value {m n : Nat} {e : Int}
    (value : m * 2 ^ e.toNat = n * 2 ^ (-e).toNat) : (m : ℚ) * 2 ^ e = n := by
  have hsplit : (2 : ℚ) ^ e * 2 ^ (-e).toNat = 2 ^ e.toNat := by
    rw [← zpow_natCast, ← zpow_natCast, ← zpow_add₀ (by norm_num)]
    congr 1
    omega
  have hcast : (m : ℚ) * 2 ^ e.toNat = n * 2 ^ (-e).toNat := by exact_mod_cast value
  rw [← hsplit, ← mul_assoc] at hcast
  exact mul_right_cancel₀ (by positivity) hcast

/-- **A number of sixty-four bits as a part of their range:** the value of the double. -/
theorem exists_ofFloat?_part {n : Nat} (hn : n < 2 ^ 64) :
    ∃ b, Binary.ofFloat? (Float.ofNat n / Float.ofNat (2 ^ 64 - 1)) = some b ∧ b.negative = false ∧
      b.magnitude = nearest n / 2 ^ 64 := by
  have hquotient : (Float.ofNat n / Float.ofNat (2 ^ 64 - 1)).toModel = .pack
    (UnpackedFloat.div .binary64 (Float.ofNat n).toModel.unpack
      (Float.ofNat (2 ^ 64 - 1)).toModel.unpack) := rfl
  have hwhole := represents_ofNat hn.le
  have hbound : nearest n ≤ 2 ^ 64 := nearest_le_two_pow hn.le
  unfold Represents at hwhole
  simp only [← hasValue_iff, hquotient, unpack_greatest]
  generalize (Float.ofNat n).toModel.unpack = u at hwhole
  generalize nearest n = k at hwhole hbound
  cases hwhole with
  | zero => exact ⟨_, .zero .positive, rfl, by simp [Binary.magnitude]⟩
  | @finite m e _ hpos low high least value =>
      have hbounds := exponent_bounds low high value hbound
      have hsame : (Float.Model.pack (.finite .positive m (e - 12 - 52) hpos)).unpack =
          .finite .positive m (e - 12 - 52) hpos :=
        unpack_pack_of_bounds .positive hpos low high (by omega) (by omega)
      rw [div_two_pow hpos low high (by omega), hsame]
      refine ⟨_, .finite .positive hpos, rfl, ?_⟩
      have hexponent : e - 12 - 52 = e - 64 := by omega
      rw [Binary.magnitude, hexponent, zpow_sub₀ (by norm_num), ← mul_div_assoc,
        mul_zpow_of_value value]
      norm_num

/-! ## Order -/

/-- **A greater number makes up no smaller part** of the range. -/
theorem part_mono {m n : Nat} (h : m ≤ n) (hn : n < 2 ^ 64) :
    Float.ofNat m / Float.ofNat (2 ^ 64 - 1) ≤ Float.ofNat n / Float.ofNat (2 ^ 64 - 1) := by
  obtain ⟨a, ha, hapos, hamagnitude⟩ := exists_ofFloat?_part (h.trans_lt hn)
  obtain ⟨b, hb, hbpos, hbmagnitude⟩ := exists_ofFloat?_part hn
  rw [le_iff_magnitude ha hb hapos hbpos, hamagnitude, hbmagnitude]
  have hnearest : (nearest m : ℚ) ≤ nearest n := Nat.cast_le.mpr (nearest_mono h)
  gcongr

/-- Every part lies between zero and one. -/
theorem part_mem_unit {n : Nat} (hn : n < 2 ^ 64) :
    0.0 ≤ Float.ofNat n / Float.ofNat (2 ^ 64 - 1) ∧
      Float.ofNat n / Float.ofNat (2 ^ 64 - 1) ≤ 1.0 := by
  obtain ⟨b, hb, hpos, hmagnitude⟩ := exists_ofFloat?_part hn
  have hzero : Binary.ofFloat? 0.0 = some ⟨false, 0, -1074⟩ := rfl
  have hone : Binary.ofFloat? 1.0 = some ⟨false, 2 ^ 52, -52⟩ := rfl
  have hnearest : (nearest n : ℚ) ≤ 2 ^ 64 := by exact_mod_cast nearest_le_two_pow hn.le
  rw [le_iff_magnitude hzero hb rfl hpos, le_iff_magnitude hb hone hpos rfl, hmagnitude]
  constructor
  · simp only [Binary.magnitude, Nat.cast_zero, zero_mul]
    positivity
  · calc (nearest n : ℚ) / 2 ^ 64 ≤ 1 := (div_le_one (by positivity)).mpr hnearest
      _ = (⟨false, 2 ^ 52, -52⟩ : Binary).magnitude := by norm_num [Binary.magnitude]

end SkyCatalog.Decimal
