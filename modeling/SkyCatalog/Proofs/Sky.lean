import SkyCatalog.Proofs.Decimal.Bounds
import SkyCatalog.Sky

/-!
# Angles on the circle

Every finite angle is brought into the half-open circle (`wrapCircle_spec`), and an angle that
lies there is left as it is, negative zero included (`wrapCircle_of_mem`).

The remainder by 360 degrees is exact. Only the full circle that is added to a negative remainder
is rounded, and all that matters of it is that it keeps the sign plus
(`hasSign_add_fullCircle`): if it is rounded to 360 degrees, it is taken for zero.
-/

namespace SkyCatalog.Sky

open Decimal Float.Model Float.Model.UnpackedFloat

/-! ## The remainder -/

/-- The full circle, 360 degrees. -/
def fullCircle : Binary := ⟨false, 360 * 2 ^ 44, -44⟩

theorem ofFloat?_fullCircle : Binary.ofFloat? 360.0 = some fullCircle := by
  decide +kernel

theorem unpack_fullCircle :
    (360.0 : Float).toModel.unpack = .finite .positive (360 * 2 ^ 44) (-44) (by decide) := rfl

theorem ofFloat?_zero : Binary.ofFloat? 0.0 = some ⟨false, 0, -1074⟩ := by
  decide +kernel

/-- The magnitude of a value is less than a whole number. -/
def Below (n : Nat) (b : Binary) : Prop :=
  b.significand * 2 ^ b.exponent.toNat < n * 2 ^ (-b.exponent).toNat

variable {n : Nat} {b : Binary}

/-- A remainder is less than the period. -/
theorem below_remainder (hn : 0 < n) : Below n (b.remainder n) := by
  have hpow : ∀ k, Nat.pow 2 k = 2 ^ k := fun _ => rfl
  unfold Below Binary.remainder
  split
  · simpa using Nat.mod_lt _ hn
  · next hneg =>
    have hup : b.exponent.toNat = 0 := by omega
    rw [hup, Nat.pow_zero, Nat.mul_one, hpow]
    exact Nat.mod_lt _ (Nat.mul_pos hn (Nat.two_pow_pos _))

/-- Shifting the significand of a value does not change it. -/
theorem Below.shift (h : Below n b) (hexponent : b.exponent ≤ 0) (k : Nat) :
    Below n (b.shift k) := by
  have hup : b.exponent.toNat = 0 ∧ (b.exponent - k).toNat = 0 := by omega
  have hdown : (-(b.exponent - k)).toNat = (-b.exponent).toNat + k := by omega
  unfold Below Binary.shift at *
  rw [hup.1, Nat.pow_zero, Nat.mul_one] at h
  simp only [hup.2, hdown, Nat.pow_zero, Nat.mul_one, Nat.pow_add, ← Nat.mul_assoc]
  exact Nat.mul_lt_mul_of_pos_right h (Nat.two_pow_pos k)

theorem place_fullCircle : fullCircle.place = 1030 * 2 ^ 52 + 360 * 2 ^ 44 := rfl

/-- **The angles below the full circle** are the doubles that stand before it. -/
theorem below_iff_place_lt (h : b.Canonical) : Below 360 b ↔ b.place < fullCircle.place := by
  obtain ⟨least, most, high, low⟩ := h
  rw [place_fullCircle]
  unfold Below Binary.place
  rcases Int.lt_trichotomy b.exponent (-44) with hless | heq | hmore
  · -- fifty-three digits cannot reach it
    have hup : b.exponent.toNat = 0 := by omega
    have hlarge : 360 * 2 ^ 45 ≤ 360 * 2 ^ (-b.exponent).toNat :=
      Nat.mul_le_mul_left _ (Nat.pow_le_pow_right (by decide) (by omega))
    rw [hup, Nat.pow_zero, Nat.mul_one]
    omega
  · rw [heq]
    have hup : (-44 : Int).toNat = 0 ∧ (-(-44 : Int)).toNat = 44 := ⟨rfl, rfl⟩
    rw [hup.1, hup.2]
    omega
  · -- the implicit leading digit is already beyond it
    have hsmall : 360 * 2 ^ (-b.exponent).toNat ≤ 360 * 2 ^ 43 :=
      Nat.mul_le_mul_left _ (Nat.pow_le_pow_right (by decide) (by omega))
    have hlarge : b.significand ≤ b.significand * 2 ^ b.exponent.toNat :=
      Nat.le_mul_of_pos_right _ (Nat.two_pow_pos _)
    omega

theorem exponent_le_of_below (h : b.Canonical) (hbelow : Below 360 b) : b.exponent ≤ -44 := by
  have hplace := (below_iff_place_lt h).mp hbelow
  rw [place_fullCircle] at hplace
  obtain ⟨least, most, high, low⟩ := h
  unfold Binary.place at hplace
  omega

/-- The remainder of a finite angle is a finite angle below the full circle. -/
theorem exists_remainder {x : Float} (hx : x.isFinite = true) :
    ∃ r, Binary.ofFloat? (Decimal.remainder x 360) = some r ∧ r.Canonical ∧ Below 360 r := by
  obtain ⟨b, hb⟩ := isFinite_iff.mp hx
  obtain ⟨least, most, high, low⟩ := (Binary.ofFloat?_eq_some_iff.mp hb).1
  have hbelow : Below 360 (b.remainder 360) := below_remainder (by decide)
  have hremainder : -1074 ≤ (b.remainder 360).exponent ∧ (b.remainder 360).exponent ≤ 0 ∧
      (b.remainder 360).significand < 2 ^ 53 := by
    unfold Binary.remainder
    split
    · have := Nat.mod_lt (b.significand * Nat.pow 2 b.exponent.toNat) (y := 360) (by decide)
      simp only
      omega
    · have := Nat.mod_le b.significand (360 * Nat.pow 2 (-b.exponent).toNat)
      simp only
      omega
  obtain ⟨hleast, hmost, hhigh⟩ := hremainder
  obtain ⟨k, hk, hvalue⟩ := Binary.ofFloat?_toFloat hleast (by omega) hhigh
  refine ⟨_, ?_, hk, hbelow.shift hmost k⟩
  rw [Decimal.remainder, hb]
  exact hvalue

/-- An angle below the full circle is its own remainder. -/
theorem remainder_of_below {x : Float} (hb : Binary.ofFloat? x = some b) (hbelow : Below 360 b) :
    Decimal.remainder x 360 = x := by
  have hexponent := exponent_le_of_below (Binary.ofFloat?_eq_some_iff.mp hb).1 hbelow
  have hsame : b.remainder 360 = b := by
    have hup : b.exponent.toNat = 0 := by omega
    have hlt : b.significand < 360 * Nat.pow 2 (-b.exponent).toNat := by
      simpa [Below, hup] using hbelow
    rw [Binary.remainder, if_neg (by omega), Nat.mod_eq_of_lt hlt]
  rw [Decimal.remainder, hb]
  exact (congrArg Binary.toFloat hsame).trans (Binary.toFloat_of_ofFloat? hb)

/-! ## The full circle that is added -/

/-- Such a double is finite and at least zero, or beyond every bound. -/
theorem le_or_mem_of_hasSign {x : Float} (h : HasSign .positive x.toModel.unpack) :
    360.0 ≤ x ∨ x.isFinite = true ∧ 0.0 ≤ x := by
  have hfinite : x.isFinite = x.toModel.unpack.isFinite := rfl
  rw [le_def, le_def, hfinite, unpack_zero, unpack_fullCircle]
  generalize x.toModel.unpack = u at h
  cases h with
  | infinity => exact Or.inl rfl
  | zero => exact Or.inr ⟨rfl, rfl⟩
  | finite => exact Or.inr ⟨rfl, rfl⟩

/-- A negative angle below the full circle and the full circle together are not negative. -/
theorem hasSign_add_fullCircle {x : Float} (hb : Binary.ofFloat? x = some b) (hbelow : Below 360 b)
    (hx : x < 0.0) : HasSign .positive (x + 360.0).toModel.unpack := by
  have hsum : (x + 360.0).toModel = .pack
    (UnpackedFloat.add .binary64 x.toModel.unpack (360.0 : Float).toModel.unpack) := rfl
  have hexponent := exponent_le_of_below (Binary.ofFloat?_eq_some_iff.mp hb).1 hbelow
  have hrank := (lt_iff hb ofFloat?_zero).mp hx
  have hvalue := hasValue_iff.mpr hb
  rw [Binary.rank_zero] at hrank
  rw [hsum, unpack_fullCircle]
  apply HasSign.unpack_pack
  generalize x.toModel.unpack = u at hvalue
  cases hvalue with
  | zero s =>
      rw [Binary.rank_zero] at hrank
      omega
  | @finite s m e hpos =>
      cases s with
      | positive =>
          rw [Binary.rank_of_positive rfl] at hrank
          omega
      | negative =>
          simp only at hexponent
          have hup : e.toNat = 0 := by omega
          have hdown : (-44 - e).toNat + 44 = (-e).toNat := by omega
          have hmin : min e (-44) = e := by omega
          -- brought to the exponent of the angle, the full circle is more than it
          have hmore : m < 360 * 2 ^ 44 * 2 ^ (-44 - e).toNat := by
            have hlt : m < 360 * 2 ^ (-e).toNat := by simpa [Below, hup] using hbelow
            rwa [← hdown, Nat.add_comm, Nat.pow_add, ← Nat.mul_assoc] at hlt
          simp only [UnpackedFloat.add, decreaseExponent, hmin, Int.sub_self, Int.toNat_zero,
            Nat.shiftLeft_eq, Sign.apply]
          apply hasSign_normalize
          omega

/-! ## Wrapping -/

/-- **Every finite angle is brought into the circle.** -/
theorem wrapCircle_spec {x : Float} (hx : x.isFinite = true) :
    (wrapCircle x).isFinite = true ∧ 0.0 ≤ wrapCircle x ∧ wrapCircle x < 360.0 := by
  have hzero : (0.0 : Float).isFinite = true := isFinite_iff.mpr ⟨_, ofFloat?_zero⟩
  have hcircle : (360.0 : Float).isFinite = true := isFinite_iff.mpr ⟨_, ofFloat?_fullCircle⟩
  obtain ⟨r, hr, hcanonical, hbelow⟩ := exists_remainder hx
  have hfinite : (Decimal.remainder x 360).isFinite = true := isFinite_iff.mpr ⟨r, hr⟩
  simp only [wrapCircle]
  -- before the full circle is taken for zero
  have hwrapped : ∀ w, (if Decimal.remainder x 360 < 0.0 then Decimal.remainder x 360 + 360.0
      else Decimal.remainder x 360) = w → 360.0 ≤ w ∨ w.isFinite = true ∧ 0.0 ≤ w := by
    rintro w rfl
    split
    · next hneg => exact le_or_mem_of_hasSign (hasSign_add_fullCircle hr hbelow hneg)
    · next hneg => exact Or.inr ⟨hfinite, (not_lt_iff hfinite hzero).mp hneg⟩
  generalize hw : (if Decimal.remainder x 360 < 0.0 then Decimal.remainder x 360 + 360.0
      else Decimal.remainder x 360) = w
  split
  · next hfull =>
    exact ⟨hzero, (le_iff ofFloat?_zero ofFloat?_zero).mpr (Int.le_refl _),
      (lt_iff ofFloat?_zero ofFloat?_fullCircle).mpr (by decide)⟩
  · next hfull =>
    obtain ⟨hwfinite, hlow⟩ := (hwrapped w hw).resolve_left hfull
    exact ⟨hwfinite, hlow, (not_le_iff hcircle hwfinite).mp hfull⟩

/-- **An angle on the circle stays where it is.** -/
theorem wrapCircle_of_mem {x : Float} (hx : x.isFinite = true) (hlow : 0.0 ≤ x)
    (hhigh : x < 360.0) : wrapCircle x = x := by
  have hzero : (0.0 : Float).isFinite = true := isFinite_iff.mpr ⟨_, ofFloat?_zero⟩
  have hcircle : (360.0 : Float).isFinite = true := isFinite_iff.mpr ⟨_, ofFloat?_fullCircle⟩
  obtain ⟨b, hb⟩ := isFinite_iff.mp hx
  have hcanonical := (Binary.ofFloat?_eq_some_iff.mp hb).1
  have hbelow : Below 360 b := by
    have hleft := (le_iff ofFloat?_zero hb).mp hlow
    have hright := (lt_iff hb ofFloat?_fullCircle).mp hhigh
    rw [below_iff_place_lt hcanonical]
    rw [Binary.rank_zero] at hleft
    rw [Binary.rank_of_positive (b := fullCircle) rfl] at hright
    cases hsign : b.negative with
    | true =>
        rw [Binary.rank_of_negative hsign] at hleft
        rw [place_fullCircle]
        omega
    | false =>
        rw [Binary.rank_of_positive hsign] at hright
        omega
  simp only [wrapCircle, remainder_of_below hb hbelow]
  rw [if_neg ((not_lt_iff hx hzero).mpr hlow), if_neg ((not_le_iff hcircle hx).mpr hhigh)]

end SkyCatalog.Sky
