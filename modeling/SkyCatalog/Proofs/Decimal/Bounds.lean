import SkyCatalog.Proofs.Decimal.Exact

/-!
# Bounds that rounding respects

Rounding neither changes the sign of a number (`HasSign`) nor takes a number that is at most one
beyond it (`InUnit`), because zero and one are doubles themselves. Both are stated for what the
logical model of doubles computes with, and both survive packing. A product of two numbers from
zero to one is one again (`mul_mem_unit`), and so is one less a number that is not negative, if the
difference is not negative itself (`one_sub_le_one`).
-/

namespace SkyCatalog.Decimal

open Float.Model Float.Model.UnpackedFloat

/-! ## Signs -/

/-- A zero, a number or an infinity of a sign. -/
inductive HasSign (s : Sign) : UnpackedFloat → Prop where
  | infinity : HasSign s (.infinity s)
  | zero : HasSign s (.zero s)
  | finite {m : Nat} {e : Int} (hpos : 0 < m) : HasSign s (.finite s m e hpos)

theorem hasSign_roundWithAccuracy (s : Sign) (m : Nat) (e : Int) (accuracy : Accuracy) :
    HasSign s (roundWithAccuracy .binary64 s m e accuracy) := by
  simp only [roundWithAccuracy]
  split
  · exact .zero
  · exact .finite _

theorem hasSign_normalize {m : Int} (hm : 0 < m) (e : Int) :
    HasSign .positive (UnpackedFloat.normalize .binary64 m e .positive) := by
  have hcompare : compare m 0 = .gt := Int.compare_eq_gt.mpr hm
  simp only [UnpackedFloat.normalize, hcompare, UnpackedFloat.round]
  apply hasSign_roundWithAccuracy

/-- The sign survives packing, whatever else is lost. -/
theorem HasSign.unpack_pack {s : Sign} {u : UnpackedFloat} (h : HasSign s u) :
    HasSign s (Float.Model.pack u).unpack := by
  cases h with
  | infinity => cases s <;> exact .infinity
  | zero => cases s <;> exact .zero
  | @finite m e hpos =>
      rcases unpack_pack_cases s e hpos with hsame | ⟨-, hinfinite⟩ | hzero |
        ⟨m', hpos', -, hleast⟩
      · rw [hsame]
        exact .finite hpos
      · rw [hinfinite]
        exact .infinity
      · rw [hzero]
        exact .zero
      · rw [hleast]
        exact .finite hpos'

theorem hasSign_ofNat (n : Nat) : HasSign .positive (Float.ofNat n).toModel.unpack := by
  have hstands := stands_ofNat n
  unfold Stands Represents at hstands
  generalize (Float.ofNat n).toModel.unpack = u at hstands
  generalize nearest n = k at hstands
  rcases hstands with hwhole | ⟨rfl, -⟩
  · cases hwhole with
    | zero => exact .zero
    | finite hpos => exact .finite hpos
  · exact .infinity

/-- A quotient by a positive number. -/
theorem hasSign_div {x y : Float} {m : Nat} {e : Int} {hpos : 0 < m}
    (hx : HasSign .positive x.toModel.unpack)
    (hy : y.toModel.unpack = .finite .positive m e hpos) :
    HasSign .positive (x / y).toModel.unpack := by
  have hquotient : (x / y).toModel =
    .pack (UnpackedFloat.div .binary64 x.toModel.unpack y.toModel.unpack) := rfl
  rw [hquotient, hy]
  apply HasSign.unpack_pack
  generalize x.toModel.unpack = u at hx
  cases hx with
  | infinity => exact .infinity
  | zero => exact .zero
  | finite =>
      -- how the quotient was cut off does not matter
      apply hasSign_roundWithAccuracy

/-! ## Numbers from zero to one -/

/-- A number from zero to one. Neither of the two zeros is less than the other. -/
inductive InUnit : UnpackedFloat → Prop where
  | zero (s : Sign) : InUnit (.zero s)
  | finite {m : Nat} {e : Int} (hpos : 0 < m) (he : e ≤ -52) (hm : m ≤ 2 ^ (-e).toNat) :
      InUnit (.finite .positive m e hpos)

theorem unpack_zero : (0.0 : Float).toModel.unpack = .zero .positive := rfl

theorem unpack_one :
    (1.0 : Float).toModel.unpack = .finite .positive (2 ^ 52) (-52) (by decide) := rfl

theorem isLE_compare_one {m : Nat} {e : Int} (hpos : 0 < m) :
    ((UnpackedFloat.finite .positive m e hpos).compare
      (.finite .positive (2 ^ 52) (-52) (by decide))).any (·.isLE) = true ↔
        e < -52 ∨ e = -52 ∧ m ≤ 2 ^ 52 := by
  have hcompare : (UnpackedFloat.finite .positive m e hpos).compare
      (.finite .positive (2 ^ 52) (-52) (by decide)) =
    some ((compare e (-52)).then (compare m (2 ^ 52))) := rfl
  rw [hcompare, Option.any_some]
  rcases Int.lt_trichotomy e (-52) with hlt | rfl | hgt
  · rw [Int.compare_eq_lt.mpr hlt]
    exact ⟨fun _ => Or.inl hlt, fun _ => rfl⟩
  · rw [Int.compare_eq_eq.mpr rfl, Ordering.eq_then, Nat.isLE_compare]
    simp
  · rw [Int.compare_eq_gt.mpr hgt]
    constructor
    · rintro ⟨⟩
    · omega

/-- **The unit interval** holds the doubles that compare as at least zero and at most one. -/
theorem inUnit_iff {x : Float} : InUnit x.toModel.unpack ↔ 0.0 ≤ x ∧ x ≤ 1.0 := by
  have hvalue := fun b => hasValue_iff (x := x) (b := b)
  rw [le_def, le_def, unpack_zero, unpack_one]
  generalize x.toModel.unpack = u at hvalue
  constructor
  · intro h
    cases h with
    | zero s => exact ⟨rfl, rfl⟩
    | finite hpos he hm =>
        refine ⟨rfl, (isLE_compare_one hpos).mpr ?_⟩
        rcases Int.lt_or_eq_of_le he with hlt | rfl
        · exact Or.inl hlt
        · exact Or.inr ⟨rfl, hm⟩
  · rintro ⟨hlow, hhigh⟩
    cases u with
    | infinity s =>
        cases s with
        | negative => cases hlow
        | positive => cases hhigh
    | notANumber => cases hlow
    | zero s => exact .zero s
    | finite s m e hpos =>
        cases s with
        | negative => cases hlow
        | positive =>
            obtain ⟨-, -, high, -⟩ :=
              (Binary.ofFloat?_eq_some_iff.mp ((hvalue _).mp (.finite _ hpos))).1
            rcases (isLE_compare_one hpos).mp hhigh with hlt | ⟨rfl, hm⟩
            · -- fifty-three digits cannot reach one
              have hpow : 2 ^ 53 ≤ 2 ^ (-e).toNat := Nat.pow_le_pow_right (by decide) (by omega)
              exact .finite hpos hlt.le (high.le.trans hpow)
            · exact .finite hpos (Int.le_refl _) hm

/-- What is at least zero is a number. -/
theorem isNaN_eq_false_of_le {x : Float} (h : 0.0 ≤ x) : x.isNaN = false := by
  have hnan : x.isNaN = x.toModel.unpack.isNaN := rfl
  rw [le_def, unpack_zero] at h
  rw [hnan]
  generalize x.toModel.unpack = u at h
  cases u with
  | notANumber => cases h
  | infinity | zero | finite => rfl

/-- What is finite and greater than zero. -/
theorem exists_unpack_of_pos {x : Float} (hfinite : x.isFinite = true) (hlow : 0.0 ≤ x)
    (hpos : ¬x ≤ 0.0) : ∃ m e, ∃ h : 0 < m, x.toModel.unpack = .finite .positive m e h := by
  have hunpack : x.isFinite = x.toModel.unpack.isFinite := rfl
  rw [hunpack] at hfinite
  rw [le_def, unpack_zero] at hlow hpos
  generalize x.toModel.unpack = u at hfinite hlow hpos
  cases u with
  | infinity | notANumber => cases hfinite
  | zero s => exact absurd rfl hpos
  | finite s m e h =>
      cases s with
      | negative => cases hlow
      | positive => exact ⟨m, e, h, rfl⟩

theorem InUnit.unpack_pack {u : UnpackedFloat} (h : InUnit u) :
    InUnit (Float.Model.pack u).unpack := by
  cases h with
  | zero s => cases s <;> exact .zero _
  | @finite m e hpos he hm =>
      rcases unpack_pack_cases .positive e hpos with hsame | ⟨hlarge, -⟩ | hzero |
        ⟨m', hpos', hsmall, hleast⟩
      · rw [hsame]
        exact .finite hpos he hm
      · omega
      · rw [hzero]
        exact .zero _
      · have hpow : 2 ^ 52 ≤ 2 ^ (-(-1074 : Int)).toNat :=
          Nat.pow_le_pow_right (by decide) (by decide)
        rw [hleast]
        exact .finite hpos' (by decide) (hsmall.le.trans hpow)

/-! ### Rounding -/

section Rounding

variable {m : Nat} {e : Int}

/-- The exponent to which a number of at most one is brought still divides one. -/
theorem exists_shift (he : e ≤ -52) (hm : m ≤ 2 ^ (-e).toNat) :
    ∃ k : Nat, e + k ≤ -52 ∧ m ≤ 2 ^ (-(e + k)).toNat * 2 ^ k ∧
      shiftToTargetExponent .binary64 m e .exact =
        (ExtendedMantissa.ofMantissaAndAccuracy m .exact >>> k, e + k) := by
  have hlog : m.log2 ≤ (-e).toNat := by
    rcases Nat.eq_zero_or_pos m with rfl | hpos
    · simp
    · have hlt : m < 2 ^ ((-e).toNat + 1) := hm.trans_lt (Nat.pow_lt_pow_succ (by decide))
      exact Nat.le_of_lt_succ ((Nat.log2_lt (Nat.ne_of_gt hpos)).mpr hlt)
  have hk : e + ((Format.binary64.targetExponent (totalExponent m e) - e).toNat : Nat) ≤ -52 := by
    simp only [Format.targetExponent, totalExponent, Format.mantissaBits, Format.minExponent]
    norm_num
    omega
  refine ⟨_, hk, ?_, rfl⟩
  rw [← Nat.pow_add]
  generalize (Format.binary64.targetExponent (totalExponent m e) - e).toNat = k at hk
  have hsplit : (-(e + k)).toNat + k = (-e).toNat := by omega
  rw [hsplit]
  exact hm

theorem inUnit_roundWithAccuracy (he : e ≤ -52) (hm : m ≤ 2 ^ (-e).toNat) :
    InUnit (roundWithAccuracy .binary64 .positive m e .exact) := by
  -- rounding may carry into one more digit, which takes a second shift
  obtain ⟨k, he', hm', hfirst⟩ := exists_shift he hm
  obtain ⟨k', he'', hm'', hsecond⟩ := exists_shift he' (halfEven_le hm')
  simp only [roundWithAccuracy, hfirst, roundedMantissa_shift, hsecond, mantissa_shift]
  split
  · exact .zero _
  · exact .finite _ he'' (Nat.div_le_of_le_mul (by rwa [Nat.mul_comm]))

theorem inUnit_round (he : e ≤ -52) (hm : m ≤ 2 ^ (-e).toNat) :
    InUnit (UnpackedFloat.round .binary64 .positive m e) := by
  simp only [UnpackedFloat.round, decreaseExponent]
  generalize (e - Format.binary64.targetExponent (totalExponent m e)).toNat = k
  have hsplit : (-(e - k)).toNat = (-e).toNat + k := by omega
  apply inUnit_roundWithAccuracy (by omega)
  rw [Nat.shiftLeft_eq, hsplit, Nat.pow_add]
  exact Nat.mul_le_mul_right _ hm

/-- A number of at most one is rounded to one from zero to one, unless it is negative. -/
theorem inUnit_or_hasSign_normalize {n : Int} (he : e ≤ -52) (hn : n ≤ (2 ^ (-e).toNat : Nat)) :
    InUnit (UnpackedFloat.normalize .binary64 n e .positive) ∨
      HasSign .negative (UnpackedFloat.normalize .binary64 n e .positive) := by
  unfold UnpackedFloat.normalize
  split
  · right
    apply hasSign_roundWithAccuracy
  · exact Or.inl (.zero _)
  · left
    apply inUnit_round he
    exact Int.toNat_le.mpr hn

end Rounding

/-! ### Arithmetic -/

theorem InUnit.mul {u v : UnpackedFloat} (hu : InUnit u) (hv : InUnit v) :
    InUnit (UnpackedFloat.mul .binary64 u v) := by
  cases hu with
  | zero s => cases hv <;> exact .zero _
  | @finite m e _ he hm =>
      cases hv with
      | zero t => exact .zero _
      | @finite m' e' _ he' hm' =>
          have hsplit : (-(e + e')).toNat = (-e).toNat + (-e').toNat := by omega
          apply inUnit_roundWithAccuracy (by omega)
          rw [hsplit, Nat.pow_add]
          exact Nat.mul_le_mul hm hm'

/-- **A product of two numbers from zero to one is from zero to one.** -/
theorem mul_mem_unit {x y : Float} (hx : 0.0 ≤ x ∧ x ≤ 1.0) (hy : 0.0 ≤ y ∧ y ≤ 1.0) :
    0.0 ≤ x * y ∧ x * y ≤ 1.0 := by
  have hproduct : (x * y).toModel =
    .pack (UnpackedFloat.mul .binary64 x.toModel.unpack y.toModel.unpack) := rfl
  rw [← inUnit_iff] at hx hy ⊢
  rw [hproduct]
  exact (hx.mul hy).unpack_pack

theorem HasSign.one_sub {u : UnpackedFloat} (h : HasSign .positive u) :
    InUnit (UnpackedFloat.sub .binary64 (1.0 : Float).toModel.unpack u) ∨
      HasSign .negative (UnpackedFloat.sub .binary64 (1.0 : Float).toModel.unpack u) := by
  rw [unpack_one]
  cases h with
  | infinity => exact Or.inr .infinity
  | zero => exact Or.inl (.finite _ (Int.le_refl _) (Nat.le_refl _))
  | @finite m e hpos =>
      simp only [UnpackedFloat.sub, decreaseExponent, Sign.apply, Nat.shiftLeft_eq]
      apply inUnit_or_hasSign_normalize (min_le_left _ _)
      -- one is a power of two in the unit of the difference
      have hsplit : (-min (-52) e).toNat = 52 + (-52 - min (-52) e).toNat := by omega
      rw [hsplit, Nat.pow_add]
      omega

/-- **One less a number that is not negative is at most one**, where the difference is not negative
itself. -/
theorem one_sub_le_one {x : Float} (hx : HasSign .positive x.toModel.unpack)
    (h : 0.0 ≤ 1.0 - x) : 1.0 - x ≤ 1.0 := by
  have hdifference : (1.0 - x).toModel =
    .pack (UnpackedFloat.sub .binary64 (1.0 : Float).toModel.unpack x.toModel.unpack) := rfl
  have hbounds : InUnit (1.0 - x).toModel.unpack ∨ HasSign .negative (1.0 - x).toModel.unpack := by
    rw [hdifference]
    exact hx.one_sub.imp InUnit.unpack_pack HasSign.unpack_pack
  rcases hbounds with hunit | hsign
  · exact (inUnit_iff.mp hunit).2
  · -- a negative zero is all that is left
    rw [le_def, unpack_zero] at h
    rw [le_def, unpack_one]
    generalize (1.0 - x).toModel.unpack = u at h hsign
    cases hsign with
    | infinity => cases h
    | zero => rfl
    | finite => cases h

end SkyCatalog.Decimal
