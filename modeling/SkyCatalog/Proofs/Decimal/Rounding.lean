import Mathlib
import SkyCatalog.Decimal.Binary

/-!
# Rounding to fifty-three binary digits

`nearest n` is the number that a double holds in place of `n`: `dist_nearest_le` says
that no other number of at most fifty-three digits before its zeros lies closer, and
`nearest_eq_self_iff` which numbers are kept.

The logical model of doubles rounds by shifting a mantissa and keeping two bits of what
falls off. `isWhole_roundWithAccuracy` takes this apart for whole numbers: what comes out
has the value `nearest n` and exactly fifty-three digits, so packing it into sixty-four
bits loses nothing (`IsWhole.unpack_pack`) unless it is beyond the range.
-/

namespace SkyCatalog.Decimal

open Float.Model Float.Model.UnpackedFloat

/-! ## Rounding to a multiple of a power of two -/

/-- The quotient of `m` by `2 ^ k`, rounded to the nearest; of two it is the even one. -/
def halfEven (m k : Nat) : Nat :=
  let rest := m % 2 ^ k
  if 2 * rest < 2 ^ k then m / 2 ^ k
  else if 2 ^ k < 2 * rest then m / 2 ^ k + 1
  else m / 2 ^ k + m / 2 ^ k % 2

theorem halfEven_of_dvd {m k : Nat} (h : 2 ^ k ∣ m) : halfEven m k = m / 2 ^ k := by
  have hpos : 0 < 2 ^ k := Nat.two_pow_pos k
  simp [halfEven, Nat.mod_eq_zero_of_dvd h, hpos]

@[simp] theorem halfEven_zero (m : Nat) : halfEven m 0 = m := by
  rw [halfEven_of_dvd (by simp), Nat.pow_zero, Nat.div_one]

/-- A common power of two does not matter. -/
theorem halfEven_mul (m k j : Nat) : halfEven (m * 2 ^ j) (k + j) = halfEven m k := by
  have hpos : 0 < 2 ^ j := Nat.two_pow_pos j
  have hquotient : m * 2 ^ j / (2 ^ k * 2 ^ j) = m / 2 ^ k := Nat.mul_div_mul_right _ _ hpos
  have hrest : m * 2 ^ j % (2 ^ k * 2 ^ j) = m % 2 ^ k * 2 ^ j := Nat.mul_mod_mul_right _ _ _
  simp only [halfEven, Nat.pow_add, hquotient, hrest, ← Nat.mul_assoc]
  simp only [Nat.mul_lt_mul_right hpos]

theorem div_le_halfEven (m k : Nat) : m / 2 ^ k ≤ halfEven m k := by
  simp only [halfEven]
  split
  · exact Nat.le_refl _
  · split <;> omega

theorem halfEven_le_succ (m k : Nat) : halfEven m k ≤ m / 2 ^ k + 1 := by
  simp only [halfEven]
  split
  · omega
  · split <;> omega

/-- What is at most a multiple of `2 ^ k` is not rounded beyond it. -/
theorem halfEven_le {m k j : Nat} (h : m ≤ j * 2 ^ k) : halfEven m k ≤ j := by
  rcases Nat.lt_or_eq_of_le h with hlt | rfl
  · have hquotient : m / 2 ^ k < j := (Nat.div_lt_iff_lt_mul (Nat.two_pow_pos k)).mpr hlt
    exact (halfEven_le_succ m k).trans hquotient
  · rw [halfEven_of_dvd (Nat.dvd_mul_left _ _), Nat.mul_div_cancel _ (Nat.two_pow_pos k)]

/-- No multiple of `2 ^ k` lies closer. -/
theorem dist_halfEven_le (m k j : Nat) :
    ((halfEven m k * 2 ^ k : Nat) - m : Int).natAbs ≤ ((j * 2 ^ k : Nat) - m : Int).natAbs := by
  have hpos : 0 < 2 ^ k := Nat.two_pow_pos k
  have hsplit : m / 2 ^ k * 2 ^ k + m % 2 ^ k = m := Nat.div_add_mod' m (2 ^ k)
  have hrest : m % 2 ^ k < 2 ^ k := Nat.mod_lt m hpos
  -- the other multiple lies below the quotient or above its successor
  have hother : j * 2 ^ k ≤ m / 2 ^ k * 2 ^ k ∨ m / 2 ^ k * 2 ^ k + 2 ^ k ≤ j * 2 ^ k := by
    rcases Nat.lt_or_ge (m / 2 ^ k) j with hlt | hge
    · right
      rw [← Nat.succ_mul]
      exact Nat.mul_le_mul_right _ hlt
    · exact Or.inl (Nat.mul_le_mul_right _ hge)
  simp only [halfEven]
  split
  · omega
  · split
    · rw [Nat.succ_mul]
      omega
    · rcases Nat.mod_two_eq_zero_or_one (m / 2 ^ k) with hbit | hbit <;> rw [hbit]
      · rw [Nat.add_zero]
        omega
      · rw [Nat.succ_mul]
        omega

/-- The number nearest to `n` that has at most fifty-three binary digits before its zeros. -/
def nearest (n : Nat) : Nat :=
  halfEven n (n.log2 - 52) * 2 ^ (n.log2 - 52)

theorem nearest_of_lt {n : Nat} (h : n < 2 ^ 53) : nearest n = n := by
  have hlog : n.log2 - 52 = 0 := by
    rcases Nat.eq_zero_or_pos n with rfl | hpos
    · rfl
    · have := (Nat.log2_lt (Nat.ne_of_gt hpos)).mpr h
      omega
  rw [nearest, hlog, halfEven_zero, Nat.pow_zero, Nat.mul_one]

theorem nearest_of_le {n : Nat} (h : n ≤ 2 ^ 53) : nearest n = n := by
  rcases Nat.lt_or_eq_of_le h with hlt | rfl
  · exact nearest_of_lt hlt
  · decide

/-- A number is its own nearest exactly if only zeros follow its fifty-three leading digits. -/
theorem nearest_eq_self_iff {n : Nat} : nearest n = n ↔ 2 ^ (n.log2 - 52) ∣ n := by
  constructor
  · intro h
    exact ⟨_, by rw [Nat.mul_comm]; exact h.symm⟩
  · intro h
    rw [nearest, halfEven_of_dvd h, Nat.div_mul_cancel h]

/-- **The nearest.** No number of at most fifty-three binary digits before its zeros lies closer. -/
theorem dist_nearest_le (n : Nat) {a b : Nat} (ha : a ≤ 2 ^ 53) :
    ((nearest n : Nat) - n : Int).natAbs ≤ ((a * 2 ^ b : Nat) - n : Int).natAbs := by
  rcases Nat.lt_or_ge n (2 ^ 53) with hsmall | hlarge
  · rw [nearest_of_lt hsmall, Int.sub_self]
    exact Nat.zero_le _
  · have hne : n ≠ 0 := by omega
    obtain ⟨k, hk⟩ : ∃ k, n.log2 = 53 + k :=
      Nat.exists_eq_add_of_le ((Nat.le_log2 hne).mpr hlarge)
    have hexcess : n.log2 - 52 = k + 1 := by omega
    rw [nearest, hexcess]
    rcases Nat.lt_or_ge b (k + 1) with hfine | hcoarse
    · -- a finer multiple does not reach the leading digit
      have hleading : 2 ^ 52 * 2 ^ (k + 1) ≤ n := by
        rw [← Nat.pow_add, ← Nat.add_assoc, Nat.add_right_comm]
        have hself := Nat.log2_self_le hne
        rwa [hk] at hself
      have hother : a * 2 ^ b ≤ 2 ^ 52 * 2 ^ (k + 1) := by
        have hpow : 2 ^ b ≤ 2 ^ k := Nat.pow_le_pow_right (by decide) (by omega)
        calc a * 2 ^ b ≤ 2 ^ 53 * 2 ^ k := Nat.mul_le_mul ha hpow
          _ = 2 ^ 52 * 2 ^ (k + 1) := by
            rw [← Nat.pow_add, ← Nat.pow_add, ← Nat.add_assoc, Nat.add_right_comm 52 k 1]
      have := dist_halfEven_le n (k + 1) (2 ^ 52)
      omega
    · obtain ⟨c, rfl⟩ := Nat.exists_eq_add_of_le hcoarse
      have hmultiple : a * 2 ^ (k + 1 + c) = a * 2 ^ c * 2 ^ (k + 1) := by
        rw [Nat.pow_add 2 (k + 1) c, Nat.mul_assoc, Nat.mul_comm (2 ^ c)]
      rw [hmultiple]
      exact dist_halfEven_le n (k + 1) (a * 2 ^ c)

/-! A power of two lies on the same side of a number and of its nearest. -/

theorem two_pow_le_nearest {n k : Nat} (h : 2 ^ k ≤ n) : 2 ^ k ≤ nearest n := by
  have := dist_nearest_le n (a := 1) (b := k) (by decide)
  omega

theorem nearest_le_two_pow {n k : Nat} (h : n ≤ 2 ^ k) : nearest n ≤ 2 ^ k := by
  have := dist_nearest_le n (a := 1) (b := k) (by decide)
  omega

theorem nearest_pos {n : Nat} (h : 0 < n) : 0 < nearest n :=
  two_pow_le_nearest (k := 0) h

/-! ## The rounding of the logical model -/

/-- What is left of an exact mantissa that is shifted to the right. -/
theorem repeat_shiftRightOne (m k : Nat) :
    Nat.repeat ExtendedMantissa.shiftRightOne (k + 1) ⟨m, false, false⟩ =
      ⟨m / 2 ^ (k + 1), m / 2 ^ k % 2 != 0, m % 2 ^ k != 0⟩ := by
  induction k with
  | zero => simp [Nat.repeat, ExtendedMantissa.shiftRightOne, Nat.mod_one]
  | succ k ih =>
      rw [Nat.repeat, ih]
      simp only [ExtendedMantissa.shiftRightOne, ExtendedMantissa.mk.injEq]
      refine ⟨?_, trivial, ?_⟩
      · rw [Nat.div_div_eq_div_mul, ← Nat.pow_succ]
      · -- the bits below the round bit
        have hsplit : m % 2 ^ (k + 1) = m % 2 ^ k + 2 ^ k * (m / 2 ^ k % 2) := Nat.mod_mul
        have hpos : 2 ^ k ≠ 0 := Nat.ne_of_gt (Nat.two_pow_pos k)
        rw [Bool.eq_iff_iff]
        simp [hsplit]
        omega

theorem mantissa_shift (m k : Nat) :
    (ExtendedMantissa.ofMantissaAndAccuracy m .exact >>> k).mantissa = m / 2 ^ k := by
  cases k with
  | zero => exact (Nat.div_one m).symm
  | succ k => exact congrArg ExtendedMantissa.mantissa (repeat_shiftRightOne m k)

/-- What the two bits behind a mantissa say about how it is rounded. -/
theorem roundedMantissa_mk (q : Nat) (round sticky : Bool) :
    (⟨q, round, sticky⟩ : ExtendedMantissa).roundedMantissa =
      if round then if sticky then q + 1 else q + q % 2 else q := by
  cases round <;> cases sticky <;> rfl

theorem roundedMantissa_shift (m k : Nat) :
    (ExtendedMantissa.ofMantissaAndAccuracy m .exact >>> k).roundedMantissa = halfEven m k := by
  cases k with
  | zero => exact (halfEven_zero m).symm
  | succ k =>
      have hshift : ExtendedMantissa.ofMantissaAndAccuracy m .exact >>> (k + 1) =
        ⟨m / 2 ^ (k + 1), m / 2 ^ k % 2 != 0, m % 2 ^ k != 0⟩ := repeat_shiftRightOne m k
      have hsplit : m % 2 ^ (k + 1) = m % 2 ^ k + 2 ^ k * (m / 2 ^ k % 2) := Nat.mod_mul
      have hlt : m % 2 ^ k < 2 ^ k := Nat.mod_lt _ (Nat.two_pow_pos k)
      have hpow : 2 ^ (k + 1) = 2 * 2 ^ k := by rw [Nat.pow_succ, Nat.mul_comm]
      rw [hshift, roundedMantissa_mk]
      simp only [halfEven, hsplit, bne_iff_ne]
      -- the round bit tells on which side of the half the rest lies
      rcases Nat.mod_two_eq_zero_or_one (m / 2 ^ k) with hbit | hbit <;> rw [hbit]
      · split_ifs <;> omega
      · split_ifs <;> omega

/-- A number of `53 + k` binary digits is shifted by `k` places. -/
theorem shiftToTargetExponent_of_log2 {m k : Nat} {e : Int} (hlog : m.log2 = 52 + k)
    (hleast : -1074 ≤ e + k) :
    shiftToTargetExponent .binary64 m e .exact =
      (ExtendedMantissa.ofMantissaAndAccuracy m .exact >>> k, e + k) := by
  have htarget : Format.binary64.targetExponent (totalExponent m e) = e + k := by
    simp only [Format.targetExponent, totalExponent, Format.mantissaBits, Format.minExponent, hlog]
    norm_num
    omega
  rw [shiftToTargetExponent, htarget, shiftToExponent]
  simp

theorem log2_eq_of_bounds {m k : Nat} (hlow : 2 ^ k ≤ m) (hhigh : m < 2 ^ (k + 1)) :
    m.log2 = k :=
  (Nat.log2_eq_iff (Nat.ne_of_gt ((Nat.two_pow_pos k).trans_le hlow))).mpr ⟨hlow, hhigh⟩

/-- A number of `53 + k` binary digits is rounded to fifty-three, or carries into one more. -/
theorem roundWithAccuracy_of_log2 (s : Sign) {m k : Nat} {e : Int} (hlog : m.log2 = 52 + k)
    (hleast : -1074 ≤ e + k) :
    2 ^ 52 ≤ halfEven m k ∧
      ((halfEven m k < 2 ^ 53 ∧ ∃ hpos,
          roundWithAccuracy .binary64 s m e .exact = .finite s (halfEven m k) (e + k) hpos) ∨
        (halfEven m k = 2 ^ 53 ∧ ∃ hpos,
          roundWithAccuracy .binary64 s m e .exact = .finite s (2 ^ 52) (e + k + 1) hpos)) := by
  have hm : m ≠ 0 := by
    rintro rfl
    simp at hlog
    omega
  obtain ⟨hlow, hhigh⟩ := (Nat.log2_eq_iff hm).mp hlog
  have hquotient : 2 ^ 52 ≤ m / 2 ^ k := by
    rw [Nat.le_div_iff_mul_le (Nat.two_pow_pos k), ← Nat.pow_add]
    exact hlow
  have hquotient' : m / 2 ^ k < 2 ^ 53 := by
    rw [Nat.div_lt_iff_lt_mul (Nat.two_pow_pos k), ← Nat.pow_add]
    exact hhigh.trans_le (Nat.pow_le_pow_right (by decide) (by omega))
  have hge := hquotient.trans (div_le_halfEven m k)
  have hle : halfEven m k ≤ 2 ^ 53 := (halfEven_le_succ m k).trans hquotient'
  refine ⟨hge, ?_⟩
  have hround : roundWithAccuracy .binary64 s m e .exact =
      let shifted := shiftToTargetExponent .binary64 (halfEven m k) (e + k) .exact
      if h : shifted.1.mantissa = 0 then .zero s
      else .finite s shifted.1.mantissa shifted.2 (Nat.pos_of_ne_zero h) := by
    simp only [roundWithAccuracy, shiftToTargetExponent_of_log2 hlog hleast, roundedMantissa_shift]
  rcases Nat.lt_or_eq_of_le hle with hlt | heq
  · -- nothing is left to shift
    have hshift := shiftToTargetExponent_of_log2 (k := 0) (e := e + k)
      (log2_eq_of_bounds hge hlt) (by omega)
    refine Or.inl ⟨hlt, by omega, ?_⟩
    rw [hround, hshift]
    have hsame : (ExtendedMantissa.ofMantissaAndAccuracy (halfEven m k) .exact >>> 0).mantissa =
        halfEven m k := rfl
    simp only [hsame]
    rw [dif_neg (by omega)]
    simp
  · have hshift := shiftToTargetExponent_of_log2 (m := 2 ^ 53) (k := 1) (e := e + k)
      Nat.log2_two_pow (by omega)
    refine Or.inr ⟨heq, by decide, ?_⟩
    rw [hround, heq, hshift]
    have hhalf : (ExtendedMantissa.ofMantissaAndAccuracy (2 ^ 53) .exact >>> 1).mantissa =
        2 ^ 52 := rfl
    simp only [hhalf]
    rw [dif_neg (by decide)]
    simp

/-! ## Whole numbers in canonical form -/

/-- An unpacked number is `± n`, zero or with exactly fifty-three binary digits. -/
inductive IsWhole (s : Sign) : Nat → UnpackedFloat → Prop where
  | zero : IsWhole s 0 (.zero s)
  | finite {m : Nat} {e : Int} {n : Nat} (hpos : 0 < m) (low : 2 ^ 52 ≤ m) (high : m < 2 ^ 53)
      (least : -1074 ≤ e) (value : m * 2 ^ e.toNat = n * 2 ^ (-e).toNat) :
      IsWhole s n (.finite s m e hpos)

/-- Half the significand, one more in the exponent. -/
theorem value_carry {m n : Nat} {e : Int}
    (h : 2 * m * 2 ^ e.toNat = n * 2 ^ (-e).toNat) :
    m * 2 ^ (e + 1).toNat = n * 2 ^ (-(e + 1)).toNat := by
  rcases Int.lt_or_le e 0 with hneg | hnonneg
  · have hup : e.toNat = 0 ∧ (e + 1).toNat = 0 := by omega
    have hdown : (-e).toNat = (-(e + 1)).toNat + 1 := by omega
    rw [hup.1, hdown, Nat.pow_succ, ← Nat.mul_assoc] at h
    rw [hup.2]
    omega
  · have hup : (e + 1).toNat = e.toNat + 1 := by omega
    have hdown : (-e).toNat = 0 ∧ (-(e + 1)).toNat = 0 := by omega
    rw [hdown.1] at h
    rw [hup, hdown.2, ← h]
    ring

theorem IsWhole.neg {s : Sign} {n : Nat} {u : UnpackedFloat} (h : IsWhole s n u) :
    IsWhole (-s) n u.neg := by
  cases h with
  | zero => exact .zero
  | finite hpos low high least value => exact .finite hpos low high least value

theorem log2_mul_two_pow {n : Nat} (hn : 0 < n) (j : Nat) : (n * 2 ^ j).log2 = n.log2 + j := by
  obtain ⟨hlow, hhigh⟩ := (Nat.log2_eq_iff (Nat.ne_of_gt hn)).mp rfl
  apply log2_eq_of_bounds
  · rw [Nat.pow_add]
    exact Nat.mul_le_mul_right _ hlow
  · rw [Nat.add_right_comm, Nat.pow_add]
    exact Nat.mul_lt_mul_of_pos_right hhigh (Nat.two_pow_pos j)

/-- Of fifty-three digits with zeros behind them nothing is rounded off. -/
theorem roundWithAccuracy_mul_two_pow (s : Sign) {m k : Nat} {e : Int} (hpos : 0 < m)
    (low : 2 ^ 52 ≤ m) (high : m < 2 ^ 53) (hleast : -1074 ≤ e + k) :
    roundWithAccuracy .binary64 s (m * 2 ^ k) e .exact = .finite s m (e + k) hpos := by
  have hlog : (m * 2 ^ k).log2 = 52 + k := by
    rw [log2_mul_two_pow hpos, log2_eq_of_bounds low high]
  have hsame : halfEven (m * 2 ^ k) k = m := by
    have hmul := halfEven_mul m 0 k
    rwa [Nat.zero_add, halfEven_zero] at hmul
  obtain ⟨-, ⟨-, hm, hround⟩ | ⟨hcarry, -⟩⟩ := roundWithAccuracy_of_log2 s hlog hleast
  · simp only [hround, hsame]
  · rw [hsame] at hcarry
    omega

/-- The value of a number that was shifted up by `j` places and then rounded off by `k`. -/
theorem value_shift {n j k : Nat} (hn : 0 < n) (hk : n.log2 + j = 52 + k) :
    halfEven (n * 2 ^ j) k * 2 ^ (-j + k : Int).toNat =
      nearest n * 2 ^ (-(-j + k : Int)).toNat := by
  rcases Nat.le_total 52 n.log2 with hlarge | hsmall
  · -- more places are rounded off than the number was shifted by
    obtain ⟨i, hi⟩ := Nat.exists_eq_add_of_le hlarge
    have hki : k = i + j := by omega
    have hup : (-j + k : Int).toNat = i := by omega
    have hdown : (-(-j + k : Int)).toNat = 0 := by omega
    have hexcess : n.log2 - 52 = i := by omega
    rw [hup, hdown, hki, halfEven_mul, nearest, hexcess, Nat.pow_zero, Nat.mul_one]
  · -- only zeros are rounded off
    obtain ⟨i, hi⟩ := Nat.exists_eq_add_of_le hsmall
    have hji : j = i + k := by omega
    have hup : (-j + k : Int).toNat = 0 := by omega
    have hdown : (-(-j + k : Int)).toNat = i := by omega
    have hfits : n < 2 ^ 53 := (Nat.log2_lt (Nat.ne_of_gt hn)).mp (by omega)
    have hshift := halfEven_mul (n * 2 ^ i) 0 k
    rw [Nat.zero_add, halfEven_zero, Nat.mul_assoc, ← Nat.pow_add] at hshift
    rw [hup, hdown, nearest_of_lt hfits, hji, hshift, Nat.pow_zero, Nat.mul_one]

/-- A whole number that was shifted up as far as needed is rounded to the nearest. -/
theorem isWhole_roundWithAccuracy (s : Sign) {n j : Nat} (hn : 0 < n) (hj : 52 ≤ n.log2 + j) :
    IsWhole s (nearest n) (roundWithAccuracy .binary64 s (n * 2 ^ j) (-j) .exact) := by
  obtain ⟨k, hk⟩ := Nat.exists_eq_add_of_le hj
  have hlog : (n * 2 ^ j).log2 = 52 + k := (log2_mul_two_pow hn j).trans hk
  have hvalue := value_shift hn hk
  obtain ⟨hge, ⟨hlt, hpos, hround⟩ | ⟨hcarry, hpos, hround⟩⟩ :=
    roundWithAccuracy_of_log2 s (e := -j) hlog (by omega)
  · rw [hround]
    exact .finite hpos hge hlt (by omega) hvalue
  · -- the carry leaves the leading digit alone
    rw [hround]
    apply IsWhole.finite hpos (Nat.le_refl _) (by decide) (by omega)
    rw [hcarry, Nat.pow_succ 2 52, Nat.mul_comm (2 ^ 52) 2] at hvalue
    exact value_carry hvalue

/-! ## Packing -/

theorem toNat_one_append (mantissa : BitVec 52) :
    (1#1 ++ mantissa).toNat = 2 ^ 52 + mantissa.toNat := by
  rw [BitVec.toNat_append, ← Nat.shiftLeft_add_eq_or_of_lt mantissa.isLt]
  rfl

theorem pack_of_bounds (s : Sign) {m : Nat} {e : Int} (hpos : 0 < m) (low : 2 ^ 52 ≤ m)
    (high : m < 2 ^ 53) :
    UnpackedFloat.pack .binary64 (.finite s m e hpos) =
      if 972 ≤ e then packedInfinity .binary64 s
      else packComponents .binary64 s (BitVec.ofNat _ (e + 1075).toNat) (BitVec.ofNat _ m) := by
  have hlog : m.log2 + 1 = Format.binary64.mantissaBits := by
    rw [log2_eq_of_bounds low high]
    rfl
  have hbiased : e + Format.binary64.exponentBias +
      Format.binary64.mantissaBitsWithoutImplicit = e + 1075 := by
    have hbias : (Format.binary64.exponentBias : Int) = 1023 := rfl
    have hbits : (Format.binary64.mantissaBitsWithoutImplicit : Int) = 52 := rfl
    rw [hbias, hbits]
    omega
  have hoverflow : 2 ^ 11 ≤ (e + 1075).toNat + 1 ↔ 972 ≤ e := by omega
  simp only [UnpackedFloat.pack, hbiased, hlog, if_true, hoverflow]

/-- A number of fifty-three digits survives packing if its exponent is in the range. -/
theorem unpack_pack_of_bounds (s : Sign) {m : Nat} {e : Int} (hpos : 0 < m) (low : 2 ^ 52 ≤ m)
    (high : m < 2 ^ 53) (least : -1074 ≤ e) (most : e < 972) :
    UnpackedFloat.unpack .binary64 (UnpackedFloat.pack .binary64 (.finite s m e hpos)) =
      .finite s m e hpos := by
  have hexponent : (BitVec.ofNat 11 (e + 1075).toNat).toNat = (e + 1075).toNat := by
    rw [BitVec.toNat_ofNat]
    omega
  have hmantissa : (BitVec.ofNat 52 m).toNat = m - 2 ^ 52 := by
    rw [BitVec.toNat_ofNat]
    omega
  -- the exponent field is neither that of special values nor that of subnormal ones
  have hspecial : BitVec.ofNat 11 (e + 1075).toNat ≠ -1#11 := by
    intro heq
    have hall := congrArg BitVec.toNat heq
    have hones : (-1#11).toNat = 2047 := rfl
    rw [hexponent, hones] at hall
    omega
  have hsubnormal : BitVec.ofNat 11 (e + 1075).toNat ≠ 0#11 := by
    intro heq
    have hall := congrArg BitVec.toNat heq
    rw [hexponent, BitVec.toNat_ofNat] at hall
    omega
  rw [pack_of_bounds s hpos low high, if_neg (by omega), UnpackedFloat.unpack]
  simp only [unpackMantissa_packComponents, unpackExponent_packComponents,
    unpackSign_packComponents, Sign.ofBitVec_toBitVec]
  rw [if_neg hspecial, if_neg hsubnormal]
  simp only [UnpackedFloat.finite.injEq, true_and, toNat_one_append, hmantissa, hexponent]
  have hbias : (Format.binary64.exponentBias : Int) = 1023 := rfl
  have hbits : (Format.binary64.mantissaBitsWithoutImplicit : Int) = 52 := rfl
  rw [hbias, hbits]
  omega

/-- A word with the exponent of subnormal numbers. -/
theorem unpack_subnormal (s : Sign) (mantissa : BitVec 52) :
    UnpackedFloat.unpack .binary64 (packComponents .binary64 s 0#11 mantissa) = .zero s ∨
      ∃ m, ∃ hpos : 0 < m, m < 2 ^ 52 ∧
        UnpackedFloat.unpack .binary64 (packComponents .binary64 s 0#11 mantissa) =
          .finite s m (-1074) hpos := by
  have hspecial : (0#11 : BitVec 11) ≠ -1#11 := by decide
  simp only [UnpackedFloat.unpack, unpackMantissa_packComponents, unpackExponent_packComponents,
    unpackSign_packComponents, Sign.ofBitVec_toBitVec]
  rw [if_neg hspecial, if_pos trivial]
  split
  · exact Or.inl rfl
  · next hne =>
    have hpos : 0 < mantissa.toNat := Nat.pos_of_ne_zero fun h => hne (BitVec.toNat_inj.mp h)
    exact Or.inr ⟨mantissa.toNat, hpos, mantissa.isLt, rfl⟩

/-- A number is kept when it is packed, or taken for an infinity, or brought to the least
exponent. -/
theorem unpack_pack_cases (s : Sign) {m : Nat} (e : Int) (hpos : 0 < m) :
    (Float.Model.pack (.finite s m e hpos)).unpack = .finite s m e hpos ∨
      (972 ≤ e ∧ (Float.Model.pack (.finite s m e hpos)).unpack = .infinity s) ∨
      (Float.Model.pack (.finite s m e hpos)).unpack = .zero s ∨
      ∃ m', ∃ hpos' : 0 < m', m' < 2 ^ 52 ∧
        (Float.Model.pack (.finite s m e hpos)).unpack = .finite s m' (-1074) hpos' := by
  have hmodel : (Float.Model.pack (.finite s m e hpos)).unpack =
    UnpackedFloat.unpack .binary64 (UnpackedFloat.pack .binary64 (.finite s m e hpos)) := rfl
  have hbias : (Format.binary64.exponentBias : Int) = 1023 := rfl
  have hbits : (Format.binary64.mantissaBitsWithoutImplicit : Int) = 52 := rfl
  have hwidth : 2 ^ Format.binary64.exponentBits = 2 ^ 11 := rfl
  have hdigits : Format.binary64.mantissaBits = 53 := rfl
  rw [hmodel]
  by_cases hnormal : m.log2 = 52 ∧ -1074 ≤ e ∧ e < 972
  · obtain ⟨hlog, least, most⟩ := hnormal
    obtain ⟨low, high⟩ := (Nat.log2_eq_iff (Nat.ne_of_gt hpos)).mp hlog
    exact Or.inl (unpack_pack_of_bounds s hpos low high least most)
  · simp only [UnpackedFloat.pack, hbias, hbits, hwidth, hdigits]
    split
    · next hlarge => exact Or.inr (Or.inl ⟨by omega, by cases s <;> rfl⟩)
    · next hsmall =>
      split
      · next hlog =>
        have hzero : (e + 1023 + 52).toNat = 0 := by omega
        rw [hzero]
        exact Or.inr (Or.inr (unpack_subnormal s _))
      · exact Or.inr (Or.inr (unpack_subnormal s _))
/-- A whole number survives packing, or is beyond the range and packed as an infinity. -/
theorem IsWhole.unpack_pack {s : Sign} {n : Nat} {u : UnpackedFloat} (h : IsWhole s n u) :
    (Float.Model.pack u).unpack = u ∨
      ((Float.Model.pack u).unpack = .infinity s ∧ 2 ^ 64 ≤ n) := by
  cases h with
  | zero => exact Or.inl (by cases s <;> rfl)
  | @finite m e _ hpos low high least value =>
      by_cases hlarge : 972 ≤ e
      · have hmodel : (Float.Model.pack (.finite s m e hpos)).unpack =
          UnpackedFloat.unpack .binary64 (UnpackedFloat.pack .binary64 (.finite s m e hpos)) := rfl
        refine Or.inr ⟨?_, ?_⟩
        · rw [hmodel, pack_of_bounds s hpos low high, if_pos hlarge]
          cases s <;> rfl
        · have hdown : (-e).toNat = 0 := by omega
          have hpow : 2 ^ 52 * 2 ^ 12 ≤ m * 2 ^ e.toNat :=
            Nat.mul_le_mul low (Nat.pow_le_pow_right (by decide) (by omega))
          rw [value, hdown, Nat.pow_zero, Nat.mul_one] at hpow
          exact hpow
      · exact Or.inl (unpack_pack_of_bounds s hpos low high least (by omega))

end SkyCatalog.Decimal
