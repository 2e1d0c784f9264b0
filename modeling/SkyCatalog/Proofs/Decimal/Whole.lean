import SkyCatalog.Proofs.Decimal.Rounding

/-!
# Doubles that are whole numbers

A double is unpacked by the logical model and by `Binary.ofFloat?`; both give the same sign,
significand and exponent (`ofFloat?_eq`). A double that `Represents` the whole number `± n` is
therefore found to be that integer (`Represents.integer?`).

A natural number becomes the double nearest to it, or an infinity if it is beyond the range
(`stands_ofNat`): small numbers by an exact conversion, larger ones by rounding. The same holds
of integers, with their sign (`standsFor_ofInt`).
-/

namespace SkyCatalog.Decimal

open Float.Model Float.Model.UnpackedFloat

/-- Is the sign a minus? -/
def isMinus : Sign → Bool
  | .negative => true
  | .positive => false

theorem toNat_unpackExponent (bits : BitVec Format.binary64.numBits) :
    (unpackExponent bits).toNat = bits.toNat / Nat.pow 2 52 % Nat.pow 2 11 := by
  simp [unpackExponent, BitVec.extractLsb_toNat, Nat.shiftRight_eq_div_pow]

theorem toNat_unpackMantissa (bits : BitVec Format.binary64.numBits) :
    (unpackMantissa bits).toNat = bits.toNat % Nat.pow 2 52 := by
  simp [unpackMantissa, BitVec.extractLsb_toNat]

theorem toNat_unpackSign (bits : BitVec Format.binary64.numBits) :
    (unpackSign bits).toNat = bits.toNat / Nat.pow 2 63 := by
  have hlt : bits.toNat < 2 ^ 64 := bits.isLt
  simp [unpackSign, BitVec.extractLsb_toNat, Nat.shiftRight_eq_div_pow]
  omega

theorem isMinus_unpackSign (bits : BitVec Format.binary64.numBits) :
    isMinus (Sign.ofBitVec (unpackSign bits)) = decide (bits.toNat / Nat.pow 2 63 = 1) := by
  rw [← toNat_unpackSign]
  generalize unpackSign bits = sign
  revert sign
  decide

/-- Reading the bits of a double is unpacking it. -/
theorem ofFloat?_eq (x : Float) :
    Binary.ofFloat? x = match x.toModel.unpack with
      | .finite s m e _ => some ⟨isMinus s, m, e⟩
      | .zero s => some ⟨isMinus s, 0, -1074⟩
      | _ => none := by
  obtain ⟨bits, hbits, hunpack⟩ : ∃ bits : BitVec Format.binary64.numBits,
      x.toBits.toNat = bits.toNat ∧ x.toModel.unpack = UnpackedFloat.unpack .binary64 bits :=
    ⟨x.toModel.toBits.toBitVec, rfl, rfl⟩
  rw [hunpack]
  have hsign := isMinus_unpackSign bits
  have hexponent := toNat_unpackExponent bits
  have hmantissa := toNat_unpackMantissa bits
  simp only [Binary.ofFloat?, hbits, UnpackedFloat.unpack, ← hsign, ← hexponent, ← hmantissa]
  by_cases hspecial : unpackExponent bits = -1#11
  · have hones : (unpackExponent bits).toNat = 2047 := by
      rw [hspecial]
      rfl
    rw [if_pos hones, if_pos hspecial]
    by_cases hnone : unpackMantissa bits = 0#52
    · simp only [if_pos hnone]
    · simp only [if_neg hnone]
  · have hones : (unpackExponent bits).toNat ≠ 2047 := fun h =>
      hspecial (BitVec.toNat_inj.mp h)
    have hbias : (Format.binary64.exponentBias : Int) = 1023 := rfl
    rw [if_neg hones, if_neg hspecial]
    by_cases hsubnormal : unpackExponent bits = 0#11
    · have hzero : (unpackExponent bits).toNat = 0 := by
        rw [hsubnormal]
        rfl
      rw [if_pos hzero, if_pos hsubnormal]
      by_cases hnone : unpackMantissa bits = 0#52
      · have hnone' : (unpackMantissa bits).toNat = 0 := by
          rw [hnone]
          rfl
        simp only [dif_pos hnone, hnone']
      · simp only [dif_neg hnone, hzero, hbias]
        rfl
    · have hzero : (unpackExponent bits).toNat ≠ 0 := fun h =>
        hsubnormal (BitVec.toNat_inj.mp h)
      rw [if_neg hzero, if_neg hsubnormal]
      simp only [toNat_one_append, hbias]
      rfl

/-! ## Whole doubles -/

/-- A double is the whole number `± n`. -/
def Represents (x : Float) (s : Sign) (n : Nat) : Prop :=
  IsWhole s n x.toModel.unpack

theorem toInt?_of_value {m n : Nat} {e : Int} (negative : Bool)
    (value : m * 2 ^ e.toNat = n * 2 ^ (-e).toNat) :
    Binary.toInt? ⟨negative, m, e⟩ = some (if negative then -(n : Int) else n) := by
  by_cases hnonneg : 0 ≤ e
  · have hdown : (-e).toNat = 0 := by omega
    rw [hdown, Nat.pow_zero, Nat.mul_one] at value
    have hvalue : m * Nat.pow 2 e.toNat = n := value
    simp only [Binary.toInt?, hnonneg, if_true, hvalue]
  · have hup : e.toNat = 0 := by omega
    rw [hup, Nat.pow_zero, Nat.mul_one] at value
    have hpos : 0 < Nat.pow 2 (-e).toNat := Nat.two_pow_pos _
    have hrest : m % Nat.pow 2 (-e).toNat = 0 := by
      rw [value]
      exact Nat.mul_mod_left _ _
    have hquotient : m / Nat.pow 2 (-e).toNat = n := by
      rw [value]
      exact Nat.mul_div_cancel _ hpos
    simp only [Binary.toInt?, hnonneg, if_false, hrest, if_true, hquotient]

theorem Represents.integer? {x : Float} {s : Sign} {n : Nat} (h : Represents x s n) :
    integer? x = some (s.apply n) := by
  have happly : ∀ k : Nat, (if isMinus s then -(k : Int) else k) = s.apply k := by
    intro k
    cases s <;> rfl
  rw [Decimal.integer?, ofFloat?_eq]
  unfold Represents at h
  generalize x.toModel.unpack = u at h
  cases h with
  | zero =>
      rw [← happly]
      exact toInt?_of_value (m := 0) (n := 0) (e := -1074) (isMinus s)
        (by rw [Nat.zero_mul, Nat.zero_mul])
  | finite hpos low high least value =>
      rw [← happly]
      exact toInt?_of_value (isMinus s) value

theorem Represents.isFinite {x : Float} {s : Sign} {n : Nat} (h : Represents x s n) :
    x.isFinite = true := by
  have hfinite : x.isFinite = x.toModel.unpack.isFinite := rfl
  rw [hfinite]
  unfold Represents at h
  generalize x.toModel.unpack = u at h
  cases h <;> rfl

/-- A double that is `± n`, or the infinity that stands for a number beyond the range. -/
def Stands (x : Float) (s : Sign) (n : Nat) : Prop :=
  Represents x s n ∨ x.toModel.unpack = .infinity s ∧ 2 ^ 64 ≤ n

theorem stands_pack {s : Sign} {n : Nat} {u : UnpackedFloat} (h : IsWhole s n u) :
    Stands (.ofModel (.pack u)) s n := by
  rcases h.unpack_pack with heq | hinfinite
  · left
    unfold Represents
    rw [heq]
    exact h
  · exact Or.inr hinfinite

theorem Stands.neg {x : Float} {s : Sign} {n : Nat} (h : Stands x s n) : Stands (-x) (-s) n := by
  rcases h with hwhole | ⟨hinfinite, hlarge⟩
  · exact stands_pack hwhole.neg
  · refine Or.inr ⟨?_, hlarge⟩
    have hneg : (-x).toModel = Float.Model.pack x.toModel.unpack.neg := rfl
    rw [hneg, hinfinite]
    cases s <;> rfl

/-- Doubles multiply by one without rounding. -/
theorem IsWhole.mul_one {s : Sign} {n : Nat} {u : UnpackedFloat} (h : IsWhole s n u)
    (hpos : 0 < 2 ^ 52) :
    UnpackedFloat.mul .binary64 u (.finite .positive (2 ^ 52) (-52) hpos) = u := by
  have hsign : s * .positive = s := by cases s <;> rfl
  cases h with
  | zero => simp only [UnpackedFloat.mul, hsign]
  | @finite m e _ hm low high least value =>
      have hround := roundWithAccuracy_mul_two_pow s (e := e + -52) hm low high (k := 52) (by omega)
      simp only [UnpackedFloat.mul, hsign, hround]
      congr 1
      omega

/-- The rounding of a natural number that is shifted up to fifty-three digits first. -/
theorem isWhole_ofInt {n : Nat} (hn : 0 < n) (hsmall : n < 2 ^ 53) :
    IsWhole .positive n (UnpackedFloat.ofInt .binary64 n) := by
  have hlog : n.log2 < 53 := (Nat.log2_lt (Nat.ne_of_gt hn)).mpr hsmall
  have hcompare : compare (n : Int) 0 = .gt := Int.compare_eq_gt.mpr (by omega)
  have htarget : Format.binary64.targetExponent (totalExponent n 0) = (n.log2 : Int) - 52 := by
    simp only [Format.targetExponent, totalExponent, Format.mantissaBits, Format.minExponent]
    norm_num
    omega
  have hshift : (-((n.log2 : Int) - 52)).toNat = 52 - n.log2 := by omega
  have hwhole := isWhole_roundWithAccuracy .positive (j := 52 - n.log2) hn (by omega)
  rw [nearest_of_lt hsmall] at hwhole
  simp only [UnpackedFloat.ofInt, UnpackedFloat.normalize, hcompare, UnpackedFloat.round,
    Int.toNat_natCast, htarget, decreaseExponent, Int.zero_sub, hshift, Nat.shiftLeft_eq]
  exact hwhole

/-- Below `2 ^ 53` a natural number is converted exactly and then multiplied by one. -/
theorem ofNat_of_lt {n : Nat} (hn : 0 < n) (hsmall : n < 2 ^ 53) :
    Float.ofNat n = .ofModel (.pack (UnpackedFloat.ofInt .binary64 n)) := by
  have hone : (Float.ofBits 0x3FF0000000000000).toModel.unpack =
    .finite .positive (2 ^ 52) (-52) (by decide) := rfl
  have hsame : n.toUInt64.toNat = n := by
    rw [Nat.toUInt64_eq, UInt64.toNat_ofNat']
    omega
  have hwhole := isWhole_ofInt hn hsmall
  have hfactor : n.toUInt64.toFloat.toModel.unpack = UnpackedFloat.ofInt .binary64 n := by
    rcases hwhole.unpack_pack with heq | ⟨-, hlarge⟩
    · rw [← heq, UInt64.toFloat, Float.Model.ofUInt64, UnpackedFloat.ofUInt64,
        UnpackedFloat.ofNat, hsame]
    · omega
  have hproduct : Float.ofNat n =
      .ofModel (.pack (UnpackedFloat.mul .binary64 n.toUInt64.toFloat.toModel.unpack
        (Float.ofBits 0x3FF0000000000000).toModel.unpack)) := by
    have hunfold : Float.ofNat n = Float.ofScientific n false 0 := rfl
    rw [hunfold, Float.ofScientific, dif_pos ⟨hsmall, by decide⟩]
    rfl
  rw [hproduct, hfactor, hone, hwhole.mul_one]

/-- From `2 ^ 53` on it is shifted up by fifty-three places and rounded. -/
theorem ofNat_of_le {n : Nat} (hlarge : 2 ^ 53 ≤ n) : Float.ofNat n =
    .ofModel (.pack (roundWithAccuracy .binary64 .positive (n * 2 ^ 53) (-53) .exact)) := by
  have hunfold : Float.ofNat n = Float.ofScientific n false 0 := rfl
  have hrange : ¬(0 : Int) > 2 ^ Format.binary64.exponentBits := by decide
  have hrange' : ¬(0 : Int) < -((2 ^ Format.binary64.exponentBits : Int) + n.log2) := by
    have hbits : (2 ^ Format.binary64.exponentBits : Int) = 2048 := rfl
    omega
  have hne : n ≠ 0 := by omega
  have hbits : Format.binary64.mantissaBits = 53 := rfl
  have hunit : 10 ^ (0 : Int).toNat = 1 := rfl
  have hsign : Sign.positive * Sign.positive = Sign.positive := rfl
  rw [hunfold, Float.ofScientific, dif_neg fun h => Nat.not_lt.mpr hlarge h.1]
  simp only [Bool.false_eq_true, if_false, Float.Model.ofScientific, Int.ofNat_eq_natCast,
    UnpackedFloat.ofScientific, Nat.cast_zero]
  rw [dif_neg hne, if_neg hrange, if_neg hrange', if_pos (by decide)]
  simp only [UnpackedFloat.mul, Nat.shiftLeft_eq, hbits, hunit, hsign, Nat.mul_one,
    Int.add_zero]
  rfl

/-- A natural number is rounded to the nearest and then packed. -/
theorem exists_ofNat_eq (n : Nat) :
    ∃ u, IsWhole .positive (nearest n) u ∧ Float.ofNat n = .ofModel (.pack u) := by
  rcases Nat.eq_zero_or_pos n with rfl | hn
  · exact ⟨_, .zero, rfl⟩
  · rcases Nat.lt_or_ge n (2 ^ 53) with hsmall | hlarge
    · refine ⟨_, ?_, ofNat_of_lt hn hsmall⟩
      rw [nearest_of_lt hsmall]
      exact isWhole_ofInt hn hsmall
    · have hlog : 53 ≤ n.log2 := (Nat.le_log2 (Nat.ne_of_gt hn)).mpr hlarge
      exact ⟨_, isWhole_roundWithAccuracy .positive (j := 53) hn (by omega), ofNat_of_le hlarge⟩

/-- **A natural number becomes the double nearest to it.** -/
theorem stands_ofNat (n : Nat) : Stands (Float.ofNat n) .positive (nearest n) := by
  obtain ⟨u, hwhole, heq⟩ := exists_ofNat_eq n
  rw [heq]
  exact stands_pack hwhole

/-! ## Doubles in place of integers -/

/-- A double is what an integer becomes: the nearest, or an infinity beyond the range. -/
def StandsFor (x : Float) (n : Int) : Prop :=
  ∃ s : Sign, s.apply n.natAbs = n ∧ Stands x s (nearest n.natAbs)

theorem standsFor_ofInt (n : Int) : StandsFor (Float.ofInt n) n := by
  cases n with
  | ofNat k => exact ⟨.positive, rfl, stands_ofNat k⟩
  | negSucc k => exact ⟨.negative, rfl, (stands_ofNat (k + 1)).neg⟩

/-- The integer that a double is that stands for another: the nearest, with the same sign. -/
theorem StandsFor.cases {x : Float} {n : Int} (h : StandsFor x n) :
    (x.isFinite = true ∧ ∃ m : Int, integer? x = some m ∧ m.natAbs = nearest n.natAbs ∧
      (0 < m ↔ 0 < n) ∧ (m.natAbs = n.natAbs → m = n)) ∨
    (x.isFinite = false ∧ 2 ^ 64 ≤ nearest n.natAbs) := by
  obtain ⟨s, hs, hwhole | ⟨hinfinite, hlarge⟩⟩ := h
  · refine Or.inl ⟨hwhole.isFinite, _, hwhole.integer?, ?_, ?_, ?_⟩
    · cases s with
      | positive => exact Int.natAbs_natCast _
      | negative => exact Int.natAbs_neg _
    · have hpos : 0 < n.natAbs → 0 < nearest n.natAbs := nearest_pos
      have hzero : n.natAbs = 0 → nearest n.natAbs = 0 := fun hn => by rw [hn]; rfl
      cases s <;> simp only [Sign.apply] at hs ⊢ <;> omega
    · cases s <;> simp only [Sign.apply] at hs ⊢ <;> omega
  · refine Or.inr ⟨?_, hlarge⟩
    have hfinite : x.isFinite = x.toModel.unpack.isFinite := rfl
    rw [hfinite, hinfinite]
    rfl

/-- An integer that is its own nearest is kept. -/
theorem StandsFor.integer?_eq {x : Float} {n : Int} (h : StandsFor x n)
    (hexact : nearest n.natAbs = n.natAbs) (hn : n.natAbs < 2 ^ 64) : integer? x = some n := by
  rcases h.cases with ⟨-, m, hm, hnearest, -, hsame⟩ | ⟨-, hlarge⟩
  · rw [hm, hsame (hnearest.trans hexact)]
  · omega

end SkyCatalog.Decimal
