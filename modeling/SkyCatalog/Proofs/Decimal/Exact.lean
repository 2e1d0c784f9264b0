import SkyCatalog.Proofs.Decimal.Whole

/-!
# Finite doubles and their exact values

A finite double and the value found in it determine each other: `ofFloat?_eq_some_iff` says which
word holds which value, `toFloat_of_ofFloat?` and `Canonical.ofFloat?_toFloat` that nothing is lost
either way. A value that is not in the form a double has it in is brought into it by shifting its
significand (`exists_toFloat_eq`).

The magnitudes of doubles follow one another as their words do. Finite doubles are therefore
compared by the `rank` of their values (`lt_iff`, `le_iff`), which leaves questions of order to
integer arithmetic.
-/

namespace SkyCatalog.Decimal

open Float.Model Float.Model.UnpackedFloat

/-! ## Words -/

/-- The number that a word is, by its fields. -/
theorem toNat_packComponents (s : Sign) (exponent : BitVec 11) (mantissa : BitVec 52) :
    (packComponents .binary64 s exponent mantissa).toNat =
      s.toBitVec.toNat * 2 ^ 63 + exponent.toNat * 2 ^ 52 + mantissa.toNat := by
  have hword : (packComponents .binary64 s exponent mantissa).toNat =
    (s.toBitVec ++ exponent ++ mantissa).toNat := rfl
  rw [hword, BitVec.toNat_append, ← Nat.shiftLeft_add_eq_or_of_lt mantissa.isLt,
    BitVec.toNat_append, ← Nat.shiftLeft_add_eq_or_of_lt exponent.isLt, Nat.shiftLeft_eq,
    Nat.shiftLeft_eq]
  omega

/-- A word is put together again from its fields. -/
theorem packComponents_fields {bits : BitVec Format.binary64.numBits} {exponent : BitVec 11}
    {mantissa : BitVec 52} (hexponent : unpackExponent bits = exponent)
    (hmantissa : unpackMantissa bits = mantissa) :
    packComponents .binary64 (Sign.ofBitVec (unpackSign bits)) exponent mantissa = bits := by
  have hsign : ∀ b : BitVec 1, (Sign.ofBitVec b).toBitVec = b := by decide
  have hbits : bits.toNat < 2 ^ 64 := bits.isLt
  subst hexponent hmantissa
  apply BitVec.eq_of_toNat_eq
  rw [toNat_packComponents, hsign, toNat_unpackSign, toNat_unpackExponent, toNat_unpackMantissa]
  simp only [Nat.pow_eq]
  omega

/-- Unpacking a valid word loses nothing. -/
theorem pack_unpack {bits : BitVec Format.binary64.numBits} (hvalid : Format.binary64.Valid bits) :
    UnpackedFloat.pack .binary64 (UnpackedFloat.unpack .binary64 bits) = bits := by
  have hmantissa : (unpackMantissa bits).toNat < 2 ^ 52 := (unpackMantissa bits).isLt
  have hexponent : (unpackExponent bits).toNat < 2 ^ 11 := (unpackExponent bits).isLt
  have hbias : (Format.binary64.exponentBias : Int) = 1023 := rfl
  have hbits : (Format.binary64.mantissaBitsWithoutImplicit : Int) = 52 := rfl
  have hwidths : 2 ^ Format.binary64.exponentBits = 2 ^ 11 ∧
    2 ^ Format.binary64.mantissaBitsWithoutImplicit = 2 ^ 52 := ⟨rfl, rfl⟩
  rw [UnpackedFloat.unpack]
  by_cases hspecial : unpackExponent bits = -1#11
  · rw [if_pos hspecial]
    by_cases hnone : unpackMantissa bits = 0#52
    · rw [if_pos hnone]
      exact packComponents_fields hspecial hnone
    · rw [if_neg hnone]
      exact (hvalid.eq_packedNaN hspecial hnone).symm
  · rw [if_neg hspecial]
    by_cases hsubnormal : unpackExponent bits = 0#11
    · rw [if_pos hsubnormal]
      by_cases hnone : unpackMantissa bits = 0#52
      · rw [dif_pos hnone]
        exact packComponents_fields hsubnormal hnone
      · -- the mantissa is too small for an implicit leading digit
        have hzero : (unpackExponent bits).toNat = 0 := by rw [hsubnormal]; rfl
        have hpos : (unpackMantissa bits).toNat ≠ 0 := fun h => hnone (BitVec.toNat_inj.mp h)
        have hlog : (unpackMantissa bits).toNat.log2 < 52 := (Nat.log2_lt hpos).mpr hmantissa
        have hdigits : ¬(unpackMantissa bits).toNat.log2 + 1 = Format.binary64.mantissaBits := by
          have : Format.binary64.mantissaBits = 53 := rfl
          omega
        have hbiased : ((0 : Int) - (1023 + 52) + 1 + 1023 + 52).toNat = 1 := rfl
        rw [dif_neg hnone]
        simp only [UnpackedFloat.pack, hzero, hbias, hbits, Nat.cast_zero, hbiased]
        rw [if_neg (by decide), if_neg hdigits]
        exact packComponents_fields hsubnormal (by simp)
    · have hones : (unpackExponent bits).toNat ≠ 2047 := fun h => hspecial (BitVec.toNat_inj.mp h)
      rw [if_neg hsubnormal]
      simp only [hbias, hbits, toNat_one_append]
      rw [pack_of_bounds _ (by omega) (by omega) (by omega), if_neg (by omega)]
      refine packComponents_fields ?_ ?_
      · apply BitVec.eq_of_toNat_eq
        rw [BitVec.toNat_ofNat, hwidths.1]
        omega
      · apply BitVec.eq_of_toNat_eq
        rw [BitVec.toNat_ofNat, hwidths.2]
        omega

theorem ofBits_toBits (x : Float) : Float.ofBits x.toBits = x := by
  have hsame := pack_unpack x.toModel.valid
  obtain ⟨⟨bits, hvalid⟩⟩ := x
  have hpack : Float.Model.pack (UnpackedFloat.unpack .binary64 bits.toBitVec) = ⟨bits, hvalid⟩ := by
    simp only [Float.Model.pack, Float.Model.mk.injEq]
    exact congrArg UInt64.ofBitVec hsame
  exact congrArg Float.ofModel hpack

/-- A word without the exponent of special values is that of a double. -/
theorem toBits_ofBits {n : UInt64} (h : n.toNat / 2 ^ 52 % 2 ^ 11 ≠ 2047) :
    (Float.ofBits n).toBits = n := by
  have hvalid : Format.binary64.Valid n.toBitVec := by
    refine ⟨fun hspecial => absurd ?_ h⟩
    have hones := congrArg BitVec.toNat hspecial
    rw [toNat_unpackExponent] at hones
    exact hones
  exact congrArg UInt64.ofBitVec (pack_unpack hvalid)

/-! ## Values -/

namespace Binary

/-- The form in which a double has its value: fifty-three digits, or the least exponent. -/
structure Canonical (b : Binary) : Prop where
  least : -1074 ≤ b.exponent
  most : b.exponent ≤ 971
  high : b.significand < 2 ^ 53
  low : 2 ^ 52 ≤ b.significand ∨ b.exponent = -1074

/-- The place of the magnitude among those of doubles, counted from zero. -/
def place (b : Binary) : Nat :=
  (b.exponent + 1074).toNat * 2 ^ 52 + b.significand

/-- The word that holds the value. -/
def word (b : Binary) : Nat :=
  (if b.negative then 2 ^ 63 else 0) + b.place

/-- The same value with the significand shifted to the left. -/
def shift (b : Binary) (k : Nat) : Binary :=
  ⟨b.negative, b.significand * 2 ^ k, b.exponent - k⟩

@[simp] theorem shift_zero (b : Binary) : b.shift 0 = b := by
  simp [shift]

theorem Canonical.place_lt {b : Binary} (h : b.Canonical) : b.place < 2047 * 2 ^ 52 := by
  obtain ⟨least, most, high, low⟩ := h
  unfold place
  omega

/-- **The value in a word.** -/
theorem ofFloat?_eq_some_iff {x : Float} {b : Binary} :
    ofFloat? x = some b ↔ b.Canonical ∧ x.toBits.toNat = b.word := by
  obtain ⟨negative, m, e⟩ := b
  have hbits : x.toBits.toNat < 2 ^ 64 := x.toBits.toNat_lt
  have hpow : ∀ k, Nat.pow 2 k = 2 ^ k := fun _ => rfl
  simp only [ofFloat?, hpow]
  generalize x.toBits.toNat = bits at hbits
  constructor
  · intro h
    split at h
    · cases h
    · next hfinite =>
      split at h
      · next hsubnormal =>
        obtain ⟨rfl, rfl, rfl⟩ : decide (bits / 2 ^ 63 = 1) = negative ∧ bits % 2 ^ 52 = m ∧
          -1074 = e := by simpa using h
        refine ⟨⟨by simp, by simp, ?_, Or.inr rfl⟩, ?_⟩
        · simp only
          omega
        · simp only [word, place, decide_eq_true_eq]
          split <;> omega
      · next hnormal =>
        obtain ⟨rfl, rfl, rfl⟩ : decide (bits / 2 ^ 63 = 1) = negative ∧
          2 ^ 52 + bits % 2 ^ 52 = m ∧ (bits / 2 ^ 52 % 2 ^ 11 : Nat) - 1075 = e := by
            simpa using h
        constructor
        · constructor <;> simp only <;> omega
        · simp only [word, place, decide_eq_true_eq]
          split <;> omega
  · rintro ⟨⟨least, most, high, low⟩, hword⟩
    simp only [word, place] at least most high low hword
    have hsign : decide (bits / 2 ^ 63 = 1) = negative := by
      cases negative <;> simp at hword ⊢ <;> omega
    rw [if_neg (by split at hword <;> omega), hsign]
    split
    · next hsubnormal =>
      simp only [Option.some.injEq, Binary.mk.injEq, true_and]
      split at hword <;> omega
    · next hnormal =>
      simp only [Option.some.injEq, Binary.mk.injEq, true_and]
      split at hword <;> omega

theorem Canonical.word_eq {b : Binary} (h : b.Canonical) :
    (UInt64.ofNat b.word).toNat = b.word ∧ b.word / 2 ^ 52 % 2 ^ 11 ≠ 2047 := by
  have hplace := h.place_lt
  rw [UInt64.toNat_ofNat']
  unfold word
  split <;> omega

/-- The word that `toFloat` puts together, if it is that of another form of the value. -/
theorem toFloat_eq_of_place {b c : Binary} (hsign : c.negative = b.negative)
    (hplace : c.place =
      if b.significand = 0 then 0
      else if b.exponent + b.significand.log2 < -1022 then
        b.significand * 2 ^ (b.exponent + 1074).toNat
      else
        (b.exponent + b.significand.log2 + 1023).toNat * 2 ^ 52 +
          (b.significand * 2 ^ (52 - b.significand.log2) - 2 ^ 52)) :
    b.toFloat = Float.ofBits (UInt64.ofNat c.word) := by
  rw [word, hsign, hplace]
  rfl

/-- **What `toFloat` gives.** A value is shifted into the form in which a double has it. -/
theorem exists_toFloat_eq {b : Binary} (least : -1074 ≤ b.exponent) (most : b.exponent ≤ 971)
    (high : b.significand < 2 ^ 53) :
    ∃ k, (b.shift k).Canonical ∧ b.toFloat = Float.ofBits (UInt64.ofNat (b.shift k).word) := by
  obtain ⟨negative, m, e⟩ := b
  simp only at least most high
  have hleast : (e - ((e + 1074).toNat : Int) + 1074).toNat = 0 := by omega
  rcases Nat.eq_zero_or_pos m with rfl | hpos
  · refine ⟨(e + 1074).toNat, ?_, toFloat_eq_of_place rfl ?_⟩
    · constructor <;> simp only [shift] <;> omega
    · simp only [place, shift, hleast, Nat.zero_mul, if_true]
  · obtain ⟨hlow, hhigh⟩ := (Nat.log2_eq_iff (Nat.ne_of_gt hpos)).mp rfl
    have hlog : m.log2 ≤ 52 := Nat.lt_succ_iff.mp ((Nat.log2_lt (Nat.ne_of_gt hpos)).mpr high)
    by_cases hsubnormal : e + m.log2 < -1022
    · -- subnormal: the exponent becomes the least one
      have hfits : m * 2 ^ (e + 1074).toNat < 2 ^ 52 := by
        calc m * 2 ^ (e + 1074).toNat < 2 ^ (m.log2 + 1) * 2 ^ (e + 1074).toNat :=
              Nat.mul_lt_mul_of_pos_right hhigh (Nat.two_pow_pos _)
          _ = 2 ^ (m.log2 + 1 + (e + 1074).toNat) := (Nat.pow_add _ _ _).symm
          _ ≤ 2 ^ 52 := Nat.pow_le_pow_right (by decide) (by omega)
      refine ⟨(e + 1074).toNat, ?_, toFloat_eq_of_place rfl ?_⟩
      · constructor <;> simp only [shift] <;> omega
      · simp only [place, shift]
        rw [if_neg (Nat.ne_of_gt hpos), if_pos hsubnormal, hleast, Nat.zero_mul, Nat.zero_add]
    · -- the leading digit becomes the implicit one
      have hleading : 2 ^ 52 ≤ m * 2 ^ (52 - m.log2) := by
        calc 2 ^ 52 = 2 ^ m.log2 * 2 ^ (52 - m.log2) := by
              rw [← Nat.pow_add, Nat.add_sub_cancel' hlog]
          _ ≤ m * 2 ^ (52 - m.log2) := Nat.mul_le_mul_right _ hlow
      have hfits : m * 2 ^ (52 - m.log2) < 2 ^ 53 := by
        calc m * 2 ^ (52 - m.log2) < 2 ^ (m.log2 + 1) * 2 ^ (52 - m.log2) :=
              Nat.mul_lt_mul_of_pos_right hhigh (Nat.two_pow_pos _)
          _ = 2 ^ 53 := by rw [← Nat.pow_add, Nat.add_right_comm, Nat.add_sub_cancel' hlog]
      refine ⟨52 - m.log2, ?_, toFloat_eq_of_place rfl ?_⟩
      · constructor <;> simp only [shift] <;> omega
      · simp only [place, shift]
        rw [if_neg (Nat.ne_of_gt hpos), if_neg hsubnormal]
        omega

/-- Nothing is shifted where the value has the form of a double already. -/
theorem Canonical.toFloat_eq {b : Binary} (h : b.Canonical) :
    b.toFloat = Float.ofBits (UInt64.ofNat b.word) := by
  obtain ⟨k, hk, heq⟩ := exists_toFloat_eq h.least h.most h.high
  obtain ⟨least, most, high, low⟩ := h
  rcases Nat.eq_zero_or_pos k with rfl | hpos
  · rwa [shift_zero] at heq
  · have hleast := hk.least
    have hhigh := hk.high
    simp only [shift] at hleast hhigh
    rcases low with hlarge | hexponent
    · have hdouble : 2 ^ 52 * 2 ^ 1 ≤ b.significand * 2 ^ k :=
        Nat.mul_le_mul hlarge (Nat.pow_le_pow_right (by decide) hpos)
      omega
    · omega

/-- The value of a double that was made from it. -/
theorem Canonical.ofFloat?_toFloat {b : Binary} (h : b.Canonical) :
    ofFloat? b.toFloat = some b := by
  obtain ⟨hword, hfinite⟩ := h.word_eq
  refine ofFloat?_eq_some_iff.mpr ⟨h, ?_⟩
  rw [h.toFloat_eq, toBits_ofBits (by rwa [hword]), hword]

/-- The double that has a value. -/
theorem toFloat_of_ofFloat? {x : Float} {b : Binary} (h : ofFloat? x = some b) : b.toFloat = x := by
  obtain ⟨hcanonical, hword⟩ := ofFloat?_eq_some_iff.mp h
  rw [hcanonical.toFloat_eq, ← hword, UInt64.ofNat_toNat, ofBits_toBits]

/-- The value of any double that is made without rounding. -/
theorem ofFloat?_toFloat {b : Binary} (least : -1074 ≤ b.exponent) (most : b.exponent ≤ 971)
    (high : b.significand < 2 ^ 53) :
    ∃ k, (b.shift k).Canonical ∧ ofFloat? b.toFloat = some (b.shift k) := by
  obtain ⟨k, hk, heq⟩ := exists_toFloat_eq least most high
  exact ⟨k, hk, by rw [heq, ← hk.toFloat_eq, hk.ofFloat?_toFloat]⟩

end Binary

/-- What a finite double is unpacked to, and its value. -/
inductive HasValue : UnpackedFloat → Binary → Prop where
  | zero (s : Sign) : HasValue (.zero s) ⟨isMinus s, 0, -1074⟩
  | finite (s : Sign) {m : Nat} {e : Int} (hpos : 0 < m) :
      HasValue (.finite s m e hpos) ⟨isMinus s, m, e⟩

theorem hasValue_iff {x : Float} {b : Binary} :
    HasValue x.toModel.unpack b ↔ Binary.ofFloat? x = some b := by
  rw [ofFloat?_eq]
  constructor
  · intro h
    generalize x.toModel.unpack = u at h
    cases h <;> rfl
  · intro h
    split at h
    · next hunpack =>
      cases h
      exact hunpack ▸ .finite _ _
    · next hunpack =>
      cases h
      exact hunpack ▸ .zero _
    · cases h

/-- The finite doubles are those that have a value. -/
theorem isFinite_iff {x : Float} : x.isFinite = true ↔ ∃ b, Binary.ofFloat? x = some b := by
  have hfinite : x.isFinite = x.toModel.unpack.isFinite := rfl
  rw [hfinite, ofFloat?_eq]
  cases x.toModel.unpack <;> simp [UnpackedFloat.isFinite]

/-! ## Order -/

namespace Binary

/-- The place of the value, counted down below zero; both zeros have the place zero. -/
def rank (b : Binary) : Int :=
  if b.negative then -(b.place : Int) else b.place

theorem rank_of_negative {b : Binary} (h : b.negative = true) : b.rank = -(b.place : Int) :=
  if_pos h

theorem rank_of_positive {b : Binary} (h : b.negative = false) : b.rank = b.place :=
  if_neg (by simp [h])

@[simp] theorem rank_zero (negative : Bool) : (⟨negative, 0, -1074⟩ : Binary).rank = 0 := by
  cases negative <;> rfl

theorem place_pos (negative : Bool) {m : Nat} (e : Int) (h : 0 < m) :
    0 < (⟨negative, m, e⟩ : Binary).place :=
  Nat.lt_of_lt_of_le h (Nat.le_add_left _ _)

/-- A greater exponent is a greater place, because there is no digit to spare. -/
theorem Canonical.place_lt_of_exponent_lt {a b : Binary} (ha : a.Canonical) (hb : b.Canonical)
    (h : a.exponent < b.exponent) : a.place < b.place := by
  obtain ⟨aleast, -, ahigh, -⟩ := ha
  obtain ⟨-, -, -, blow⟩ := hb
  unfold place
  omega

/-- Comparing exponents first and then significands is comparing places. -/
theorem Canonical.compare_place {a b : Binary} (ha : a.Canonical) (hb : b.Canonical) :
    (compare a.exponent b.exponent).then (compare a.significand b.significand) =
      compare a.place b.place := by
  rcases Int.lt_trichotomy a.exponent b.exponent with hlt | heq | hgt
  · rw [Int.compare_eq_lt.mpr hlt, Nat.compare_eq_lt.mpr (ha.place_lt_of_exponent_lt hb hlt)]
    rfl
  · rw [Int.compare_eq_eq.mpr heq, place, place, heq]
    simp only [Ordering.eq_then, Nat.compare_eq_ite_lt, Nat.add_lt_add_iff_left]
  · rw [Int.compare_eq_gt.mpr hgt, Nat.compare_eq_gt.mpr (hb.place_lt_of_exponent_lt ha hgt)]
    rfl

end Binary

theorem compare_natCast (p q : Nat) : compare (p : Int) q = compare p q := by
  simp only [Int.compare_eq_ite_lt, Nat.compare_eq_ite_lt, Nat.cast_lt]

theorem compare_neg_natCast (p q : Nat) : compare (-p : Int) (-q) = (compare p q).swap := by
  rw [Nat.compare_swap, ← compare_natCast]
  simp only [Int.compare_eq_ite_lt, neg_lt_neg_iff]

/-- **Order.** What two finite doubles are unpacked to is compared by the ranks of their values. -/
theorem HasValue.compare_eq {u v : UnpackedFloat} {a b : Binary} (hu : HasValue u a)
    (hv : HasValue v b) (ha : a.Canonical) (hb : b.Canonical) :
    u.compare v = some (compare a.rank b.rank) := by
  have hplace := ha.compare_place hb
  cases hu with
  | zero s =>
      rw [Binary.rank_zero]
      cases hv with
      | zero t => rw [Binary.rank_zero]; rfl
      | @finite t _ e hpos =>
          have hright := Binary.place_pos (isMinus t) e hpos
          cases t with
          | negative =>
              rw [Binary.rank_of_negative rfl, Int.compare_eq_gt.mpr (by omega)]
              rfl
          | positive =>
              rw [Binary.rank_of_positive rfl, Int.compare_eq_lt.mpr (by omega)]
              rfl
  | @finite s _ e hpos =>
      have hleft := Binary.place_pos (isMinus s) e hpos
      cases hv with
      | zero t =>
          rw [Binary.rank_zero]
          cases s with
          | negative =>
              rw [Binary.rank_of_negative rfl, Int.compare_eq_lt.mpr (by omega)]
              rfl
          | positive =>
              rw [Binary.rank_of_positive rfl, Int.compare_eq_gt.mpr (by omega)]
              rfl
      | @finite t _ f hpos' =>
          have hright := Binary.place_pos (isMinus t) f hpos'
          cases s <;> cases t
          · rw [Binary.rank_of_negative rfl, Binary.rank_of_negative rfl, compare_neg_natCast,
              ← hplace]
            rfl
          · rw [Binary.rank_of_negative rfl, Binary.rank_of_positive rfl,
              Int.compare_eq_lt.mpr (by omega)]
            rfl
          · rw [Binary.rank_of_positive rfl, Binary.rank_of_negative rfl,
              Int.compare_eq_gt.mpr (by omega)]
            rfl
          · rw [Binary.rank_of_positive rfl, Binary.rank_of_positive rfl, compare_natCast,
              ← hplace]
            rfl

variable {x y : Float} {a b : Binary}

theorem compare_eq (ha : Binary.ofFloat? x = some a) (hb : Binary.ofFloat? y = some b) :
    x.toModel.unpack.compare y.toModel.unpack = some (compare a.rank b.rank) :=
  (hasValue_iff.mpr ha).compare_eq (hasValue_iff.mpr hb)
    (Binary.ofFloat?_eq_some_iff.mp ha).1 (Binary.ofFloat?_eq_some_iff.mp hb).1

theorem lt_def : x < y ↔ (x.toModel.unpack.compare y.toModel.unpack == some .lt) = true :=
  decide_eq_true_iff

theorem le_def : x ≤ y ↔ (x.toModel.unpack.compare y.toModel.unpack).any (·.isLE) = true :=
  decide_eq_true_iff

theorem lt_iff (ha : Binary.ofFloat? x = some a) (hb : Binary.ofFloat? y = some b) :
    x < y ↔ a.rank < b.rank := by
  rw [lt_def, compare_eq ha hb, ← Int.compare_eq_lt]
  simp

theorem le_iff (ha : Binary.ofFloat? x = some a) (hb : Binary.ofFloat? y = some b) :
    x ≤ y ↔ a.rank ≤ b.rank := by
  rw [le_def, compare_eq ha hb, ← Int.compare_ne_gt]
  simp [Ordering.isLE_iff_ne_gt]

/-- Of two finite doubles one is less or the other is not greater. -/
theorem not_lt_iff (hx : x.isFinite = true) (hy : y.isFinite = true) : ¬x < y ↔ y ≤ x := by
  obtain ⟨a, ha⟩ := isFinite_iff.mp hx
  obtain ⟨b, hb⟩ := isFinite_iff.mp hy
  rw [lt_iff ha hb, le_iff hb ha, Int.not_lt]

theorem not_le_iff (hx : x.isFinite = true) (hy : y.isFinite = true) : ¬x ≤ y ↔ y < x := by
  rw [← not_lt_iff hy hx, not_not]

end SkyCatalog.Decimal
