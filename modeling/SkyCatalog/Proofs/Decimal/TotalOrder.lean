import SkyCatalog.Proofs.Decimal.Exact

/-!
# The total order of doubles

All doubles but NaN stand on one line, the infinities at its ends (`HasLevel`), and are compared
by their places on it (`le_iff_level`). The total order takes apart what stands at one place,
which are the two zeros alone, and puts NaN behind everything. What comes first in it is therefore
within every bound that anything behind it is within (`le_of_totalKey_le`), and the least of a
list is within a bound exactly if some member of the list is (`exists_least?_le_iff`).
-/

namespace SkyCatalog.Decimal

open Float.Model Float.Model.UnpackedFloat

/-! ## The line -/

/-- The number of finite doubles of a sign, which is the place of the infinity behind them. -/
def infinitePlace : Int := 2047 * 2 ^ 52

/-- What a double that is not NaN is unpacked to, and its place on the line. -/
inductive HasLevel : UnpackedFloat → Int → Prop where
  | below : HasLevel (.infinity .negative) (-infinitePlace)
  | above : HasLevel (.infinity .positive) infinitePlace
  | value {u : UnpackedFloat} {b : Binary} (hvalue : HasValue u b) (hb : b.Canonical) :
      HasLevel u b.rank

/-- Finite doubles stand between the infinities. -/
theorem Binary.Canonical.rank_bounds {b : Binary} (h : b.Canonical) :
    -infinitePlace < b.rank ∧ b.rank < infinitePlace := by
  have hplace := h.place_lt
  unfold rank infinitePlace
  split <;> omega

theorem HasLevel.bounds {u : UnpackedFloat} {a : Int} (h : HasLevel u a) :
    -infinitePlace ≤ a ∧ a ≤ infinitePlace := by
  cases h with
  | below | above => decide
  | value _ hb => exact ⟨hb.rank_bounds.1.le, hb.rank_bounds.2.le⟩

/-- **Order.** Doubles are compared by their places. -/
theorem HasLevel.compare_eq {u v : UnpackedFloat} {a b : Int} (hu : HasLevel u a)
    (hv : HasLevel v b) : u.compare v = some (compare a b) := by
  cases hu with
  | below =>
      cases hv with
      | below | above => decide
      | value hvalue hb =>
          rw [Int.compare_eq_lt.mpr hb.rank_bounds.1]
          cases hvalue <;> rfl
  | above =>
      cases hv with
      | below | above => decide
      | value hvalue hb =>
          rw [Int.compare_eq_gt.mpr hb.rank_bounds.2]
          cases hvalue <;> rfl
  | value hvalue ha =>
      cases hv with
      | below =>
          rw [Int.compare_eq_gt.mpr ha.rank_bounds.1]
          cases hvalue with
          | zero => rfl
          | finite s => cases s <;> rfl
      | above =>
          rw [Int.compare_eq_lt.mpr ha.rank_bounds.2]
          cases hvalue with
          | zero => rfl
          | finite s => cases s <;> rfl
      | value hvalue' hb => exact hvalue.compare_eq hvalue' ha hb

variable {x y z : Float} {a b : Int}

/-- A double is NaN or has a place. -/
theorem eq_notANumber_or_level (x : Float) :
    x.toModel.unpack = .notANumber ∨ ∃ a, HasLevel x.toModel.unpack a := by
  have hfinite : ∀ b, HasValue x.toModel.unpack b → b.Canonical := fun b hb =>
    (Binary.ofFloat?_eq_some_iff.mp (hasValue_iff.mp hb)).1
  generalize x.toModel.unpack = u at hfinite
  cases u with
  | notANumber => exact .inl rfl
  | infinity s =>
      cases s with
      | negative => exact .inr ⟨_, .below⟩
      | positive => exact .inr ⟨_, .above⟩
  | zero s => exact .inr ⟨_, .value (.zero s) (hfinite _ (.zero s))⟩
  | finite s m e hpos => exact .inr ⟨_, .value (.finite s hpos) (hfinite _ (.finite s hpos))⟩

theorem compare_notANumber (u : UnpackedFloat) : u.compare .notANumber = none := by
  cases u <;> rfl

theorem le_iff_level : x ≤ y ↔
    ∃ a b, HasLevel x.toModel.unpack a ∧ HasLevel y.toModel.unpack b ∧ a ≤ b := by
  have hle : ∀ a b : Int, (some (compare a b)).any (·.isLE) = true ↔ a ≤ b := by
    intro a b
    rw [← Int.compare_ne_gt]
    simp [Ordering.isLE_iff_ne_gt]
  rw [le_def]
  constructor
  · intro h
    rcases eq_notANumber_or_level x with hx | ⟨a, ha⟩
    · rw [hx] at h
      cases h
    · rcases eq_notANumber_or_level y with hy | ⟨b, hb⟩
      · rw [hy, compare_notANumber] at h
        cases h
      · rw [ha.compare_eq hb, hle] at h
        exact ⟨a, b, ha, hb, h⟩
  · rintro ⟨a, b, ha, hb, h⟩
    rw [ha.compare_eq hb, hle]
    exact h

/-! ## The total order -/

/-- The word of a double is what it is unpacked to, packed again. -/
theorem toBitVec_toBits (x : Float) :
    x.toBits.toBitVec = UnpackedFloat.pack .binary64 x.toModel.unpack :=
  (pack_unpack x.toModel.valid).symm

/-- The total order follows the line; what has a minus sign stands one place below. -/
theorem HasLevel.totalKey_eq (h : HasLevel x.toModel.unpack a) :
    (totalKey x = a ∧ 0 ≤ a) ∨ (totalKey x = a - 1 ∧ a ≤ 0) := by
  have hword := toBitVec_toBits x
  -- the words of the infinities are constants; those of finite doubles follow from their values
  have hvalue := fun b => hasValue_iff (x := x) (b := b)
  have hpow : Nat.pow 2 63 = 2 ^ 63 := rfl
  generalize x.toModel.unpack = u at h hword hvalue
  cases h with
  | below =>
      have hbits : x.toBits.toNat = 2 ^ 63 + 2047 * 2 ^ 52 := congrArg BitVec.toNat hword
      right
      rw [totalKey, hbits]
      decide
  | above =>
      have hbits : x.toBits.toNat = 2047 * 2 ^ 52 := congrArg BitVec.toNat hword
      left
      rw [totalKey, hbits]
      decide
  | @value _ b hb hcanonical =>
      have hbits := (Binary.ofFloat?_eq_some_iff.mp ((hvalue b).mp hb)).2
      have hplace := hcanonical.place_lt
      cases hsign : b.negative with
      | true =>
          -- the minus sign moves even zero behind
          have hword : b.word = 2 ^ 63 + b.place := by simp [Binary.word, hsign]
          right
          rw [totalKey, hbits, hword, if_neg (by omega), Binary.rank_of_negative hsign]
          omega
      | false =>
          have hword : b.word = b.place := by simp [Binary.word, hsign]
          left
          rw [totalKey, hbits, hword, if_pos (by omega), Binary.rank_of_positive hsign]
          omega

/-- NaN stands behind everything. -/
theorem totalKey_of_notANumber (h : x.toModel.unpack = .notANumber) :
    infinitePlace < totalKey x := by
  have hword := toBitVec_toBits x
  rw [h] at hword
  have hbits : x.toBits.toNat = 2047 * 2 ^ 52 + 2 ^ 51 := congrArg BitVec.toNat hword
  rw [totalKey, hbits]
  decide

/-- **What comes first is within every bound** that anything behind it is within. -/
theorem le_of_totalKey_le (hxy : totalKey x ≤ totalKey y) (hyz : y ≤ z) : x ≤ z := by
  obtain ⟨b, c, hb, hc, hle⟩ := le_iff_level.mp hyz
  have hykey := hb.totalKey_eq
  rcases eq_notANumber_or_level x with hnan | ⟨a, ha⟩
  · -- behind NaN there is nothing
    have hxkey := totalKey_of_notANumber hnan
    have hbound := hb.bounds
    omega
  · have hxkey := ha.totalKey_eq
    -- two keys stand for one place only at zero, so a key that is not greater is no later place
    exact le_iff_level.mpr ⟨a, c, ha, hc, by omega⟩

/-! ## The least of a list -/

theorem least?_spec (l : List Float) :
    match least? l with
    | none => l = []
    | some x => x ∈ l ∧ ∀ y ∈ l, totalKey x ≤ totalKey y := by
  induction l with
  | nil => rfl
  | cons head rest ih =>
      rw [least?]
      cases hrest : least? rest with
      | none =>
          rw [hrest] at ih
          subst ih
          simp
      | some y =>
          rw [hrest] at ih
          obtain ⟨hmem, hleast⟩ := ih
          by_cases hle : totalKey head ≤ totalKey y
          · simp only [if_pos hle, List.mem_cons, true_or, true_and, forall_eq_or_imp, Int.le_refl]
            exact fun z hz => hle.trans (hleast z hz)
          · simp only [if_neg hle, List.mem_cons, hmem, or_true, true_and, forall_eq_or_imp]
            exact ⟨(Int.not_le.mp hle).le, hleast⟩

/-- **The least of a list is within a bound** exactly if some member of the list is. -/
theorem exists_least?_le_iff {l : List Float} {bound : Float} :
    (∃ x ∈ least? l, x ≤ bound) ↔ ∃ x ∈ l, x ≤ bound := by
  have hspec := least?_spec l
  constructor
  · rintro ⟨x, hx, hle⟩
    rw [Option.mem_def.mp hx] at hspec
    exact ⟨x, hspec.1, hle⟩
  · rintro ⟨x, hx, hle⟩
    cases hleast : least? l with
    | none =>
        rw [hleast] at hspec
        simp [hspec] at hx
    | some y =>
        rw [hleast] at hspec
        exact ⟨y, rfl, le_of_totalKey_le (hspec.2 x hx) hle⟩

end SkyCatalog.Decimal
