import SkyCatalog.Proofs.Upload.Covered

/-!
# Slices and tallies

A list is cut into consecutive slices of a size, the last of which may be shorter
(`slice`, `sliceCount`). The slices are all of the list, in order (`flatMap_slice`), and
none of them is empty (`slice_ne_nil`). Tallies are merged in any grouping, and outcomes
may be counted in parts (`ofOutcomes_append`).
-/

namespace SkyCatalog

namespace Tally

theorem merge_assoc (a b c : Tally) : (a.merge b).merge c = a.merge (b.merge c) := by
  simp [merge, Nat.add_assoc]

theorem zero_merge (a : Tally) : zero.merge a = a := by
  simp [merge, zero]

theorem merge_zero (a : Tally) : a.merge zero = a := by
  simp [merge, zero]

theorem count_merge (a b : Tally) (o : Outcome) : (a.merge b).count o = a.merge (b.count o) := by
  cases o <;> simp [merge, count, Nat.add_assoc]

/-- The outcomes of two lists are counted apart. -/
theorem ofOutcomes_append (a b : List Outcome) :
    ofOutcomes (a ++ b) = (ofOutcomes a).merge (ofOutcomes b) := by
  have hfold : ∀ (l : List Outcome) (t u : Tally),
      l.foldl count (t.merge u) = t.merge (l.foldl count u) := by
    intro l
    induction l with
    | nil => exact fun t u => rfl
    | cons o rest ih => exact fun t u => by rw [List.foldl_cons, List.foldl_cons, count_merge, ih]
  rw [ofOutcomes, List.foldl_append, ofOutcomes, ofOutcomes, ← hfold, merge_zero]

end Tally

/-! ## Slices -/

/-- The slice of a number, from zero, when a list is cut into slices of a size. -/
def slice {α : Type} (size : Nat) (l : List α) (k : Nat) : List α :=
  (l.drop (k * size)).take size

/-- The number of slices of a size that a number of elements fills, the last one perhaps
not as a whole. -/
def sliceCount (size n : Nat) : Nat :=
  (n + size - 1) / size

theorem slice_zero {α : Type} (size : Nat) (l : List α) : slice size l 0 = l.take size := by
  simp [slice]

theorem slice_succ {α : Type} (size : Nat) (l : List α) (k : Nat) :
    slice size l (k + 1) = slice size (l.drop size) k := by
  rw [slice, slice, List.drop_drop, Nat.succ_mul, Nat.add_comm]

theorem sliceCount_zero {size : Nat} (h : 0 < size) : sliceCount size 0 = 0 :=
  Nat.div_eq_of_lt (by omega)

theorem sliceCount_of_pos {size n : Nat} (h : 0 < size) (hn : 0 < n) :
    sliceCount size n = sliceCount size (n - size) + 1 := by
  -- a last slice that is not full counts as one, too
  rcases Nat.lt_or_ge n size with hlt | hge
  · rw [Nat.sub_eq_zero_of_le (Nat.le_of_lt hlt), sliceCount_zero h, sliceCount,
      Nat.div_eq_sub_div h (by omega), Nat.div_eq_of_lt (by omega)]
  · rw [sliceCount, sliceCount, Nat.div_eq_sub_div h (by omega)]
    congr 2
    omega

/-- Every slice holds something. -/
theorem slice_ne_nil {α : Type} {size k : Nat} {l : List α} (h : 0 < size)
    (hk : k < sliceCount size l.length) : slice size l k ≠ [] := by
  have hle : (k + 1) * size ≤ l.length + size - 1 := (Nat.le_div_iff_mul_le h).mp hk
  have hlt : k * size < l.length := by
    rw [Nat.succ_mul] at hle
    omega
  simp only [slice, ne_eq, List.take_eq_nil_iff, List.drop_eq_nil_iff, not_or, Nat.not_le]
  exact ⟨by omega, hlt⟩

/-- The slices of a list are all of it, in order. -/
theorem flatMap_slice {α : Type} {size : Nat} (h : 0 < size) (l : List α) :
    (List.range (sliceCount size l.length)).flatMap (slice size l) = l := by
  -- by induction on the length: behind the first slice are those of the rest
  induction hn : l.length using Nat.strongRecOn generalizing l with
  | _ n ih =>
    rcases Nat.eq_zero_or_pos n with hzero | hpos
    · rw [List.length_eq_zero_iff.mp (hn.trans hzero), hzero, sliceCount_zero h]
      rfl
    · have hrest := ih (n - size) (by omega) (l.drop size) (by rw [List.length_drop, hn])
      have hstep : (fun k => slice size l (k + 1)) = slice size (l.drop size) :=
        funext fun k => slice_succ size l k
      rw [sliceCount_of_pos h hpos, List.range_succ_eq_map, List.flatMap_cons, slice_zero,
        List.flatMap_map, hstep, hrest, List.take_append_drop]

end SkyCatalog
