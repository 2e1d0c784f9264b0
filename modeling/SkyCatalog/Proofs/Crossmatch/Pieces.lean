import SkyCatalog.Crossmatch.Pass
import SkyCatalog.Proofs.Keyed

/-!
# Data are kept family by family

The data of a batch of records are kept in pieces, one for each family that has any.
Keeping pieces changes the data of their families and nothing else
(`get?_foldl_keepPiece`), whatever their order. A batch is kept as a whole unless the
store refuses a family that one of its records has data of (`keepData_of_takes`,
`keepData_of_refused`).
-/

namespace SkyCatalog

namespace Job

/-- The data that pieces hold for a family, in order. -/
def written (all : List (Family × List (String × Datum))) (family : Family) :
    List (String × Datum) :=
  (all.filter (·.1 = family)).flatMap (·.2)

/-- Every datum of a piece belongs to the family of the piece. -/
def Placed (piece : Family × List (String × Datum)) : Prop :=
  ∀ e ∈ piece.2, e.2.family = piece.1

theorem mem_familyData {records : List Record} {family : Family} {e : String × Datum} :
    e ∈ familyData records family ↔
      ∃ r ∈ records, e.1 = r.id ∧ e.2 ∈ r.data ∧ e.2.family = family := by
  simp only [familyData, List.mem_flatMap, List.mem_map, List.mem_filter, decide_eq_true_eq]
  constructor
  · rintro ⟨r, hr, d, ⟨hd, hfamily⟩, rfl⟩
    exact ⟨r, hr, rfl, hd, hfamily⟩
  · rintro ⟨r, hr, hid, hd, hfamily⟩
    exact ⟨r, hr, e.2, ⟨hd, hfamily⟩, by rw [← hid]⟩

theorem mem_pieces {records : List Record} {piece : Family × List (String × Datum)} :
    piece ∈ pieces records ↔ piece.2 = familyData records piece.1 ∧ piece.2 ≠ [] := by
  have hall : ∀ f : Family, f ∈ Family.all := by
    intro f
    cases f <;> decide
  simp only [pieces, List.mem_filter, List.mem_map, Bool.not_eq_true', List.isEmpty_eq_false_iff]
  constructor
  · rintro ⟨⟨f, -, rfl⟩, hne⟩
    exact ⟨rfl, hne⟩
  · rintro ⟨heq, hne⟩
    exact ⟨⟨piece.1, hall _, by rw [← heq]⟩, hne⟩

theorem placed_of_mem_pieces {records : List Record} {piece : Family × List (String × Datum)}
    (h : piece ∈ pieces records) : Placed piece := by
  intro e he
  rw [(mem_pieces.mp h).1] at he
  obtain ⟨-, -, -, -, hfamily⟩ := mem_familyData.mp he
  exact hfamily

theorem written_cons (piece : Family × List (String × Datum))
    (rest : List (Family × List (String × Datum))) (family : Family) :
    written (piece :: rest) family =
      if piece.1 = family then piece.2 ++ written rest family else written rest family := by
  by_cases h : piece.1 = family <;> simp [written, h]

theorem written_eq_nil {all : List (Family × List (String × Datum))} {family : Family}
    (h : ¬∃ piece ∈ all, piece.1 = family) : written all family = [] := by
  have hnone : all.filter (·.1 = family) = [] :=
    List.filter_eq_nil_iff.mpr fun piece hpiece => by simpa using fun heq => h ⟨piece, hpiece, heq⟩
  rw [written, hnone, List.flatMap_nil]

/-- The pieces of a batch hold all its data of a family. -/
theorem written_pieces (records : List Record) (family : Family) :
    written (pieces records) family = familyData records family := by
  have hempty : ∀ l : List (Family × List (String × Datum)),
      written (l.filter fun piece => !piece.2.isEmpty) family = written l family := by
    intro l
    induction l with
    | nil => rfl
    | cons piece rest ih =>
        rw [List.filter_cons, written_cons]
        by_cases h : piece.2 = [] <;> simp [h, ih, written_cons]
  rw [pieces, hempty]
  cases family <;> simp [Family.all, written]

/-- The store with data of a family added to it. -/
def addData (s : UploadStore) (table : Int) (family : Family) (data : List (String × Datum)) :
    UploadStore :=
  { s with
    data := s.data.put ⟨table, family⟩ ((s.dataOf table family).putAll data) }

theorem get?_data_addData (s : UploadStore) (table t : Int) (family f : Family)
    (data : List (String × Datum)) :
    (addData s table family data).data.get? ⟨t, f⟩ =
      if t = table ∧ f = family then some ((s.dataOf table family).putAll data)
      else s.data.get? ⟨t, f⟩ := by
  have hiff : compare (⟨t, f⟩ : Shelf) ⟨table, family⟩ = .eq ↔ t = table ∧ f = family := by
    rw [Std.LawfulEqOrd.compare_eq_iff_eq, Shelf.mk.injEq]
  simp only [addData, Keyed.get?_put, hiff]

theorem dataOf_addData (s : UploadStore) (table : Int) (family f : Family)
    (data : List (String × Datum)) :
    (addData s table family data).dataOf table f =
      if f = family then (s.dataOf table f).putAll data else s.dataOf table f := by
  by_cases h : f = family
  · simp [UploadStore.dataOf, get?_data_addData, h]
  · simp [UploadStore.dataOf, get?_data_addData, h]

theorem putData_of_placed {s : UploadStore} {table : Int} {piece : Family × List (String × Datum)}
    (h : Placed piece) :
    s.putData table piece.1 piece.2 =
      if s.rejected = some piece.1 then .error (.writesRejected piece.1)
      else .ok (addData s table piece.1 piece.2) := by
  have hfind : piece.2.find? (fun e => e.2.family ≠ piece.1) = none := by
    rw [List.find?_eq_none]
    intro e he
    simpa using h e he
  simp only [UploadStore.putData, hfind, addData]

/-- A piece is kept unless its family is refused. -/
theorem keepPiece_of_placed {s : UploadStore} {table : Int}
    {piece : Family × List (String × Datum)} (h : Placed piece) :
    keepPiece table s piece =
      if s.rejected = some piece.1 then s else addData s table piece.1 piece.2 := by
  rw [keepPiece, putData_of_placed h]
  by_cases hrejected : s.rejected = some piece.1 <;> simp [hrejected]

theorem refusal?_of_placed {s : UploadStore} {table : Int}
    {piece : Family × List (String × Datum)} (h : Placed piece) :
    refusal? table s piece =
      if s.rejected = some piece.1 then some (.writesRejected piece.1) else none := by
  rw [refusal?, putData_of_placed h]
  by_cases hrejected : s.rejected = some piece.1 <;> simp [hrejected]

/-- Keeping pieces changes nothing but the data. -/
theorem foldl_keepPiece_frame {table : Int} {all : List (Family × List (String × Datum))}
    (h : ∀ piece ∈ all, Placed piece) (s : UploadStore) :
    all.foldl (keepPiece table) s =
      { s with data := (all.foldl (keepPiece table) s).data } := by
  induction all generalizing s with
  | nil => rfl
  | cons piece rest ih =>
      have hrest := ih fun q hq => h q (List.mem_cons_of_mem _ hq)
      rw [List.foldl_cons, hrest, keepPiece_of_placed (h piece List.mem_cons_self)]
      split <;> rfl

/-- What is read under a family once pieces were kept. -/
theorem get?_foldl_keepPiece {table : Int} {all : List (Family × List (String × Datum))}
    (h : ∀ piece ∈ all, Placed piece) (s : UploadStore) (t : Int) (f : Family) :
    (all.foldl (keepPiece table) s).data.get? ⟨t, f⟩ =
      if t = table ∧ s.rejected ≠ some f ∧ ∃ piece ∈ all, piece.1 = f then
        some ((s.dataOf table f).putAll (written all f))
      else s.data.get? ⟨t, f⟩ := by
  -- by induction on the pieces; the rest may write to the family of the first one again
  induction all generalizing s with
  | nil => simp
  | cons piece rest ih =>
      have hrest := ih fun q hq => h q (List.mem_cons_of_mem _ hq)
      rw [List.foldl_cons, hrest, keepPiece_of_placed (h piece List.mem_cons_self)]
      simp only [List.exists_mem_cons_iff, written_cons]
      by_cases hrejected : s.rejected = some piece.1
      · rw [if_pos hrejected]
        by_cases hf : piece.1 = f
        · simp [← hf, hrejected]
        · simp only [hf, false_or, if_false]
      · rw [if_neg hrejected, get?_data_addData, dataOf_addData]
        have hkeep : (addData s table piece.1 piece.2).rejected = s.rejected := rfl
        rw [hkeep]
        by_cases ht : t = table
        · by_cases hf : piece.1 = f
          · subst hf
            by_cases hlater : ∃ q ∈ rest, q.1 = piece.1
            · simp [ht, hrejected, hlater, Keyed.putAll_append]
            · simp [ht, hrejected, hlater, written_eq_nil hlater]
          · have hother : f ≠ piece.1 := Ne.symm hf
            simp only [hf, hother, false_or, and_false, if_false]
        · simp only [ht, false_and, if_false]

/-! ## Keeping all or some pieces -/

/-- The store refuses no family that a record has data of. -/
def Takes (s : UploadStore) (r : Record) : Prop :=
  ∀ d ∈ r.data, s.rejected ≠ some d.family

theorem forall_pieces_iff {s : UploadStore} {records : List Record} :
    (∀ piece ∈ pieces records, s.rejected ≠ some piece.1) ↔ ∀ r ∈ records, Takes s r := by
  constructor
  · intro h r hr d hd
    have hmem : (r.id, d) ∈ familyData records d.family :=
      mem_familyData.mpr ⟨r, hr, rfl, hd, rfl⟩
    exact h (d.family, familyData records d.family)
      (mem_pieces.mpr ⟨rfl, List.ne_nil_of_mem hmem⟩)
  · intro h piece hpiece
    obtain ⟨heq, hne⟩ := mem_pieces.mp hpiece
    obtain ⟨e, he⟩ := List.exists_mem_of_ne_nil _ hne
    rw [heq] at he
    obtain ⟨r, hr, -, hd, hfamily⟩ := mem_familyData.mp he
    rw [← hfamily]
    exact h r hr e.2 hd

/-- Records that the store takes are kept as a whole. -/
theorem keepData_of_takes {s : UploadStore} {records : List Record}
    (h : ∀ r ∈ records, Takes s r) (table : Int) (lands : Family → Bool) :
    keepData table lands records s = ((pieces records).foldl (keepPiece table) s, none) := by
  have hnone : (pieces records).findSome? (refusal? table s) = none := by
    refine List.findSome?_eq_none_iff.mpr fun piece hpiece => ?_
    rw [refusal?_of_placed (placed_of_mem_pieces hpiece),
      if_neg (forall_pieces_iff.mpr h piece hpiece)]
  simp only [keepData, hnone]

/-- If the store refuses a family, only the pieces that land are kept. -/
theorem keepData_of_refused {s : UploadStore} {records : List Record}
    (h : ¬∀ r ∈ records, Takes s r) (table : Int) (lands : Family → Bool) :
    ∃ f, s.rejected = some f ∧ keepData table lands records s =
      (((pieces records).filter fun piece => lands piece.1).foldl (keepPiece table) s,
        some (.writesRejected f)) := by
  rw [← forall_pieces_iff] at h
  cases hfind : (pieces records).findSome? (refusal? table s) with
  | none =>
      refine absurd (fun piece hpiece hrejected => ?_) h
      have hrefusal := List.findSome?_eq_none_iff.mp hfind piece hpiece
      rw [refusal?_of_placed (placed_of_mem_pieces hpiece), if_pos hrejected] at hrefusal
      cases hrefusal
  | some e =>
      -- a piece is refused for its family only, since its data are placed
      obtain ⟨piece, hpiece, hrefusal⟩ := List.exists_of_findSome?_eq_some hfind
      rw [refusal?_of_placed (placed_of_mem_pieces hpiece)] at hrefusal
      by_cases hrejected : s.rejected = some piece.1
      · rw [if_pos hrejected] at hrefusal
        cases hrefusal
        exact ⟨piece.1, hrejected, by simp only [keepData, hfind]⟩
      · rw [if_neg hrejected] at hrefusal
        cases hrefusal

/-- What is read under a family once the pieces of some families were kept. -/
theorem get?_foldl_keepPiece_filter (s : UploadStore) (table : Int) (records : List Record)
    (keep : Family → Bool) (t : Int) (f : Family) :
    (((pieces records).filter fun piece => keep piece.1).foldl (keepPiece table) s).data.get?
        ⟨t, f⟩ =
      if t = table ∧ s.rejected ≠ some f ∧ keep f = true ∧ familyData records f ≠ [] then
        some ((s.dataOf table f).putAll (familyData records f))
      else s.data.get? ⟨t, f⟩ := by
  have hplaced : ∀ piece ∈ (pieces records).filter fun piece => keep piece.1, Placed piece :=
    fun piece hpiece => placed_of_mem_pieces (List.mem_filter.mp hpiece).1
  have hexists : (∃ piece ∈ (pieces records).filter fun piece => keep piece.1, piece.1 = f) ↔
      keep f = true ∧ familyData records f ≠ [] := by
    constructor
    · rintro ⟨piece, hpiece, rfl⟩
      obtain ⟨hmem, hkeep⟩ := List.mem_filter.mp hpiece
      obtain ⟨heq, hne⟩ := mem_pieces.mp hmem
      exact ⟨hkeep, heq ▸ hne⟩
    · rintro ⟨hkeep, hne⟩
      exact ⟨(f, familyData records f), List.mem_filter.mpr ⟨mem_pieces.mpr ⟨rfl, hne⟩, hkeep⟩, rfl⟩
  have hwritten : keep f = true →
      written ((pieces records).filter fun piece => keep piece.1) f = familyData records f := by
    intro hkeep
    rw [← written_pieces, written, written, List.filter_filter]
    refine congrArg (List.flatMap _) (List.filter_congr fun piece _ => ?_)
    by_cases hf : piece.1 = f
    · simp [hf, hkeep]
    · simp [hf]
  simp only [get?_foldl_keepPiece hplaced, hexists]
  by_cases hkeep : keep f = true
  · rw [hwritten hkeep]
  · simp only [hkeep, Bool.false_eq_true, false_and, and_false, if_false]

theorem dataOf_foldl_keepPiece_filter (s : UploadStore) (table : Int) (records : List Record)
    (keep : Family → Bool) (t : Int) (f : Family) :
    (((pieces records).filter fun piece => keep piece.1).foldl (keepPiece table) s).dataOf t f =
      if t = table ∧ s.rejected ≠ some f ∧ keep f = true then
        (s.dataOf t f).putAll (familyData records f)
      else s.dataOf t f := by
  rw [UploadStore.dataOf, get?_foldl_keepPiece_filter]
  by_cases hkept : t = table ∧ s.rejected ≠ some f ∧ keep f = true
  · obtain ⟨rfl, hrejected, hkeep⟩ := hkept
    by_cases hne : familyData records f = []
    · simp [hne, Keyed.putAll, UploadStore.dataOf]
    · simp [hrejected, hkeep, hne, UploadStore.dataOf]
  · rw [if_neg hkept, if_neg fun h => hkept ⟨h.1, h.2.1, h.2.2.1⟩]
    rfl

end Job

end SkyCatalog
