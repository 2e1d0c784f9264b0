import Mathlib.Data.List.Sort
import SkyCatalog.Keyed

/-!
# Readings of finite maps

A map is determined by its readings (`ext_get?`), and its entries are exactly what is
read from it (`mem_entries_iff`). Every operation has one equation that says what is
read afterwards. Entries that are put into an empty map in ascending order stand there
as they were given (`ofList_entries_eq`), and putting them in two parts or at once is the
same (`putAll_append`). Entries of which no two have the same key are, in some order, those of
the map they are put into (`perm_entries_ofList`).
-/

namespace SkyCatalog

/-- One of several things that are told apart by a key, and the others. -/
theorem perm_cons_filter {α κ : Type} {key : α → κ} {a : α} {l : List α} {others : α → Bool}
    (hl : (l.map key).Nodup) (ha : a ∈ l) (hothers : ∀ b, others b = true ↔ key b ≠ key a) :
    l.Perm (a :: l.filter others) := by
  induction l with
  | nil => cases ha
  | cons head rest ih =>
      obtain ⟨hhead, hrest⟩ := List.nodup_cons.mp hl
      rcases List.mem_cons.mp ha with rfl | hmem
      · have hall : rest.filter others = rest :=
          List.filter_eq_self.mpr fun b hb =>
            (hothers b).mpr fun heq => hhead (List.mem_map.mpr ⟨b, hb, heq⟩)
        rw [List.filter_cons_of_neg (by simp [hothers]), hall]
      · have hne : key head ≠ key a := fun heq => hhead (List.mem_map.mpr ⟨a, hmem, heq.symm⟩)
        rw [List.filter_cons_of_pos ((hothers head).mpr hne)]
        exact ((ih hrest hmem).cons head).trans (.swap a head _)

namespace Keyed

variable {κ α β : Type} [Ord κ]

/-! ## Lists of entries -/

theorem find?_append (k : κ) (a b : List (κ × α)) :
    find? k (a ++ b) = (find? k a).or (find? k b) := by
  induction a with
  | nil => simp [find?]
  | cons head rest ih =>
      simp only [List.cons_append, find?]
      split
      · simp
      · exact ih

theorem mem_of_find?_eq_some [Std.LawfulEqOrd κ] {k : κ} {value : α} {l : List (κ × α)}
    (h : find? k l = some value) : (k, value) ∈ l := by
  induction l with
  | nil => simp [find?] at h
  | cons head rest ih =>
      simp only [find?] at h
      split at h
      · next heq =>
        obtain rfl : k = head.1 := Std.LawfulEqCmp.eq_of_compare heq
        obtain rfl : head.2 = value := by simpa using h
        exact List.mem_cons_self
      · exact List.mem_cons_of_mem _ (ih h)

theorem find?_eq_none_iff [Std.LawfulEqOrd κ] {k : κ} {l : List (κ × α)} :
    find? k l = none ↔ k ∉ l.map (·.1) := by
  induction l with
  | nil => simp [find?]
  | cons head rest ih =>
      simp only [find?, List.map_cons, List.mem_cons, not_or]
      by_cases h : compare k head.1 = .eq
      · simp [Std.LawfulEqCmp.eq_of_compare h]
      · have hne : k ≠ head.1 := fun heq => h (heq ▸ Std.ReflCmp.compare_self)
        simp [h, hne, ih]

/-- Where no key stands twice, reading a list is looking for an entry. -/
theorem find?_eq_some_iff [Std.LawfulEqOrd κ] {k : κ} {value : α} {l : List (κ × α)}
    (hl : (l.map (·.1)).Nodup) : find? k l = some value ↔ (k, value) ∈ l := by
  refine ⟨mem_of_find?_eq_some, fun h => ?_⟩
  induction l with
  | nil => simp at h
  | cons head rest ih =>
      obtain ⟨hhead, hrest⟩ := List.nodup_cons.mp hl
      rcases List.mem_cons.mp h with rfl | hmem
      · simp [find?]
      · have hne : k ≠ head.1 := by
          rintro rfl
          exact hhead (List.mem_map.mpr ⟨_, hmem, rfl⟩)
        have hcmp : compare k head.1 ≠ .eq := fun heq => hne (Std.LawfulEqCmp.eq_of_compare heq)
        simpa [find?, hcmp] using ih hrest hmem

theorem find?_map (f : κ → α → β) (k : κ) (l : List (κ × α)) [Std.LawfulEqOrd κ] :
    find? k (l.map fun e => (e.1, f e.1 e.2)) = (find? k l).map (f k) := by
  induction l with
  | nil => rfl
  | cons head rest ih =>
      simp only [List.map_cons, find?]
      split
      · next heq => simp [Std.LawfulEqCmp.eq_of_compare heq]
      · exact ih

/-- Where no key stands twice, the order of the entries does not matter to what is read. -/
theorem find?_reverse [Std.LawfulEqOrd κ] {l : List (κ × α)} (hl : (l.map (·.1)).Nodup) (k : κ) :
    find? k l.reverse = find? k l := by
  refine Option.ext fun value => ?_
  have hreverse : (l.reverse.map (·.1)).Nodup := by simpa using hl
  rw [find?_eq_some_iff hreverse, find?_eq_some_iff hl, List.mem_reverse]

/-- Where no key stands twice, dropping values and changing the others goes through to what is
read. -/
theorem find?_filterMap [Std.LawfulEqOrd κ] {l : List (κ × α)} (hl : (l.map (·.1)).Nodup)
    (f : α → Option β) (k : κ) :
    find? k (l.filterMap fun e => (f e.2).map (e.1, ·)) = (find? k l).bind f := by
  induction l with
  | nil => rfl
  | cons head rest ih =>
      obtain ⟨hhead, hrest⟩ := List.nodup_cons.mp hl
      cases hvalue : f head.2 with
      | none =>
          have hskip : (head :: rest).filterMap (fun e => (f e.2).map (e.1, ·)) =
              rest.filterMap fun e => (f e.2).map (e.1, ·) := by simp [hvalue]
          rw [hskip, ih hrest]
          by_cases h : k = head.1
          · -- the entry that is dropped is the only one of its key
            subst h
            simp [find?, hvalue, find?_eq_none_iff.mpr hhead]
          · simp [find?, h]
      | some value =>
          by_cases h : k = head.1
          · simp [find?, h, hvalue]
          · simpa [find?, h, hvalue] using ih hrest

section Lawful

variable [Std.TransOrd κ] [Std.LawfulEqOrd κ]

omit [Std.TransOrd κ] in
/-- No key of a map stands twice. -/
theorem nodup_keys (m : Keyed κ α) : (m.entries.map (·.1)).Nodup := by
  rw [List.Nodup, List.pairwise_map]
  refine m.ascending.imp fun h heq => ?_
  simp [heq] at h

omit [Std.TransOrd κ] in
/-- The entries of a map are what is read from it. -/
theorem mem_entries_iff {m : Keyed κ α} {k : κ} {value : α} :
    (k, value) ∈ m.entries ↔ m.get? k = some value :=
  (find?_eq_some_iff m.nodup_keys).symm

omit [Std.TransOrd κ] in
/-- The keys of a map are those under which something is read. -/
theorem mem_keys_iff {m : Keyed κ α} {k : κ} : k ∈ m.keys ↔ (m.get? k).isSome := by
  rw [Option.isSome_iff_exists]
  constructor
  · intro hk
    obtain ⟨e, he, rfl⟩ := List.mem_map.mp hk
    exact ⟨e.2, mem_entries_iff.mp he⟩
  · rintro ⟨value, hvalue⟩
    exact List.mem_map.mpr ⟨(k, value), mem_entries_iff.mpr hvalue, rfl⟩

omit [Std.TransOrd κ] in
/-- A map without entries is one of which nothing is read. -/
theorem isEmpty_entries_iff {m : Keyed κ α} :
    m.entries.isEmpty = true ↔ ∀ k, m.get? k = none := by
  rw [List.isEmpty_iff]
  constructor
  · intro hempty k
    simp [get?, hempty, find?]
  · intro hnone
    refine List.eq_nil_iff_forall_not_mem.mpr fun e he => ?_
    exact absurd (hnone e.1) (by simp [mem_entries_iff.mp he])

/-- Maps with the same entries are equal. -/
theorem ext_mem {m m' : Keyed κ α} (h : ∀ e, e ∈ m.entries ↔ e ∈ m'.entries) : m = m' := by
  have hirrefl : Std.Irrefl fun a b : κ × α => compare a.1 b.1 = .lt := ⟨fun a => by simp⟩
  have hantisymm : Std.Antisymm fun a b : κ × α => compare a.1 b.1 = .lt :=
    ⟨fun a b hab hba => absurd hba (Std.OrientedCmp.not_lt_of_lt hab)⟩
  -- both lists ascend, and an ascending list is determined by its members
  have hentries := m.ascending.eq_of_mem_iff m'.ascending h
  cases m
  cases m'
  simpa using hentries

/-- Maps with the same readings are equal. -/
theorem ext_get? {m m' : Keyed κ α} (h : ∀ k, m.get? k = m'.get? k) : m = m' :=
  ext_mem fun e => by rw [mem_entries_iff, mem_entries_iff, h]

/-! ## Writing several entries -/

/-- After several writes a key has the value written last, or else the one it had. -/
theorem get?_putAll (m : Keyed κ α) (l : List (κ × α)) (k : κ) :
    (m.putAll l).get? k = (find? k l.reverse).or (m.get? k) := by
  -- by induction on the writes: the first one counts only if no later one is to the key
  induction l generalizing m with
  | nil => simp [putAll, find?]
  | cons head rest ih =>
      have hput : (m.putAll (head :: rest)).get? k =
          ((m.put head.1 head.2).putAll rest).get? k := rfl
      rw [hput, ih, get?_put, List.reverse_cons, find?_append, Option.or_assoc]
      by_cases h : compare k head.1 = .eq <;> simp [find?, h]

theorem get?_ofList (l : List (κ × α)) (k : κ) : (ofList l).get? k = find? k l.reverse := by
  simp [ofList, get?_putAll]

/-- A map given by entries of which no key stands twice. -/
theorem get?_ofList_eq_some_iff {l : List (κ × α)} (hl : (l.map (·.1)).Nodup) {k : κ}
    {value : α} : (ofList l).get? k = some value ↔ (k, value) ∈ l := by
  rw [get?_ofList, find?_eq_some_iff (by simpa using hl), List.mem_reverse]

/-- The keys of a map are those of the entries it was given by. -/
theorem get?_ofList_eq_none_iff {l : List (κ × α)} {k : κ} :
    (ofList l).get? k = none ↔ k ∉ l.map (·.1) := by
  rw [get?_ofList, find?_eq_none_iff, List.map_reverse, List.mem_reverse]

/-- The keys of a map given by entries are those of the entries. -/
theorem mem_keys_ofList {l : List (κ × α)} {k : κ} : k ∈ (ofList l).keys ↔ k ∈ l.map (·.1) := by
  rw [mem_keys_iff, ← not_iff_not, Option.not_isSome_iff_eq_none, get?_ofList_eq_none_iff]

/-- Where the keys are all there is, maps with the same keys are equal. -/
theorem ext_keys {m m' : Keyed κ Unit} (h : ∀ k, k ∈ m.keys ↔ k ∈ m'.keys) : m = m' := by
  refine ext_get? fun k => ?_
  have hsome : (m.get? k).isSome = (m'.get? k).isSome :=
    Bool.eq_iff_iff.mpr (by rw [← mem_keys_iff, ← mem_keys_iff, h])
  cases hleft : m.get? k <;> cases hright : m'.get? k <;> simp_all

theorem putAll_append (m : Keyed κ α) (a b : List (κ × α)) :
    m.putAll (a ++ b) = (m.putAll a).putAll b :=
  List.foldl_append

/-- Of the values that one key is given, the last is kept. -/
theorem get?_putAll_map (m : Keyed κ α) (k : κ) (values : List α) :
    (m.putAll (values.map fun value => (k, value))).get? k = values.getLast?.or (m.get? k) := by
  have hfind : find? k (values.reverse.map fun value => (k, value)) = values.reverse.head? := by
    cases values.reverse <;> simp [find?]
  rw [get?_putAll, ← List.map_reverse, hfind]
  rw [List.head?_reverse]

/-- A key that is given no value is read as before. -/
theorem get?_putAll_of_notMem {m : Keyed κ α} {l : List (κ × α)} {k : κ}
    (h : k ∉ l.map (·.1)) : (m.putAll l).get? k = m.get? k := by
  have hnone : find? k l.reverse = none := by
    rw [find?_eq_none_iff, List.map_reverse, List.mem_reverse]
    exact h
  rw [get?_putAll, hnone, Option.none_or]

/-- Entries in ascending order of their keys are the entries of the map they give. -/
theorem ofList_entries_eq {l : List (κ × α)}
    (hl : l.Pairwise fun a b => compare a.1 b.1 = .lt) : ofList l = ⟨l, hl⟩ := by
  have hkeys : (l.map (·.1)).Nodup := nodup_keys ⟨l, hl⟩
  apply ext_get?
  intro k
  apply Option.ext
  intro value
  rw [get?_ofList_eq_some_iff hkeys, ← mem_entries_iff]

/-! ## Applying a function and keeping entries -/

omit [Std.TransOrd κ] in
theorem get?_mapValues (f : κ → α → β) (m : Keyed κ α) (k : κ) :
    (m.mapValues f).get? k = (m.get? k).map (f k) :=
  find?_map f k m.entries

omit [Std.TransOrd κ] in
theorem get?_filter (p : κ → α → Bool) (m : Keyed κ α) (k : κ) :
    (m.filter p).get? k = (m.get? k).filter (p k) := by
  refine Option.ext fun value => ?_
  rw [← mem_entries_iff, Option.filter_eq_some_iff, ← mem_entries_iff]
  exact List.mem_filter

/-! ## Entries as lists -/

omit [Std.TransOrd κ] in
theorem mem_erase_iff {m : Keyed κ α} {k : κ} {e : κ × α} :
    e ∈ (m.erase k).entries ↔ e ∈ m.entries ∧ k ≠ e.1 := by
  simp [erase, filter]

/-- Taking an entry out of a map, read as a split of its entries. -/
theorem perm_cons_iff {m rest : Keyed κ α} {k : κ} {value : α} :
    m.entries.Perm ((k, value) :: rest.entries) ↔ m.get? k = some value ∧ m.erase k = rest := by
  constructor
  · intro h
    have hnodup : (k :: rest.keys).Nodup := (h.map Prod.fst).nodup_iff.mp m.nodup_keys
    refine ⟨mem_entries_iff.mp (h.mem_iff.mpr List.mem_cons_self), ext_mem fun e => ?_⟩
    rw [mem_erase_iff, h.mem_iff, List.mem_cons]
    constructor
    · rintro ⟨rfl | he, hne⟩
      · exact absurd rfl hne
      · exact he
    · intro he
      refine ⟨Or.inr he, ?_⟩
      rintro rfl
      exact (List.nodup_cons.mp hnodup).1 (List.mem_map_of_mem he)
  · rintro ⟨hget, rfl⟩
    refine perm_cons_filter m.nodup_keys (mem_entries_iff.mpr hget) fun e => ?_
    rw [decide_eq_true_iff, Ne, Std.LawfulEqCmp.compare_eq_iff_eq]
    exact ne_comm

theorem erase_of_get?_eq_none {m : Keyed κ α} {k : κ} (h : m.get? k = none) : m.erase k = m := by
  refine ext_mem fun e => ?_
  rw [mem_erase_iff, and_iff_left_iff_imp]
  rintro he rfl
  rw [mem_entries_iff.mp he] at h
  cases h

/-- The entries of a map are those it was given by, if no key of these stands twice. -/
theorem perm_entries_ofList {l : List (κ × α)} (hl : (l.map (·.1)).Nodup) :
    (ofList l).entries.Perm l := by
  refine (List.perm_ext_iff_of_nodup (List.Nodup.of_map _ (nodup_keys _))
    (List.Nodup.of_map _ hl)).mpr fun e => ?_
  rw [mem_entries_iff, get?_ofList_eq_some_iff hl]

end Lawful

end Keyed

end SkyCatalog
