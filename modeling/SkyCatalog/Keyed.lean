/-!
# Finite maps in ascending order of their keys

A `Keyed κ α` lists its entries with strictly ascending keys, so it has at most one
value for a key and two maps with the same values are equal. Every list, table and
report of this library that is ordered by a key is one of these.

`get?_put` says what a write does to a reading.
-/

namespace SkyCatalog

/-- A finite map; its entries are listed in ascending order of their keys. -/
structure Keyed (κ : Type) [Ord κ] (α : Type) where
  entries : List (κ × α)
  ascending : entries.Pairwise fun a b => compare a.1 b.1 = .lt

namespace Keyed

variable {κ α β : Type} [Ord κ]

/-- The map without entries. -/
def empty : Keyed κ α := ⟨[], .nil⟩

instance : Inhabited (Keyed κ α) := ⟨empty⟩

/-- Look a key up in a list of entries. -/
def find? (k : κ) : List (κ × α) → Option α
  | [] => none
  | (other, value) :: rest => if compare k other = .eq then some value else find? k rest

/-- The value of a key. -/
def get? (m : Keyed κ α) (k : κ) : Option α := find? k m.entries

@[simp] theorem get?_empty (k : κ) : (empty : Keyed κ α).get? k = none := rfl

/-- Does a key have a value? -/
def contains (m : Keyed κ α) (k : κ) : Bool := (m.get? k).isSome

/-- The keys in ascending order. -/
def keys (m : Keyed κ α) : List κ := m.entries.map (·.1)

/-- The values in ascending order of their keys. -/
def values (m : Keyed κ α) : List α := m.entries.map (·.2)

/-- Apply a function to every value. -/
def mapValues (f : κ → α → β) (m : Keyed κ α) : Keyed κ β where
  entries := m.entries.map fun e => (e.1, f e.1 e.2)
  ascending := List.pairwise_map.mpr m.ascending

/-- Keep the entries that pass a test. -/
def filter (p : κ → α → Bool) (m : Keyed κ α) : Keyed κ α where
  entries := m.entries.filter fun e => p e.1 e.2
  ascending := m.ascending.filter _

/-- Put an entry at its place in a list of entries, replacing one of the same key. -/
def insertEntry (k : κ) (value : α) : List (κ × α) → List (κ × α)
  | [] => [(k, value)]
  | (other, old) :: rest =>
      match compare k other with
      | .lt => (k, value) :: (other, old) :: rest
      | .eq => (k, value) :: rest
      | .gt => (other, old) :: insertEntry k value rest

theorem mem_insertEntry {k : κ} {value : α} {e : κ × α} {l : List (κ × α)}
    (h : e ∈ insertEntry k value l) : e = (k, value) ∨ e ∈ l := by
  induction l with
  | nil =>
      simp [insertEntry] at h
      exact Or.inl h
  | cons head rest ih =>
      obtain ⟨other, old⟩ := head
      simp only [insertEntry] at h
      split at h
      · simpa using h
      · simp only [List.mem_cons] at h ⊢
        cases h with
        | inl heq => exact Or.inl heq
        | inr hrest => exact Or.inr (Or.inr hrest)
      · simp only [List.mem_cons] at h ⊢
        cases h with
        | inl heq => exact Or.inr (Or.inl heq)
        | inr hrest =>
            cases ih hrest with
            | inl heq => exact Or.inl heq
            | inr hmem => exact Or.inr (Or.inr hmem)

section Lawful

variable [Std.TransOrd κ] [Std.LawfulEqOrd κ]

theorem ascending_insertEntry (k : κ) (value : α) {l : List (κ × α)}
    (h : l.Pairwise fun a b => compare a.1 b.1 = .lt) :
    (insertEntry k value l).Pairwise fun a b => compare a.1 b.1 = .lt := by
  induction l with
  | nil => simp [insertEntry]
  | cons head rest ih =>
      obtain ⟨other, old⟩ := head
      have hhead := (List.pairwise_cons.mp h).1
      have hrest := (List.pairwise_cons.mp h).2
      simp only [insertEntry]
      split
      · next hlt =>
        refine List.pairwise_cons.mpr ⟨?_, h⟩
        intro e he
        cases List.mem_cons.mp he with
        | inl heq => simpa [heq] using hlt
        | inr hmem => exact Std.TransCmp.lt_trans hlt (hhead e hmem)
      · next heq =>
        have hk : k = other := Std.LawfulEqCmp.eq_of_compare heq
        subst hk
        exact List.pairwise_cons.mpr ⟨hhead, hrest⟩
      · next hgt =>
        refine List.pairwise_cons.mpr ⟨?_, ih hrest⟩
        intro e he
        cases mem_insertEntry he with
        | inl heq => simpa [heq] using Std.OrientedCmp.lt_of_gt hgt
        | inr hmem => exact hhead e hmem

/-- Give a key a value, replacing the value it has. -/
def put (m : Keyed κ α) (k : κ) (value : α) : Keyed κ α :=
  ⟨insertEntry k value m.entries, ascending_insertEntry k value m.ascending⟩

/-- Give keys values one after the other; a later entry replaces an earlier one. -/
def putAll (m : Keyed κ α) (entries : List (κ × α)) : Keyed κ α :=
  entries.foldl (fun m e => m.put e.1 e.2) m

/-- The map that a list of entries describes; a later entry replaces an earlier one. -/
def ofList (entries : List (κ × α)) : Keyed κ α :=
  empty.putAll entries

/-- Remove a key. -/
def erase (m : Keyed κ α) (k : κ) : Keyed κ α :=
  m.filter fun other _ => compare k other ≠ .eq

/-- The entries whose keys follow a key, all entries if none is given. -/
def after (m : Keyed κ α) (k : Option κ) : List (κ × α) :=
  match k with
  | none => m.entries
  | some k => m.entries.filter fun e => compare k e.1 = .lt

/-- What holds of the entries of a map and of those that are put into it holds of the
entries of the result. -/
theorem forall_entries_putAll {P : κ × α → Prop} {m : Keyed κ α} {l : List (κ × α)}
    (hm : ∀ e ∈ m.entries, P e) (hl : ∀ e ∈ l, P e) : ∀ e ∈ (m.putAll l).entries, P e := by
  induction l generalizing m with
  | nil => exact hm
  | cons head rest ih =>
      refine ih ?_ fun e he => hl e (List.mem_cons_of_mem _ he)
      intro e he
      rcases mem_insertEntry he with rfl | hmem
      · exact hl head List.mem_cons_self
      · exact hm e hmem

omit [Std.TransOrd κ] [Std.LawfulEqOrd κ] in
/-- The entries after a key are those whose keys follow it. -/
theorem mem_after {m : Keyed κ α} {k : Option κ} {e : κ × α} :
    e ∈ m.after k ↔ e ∈ m.entries ∧ ∀ c ∈ k, compare c e.1 = .lt := by
  cases k with
  | none => simp [after]
  | some c => simp [after]

omit [Std.LawfulEqOrd κ] in
/-- The entries after a key that comes after `k` are among those after `k`. -/
theorem after_eq_filter_after {m : Keyed κ α} {k : Option κ} {e : κ × α} (h : e ∈ m.after k) :
    m.after (some e.1) = (m.after k).filter fun x => compare e.1 x.1 = .lt := by
  cases k with
  | none => rfl
  | some k =>
      have hk : compare k e.1 = .lt := (mem_after.mp h).2 k rfl
      simp only [after, List.filter_filter]
      refine List.filter_congr fun x _ => ?_
      by_cases hx : compare e.1 x.1 = .lt
      · simp [hx, Std.TransCmp.lt_trans hk hx]
      · simp [hx]

omit [Std.LawfulEqOrd κ] in
/-- Fewer entries come after an entry than after a key that it comes after. -/
theorem length_after_lt {m : Keyed κ α} {k : Option κ} {e : κ × α} (h : e ∈ m.after k) :
    (m.after (some e.1)).length < (m.after k).length := by
  rw [after_eq_filter_after h]
  exact List.length_filter_lt_length_iff_exists.mpr ⟨e, h, by simp⟩

/-! ## Readings -/

omit [Std.TransOrd κ] in
theorem find?_insertEntry (k k' : κ) (value : α) (l : List (κ × α)) :
    find? k' (insertEntry k value l) =
      if compare k' k = .eq then some value else find? k' l := by
  induction l with
  | nil => simp [insertEntry, find?]
  | cons head rest ih =>
      obtain ⟨other, old⟩ := head
      simp only [insertEntry]
      split
      · simp [find?]
      · next heq =>
        have hk : k = other := Std.LawfulEqCmp.eq_of_compare heq
        subst hk
        by_cases h : compare k' k = .eq <;> simp [find?, h]
      · next hgt =>
        by_cases h : compare k' k = .eq
        · have hk : k' = k := Std.LawfulEqCmp.eq_of_compare h
          subst hk
          simp [find?, hgt, ih]
        · simp [find?, ih, h]

/-- A write changes the reading of its key and of no other. -/
theorem get?_put (m : Keyed κ α) (k k' : κ) (value : α) :
    (m.put k value).get? k' = if compare k' k = .eq then some value else m.get? k' :=
  find?_insertEntry k k' value m.entries

end Lawful

end Keyed

end SkyCatalog
