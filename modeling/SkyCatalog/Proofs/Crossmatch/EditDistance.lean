import SkyCatalog.Crossmatch.EditDistance
import SkyCatalog.Proofs.Crossmatch.EditScripts

/-!
# The rolling rows hold distances

A row belongs to a beginning of the first text and holds its distance from every beginning of the
second (`Distances`). While a row is being written, its entries up to some place are new and the
others are left over from the row before the last; writing an entry reads only the new ones and
the last finished row (`fill_spec`). The rows therefore stay right when they change places
(`next_spec`, `run_spec`), and what is read off in the end is the distance of the whole texts
(`listDistance_eq`). The main statement is `editDistance_minimal`.
-/

namespace SkyCatalog

/-- Up to the end of `done` the row holds the distances of a text, whose characters are given from
the last to the first, from the beginnings of another. -/
def Distances (row : Array Nat) (text done : List Char) : Prop :=
  ∀ beginning, beginning <+: done →
    row.getD beginning.length 0 = distance text beginning.reverse

namespace Rows

variable {rows : Rows} {c d : Char} {text done rest : List Char}

theorem getD_write_self {j value : Nat} (h : j < rows.current.size) :
    (rows.write j value).current.getD j 0 = value := by
  simp [write, Array.getD_eq_getD_getElem?, h]

theorem getD_write_of_ne {j k value : Nat} (h : k ≠ j) :
    (rows.write j value).current.getD k 0 = rows.current.getD k 0 := by
  simp [write, Array.getD_eq_getD_getElem?, Array.getElem?_setIfInBounds_ne h.symm]

@[simp] theorem size_write (j value : Nat) :
    (rows.write j value).current.size = rows.current.size := by
  simp [write]

@[simp] theorem previous_write (j value : Nat) : (rows.write j value).previous = rows.previous :=
  rfl

/-- The entry is a distance if the entries that it is computed from are. -/
theorem entry_eq (hprevious : Distances rows.previous text (done ++ d :: rest))
    (hcurrent : Distances rows.current (c :: text) done) :
    rows.entry c d done.length = distance (c :: text) (d :: done.reverse) := by
  have habove := hprevious (done ++ [d]) ⟨rest, by simp⟩
  have hdiagonal := hprevious done ⟨d :: rest, rfl⟩
  have hleft := hcurrent done (List.prefix_refl done)
  simp only [List.length_append, List.length_singleton, List.reverse_append,
    List.reverse_singleton, List.singleton_append] at habove
  rw [entry, habove, hdiagonal, hleft, distance_cons_cons]

/-- The next entry is written behind those that are new already. -/
theorem write_entry (hprevious : Distances rows.previous text (done ++ d :: rest))
    (hcurrent : Distances rows.current (c :: text) done)
    (hsize : done.length + 1 < rows.current.size) :
    Distances (rows.write (done.length + 1) (rows.entry c d done.length)).current (c :: text)
      (done ++ [d]) := by
  intro beginning hbeginning
  rcases List.prefix_concat_iff.mp hbeginning with rfl | hshorter
  · rw [List.length_append, List.length_singleton, getD_write_self hsize,
      entry_eq hprevious hcurrent, List.reverse_append, List.reverse_singleton,
      List.singleton_append]
  · have hlength := hshorter.length_le
    rw [getD_write_of_ne (by omega)]
    exact hcurrent beginning hshorter

/-- **Writing a row.** The entries that are written are the distances of a text that is one
character longer; the last finished row is only read. -/
theorem fill_spec (rows : Rows) (done : List Char)
    (hprevious : Distances rows.previous text (done ++ rest))
    (hcurrent : Distances rows.current (c :: text) done)
    (hsize : done.length + rest.length < rows.current.size) :
    Distances (fill c rows done.length rest).current (c :: text) (done ++ rest) ∧
      (fill c rows done.length rest).current.size = rows.current.size ∧
      (fill c rows done.length rest).previous = rows.previous := by
  -- by induction on what is left of the second text: what is done grows by a character
  induction rest generalizing rows done with
  | nil =>
      rw [List.append_nil]
      exact ⟨hcurrent, rfl, rfl⟩
  | cons d rest ih =>
      rw [List.length_cons] at hsize
      have hnext := write_entry hprevious hcurrent (by omega)
      rw [List.append_cons] at hprevious ⊢
      have hlength : (done ++ [d]).length = done.length + 1 := by simp
      have hfilled := ih (rows.write (done.length + 1) (rows.entry c d done.length)) (done ++ [d])
        hprevious hnext (by rw [hlength, size_write]; omega)
      rwa [hlength, size_write, previous_write] at hfilled

/-- The last finished row is that of a text, and there is room for the next. -/
structure Finished (rows : Rows) (text bs : List Char) : Prop where
  distances : Distances rows.previous text bs
  size_previous : rows.previous.size = bs.length + 1
  size_current : rows.current.size = bs.length + 1

variable {bs : List Char}

theorem finished_start (bs : List Char) : Finished (start bs.length) [] bs := by
  refine ⟨?_, Array.size_range, Array.size_replicate⟩
  intro beginning hbeginning
  have hlength := hbeginning.length_le
  -- every character of the beginning is inserted
  rw [distance_nil, List.length_reverse]
  simp [start, Array.getD_eq_getD_getElem?, Nat.lt_succ_of_le hlength]

/-- The rows change places when the current one is finished. -/
theorem next_spec (h : rows.Finished text bs) :
    (rows.next bs text.length c).Finished (c :: text) bs := by
  obtain ⟨hdistances, hprevious, hcurrent⟩ := h
  have hfirst : Distances (rows.write 0 (text.length + 1)).current (c :: text) [] := by
    intro beginning hbeginning
    -- every character of the text is deleted
    obtain rfl := List.prefix_nil.mp hbeginning
    rw [List.length_nil, getD_write_self (by omega), List.reverse_nil, distance_nil_right,
      List.length_cons]
  obtain ⟨hfilled, hsize, hsame⟩ := fill_spec (rows.write 0 (text.length + 1)) [] hdistances hfirst
    (by rw [size_write, hcurrent, List.length_nil]; omega)
  constructor
  · exact hfilled
  · exact hsize.trans ((size_write 0 _).trans hcurrent)
  · exact (congrArg Array.size hsame).trans hprevious

/-- **All rows.** After a run the last finished row is that of the text with what was read. -/
theorem run_spec (as : List Char) (h : rows.Finished text bs) :
    (rows.run bs text.length as).Finished (as.reverse ++ text) bs := by
  induction as generalizing rows text with
  | nil => exact h
  | cons c rest ih =>
      rw [List.reverse_cons, List.append_assoc]
      exact ih (next_spec h)

end Rows

/-- What is computed is the distance of the texts, read backwards. -/
theorem listDistance_eq (as bs : List Char) :
    listDistance as bs = distance as.reverse bs.reverse := by
  unfold listDistance
  split
  · next hempty =>
    obtain rfl := List.isEmpty_iff.mp hempty
    simp
  · split
    · next hempty =>
      obtain rfl := List.isEmpty_iff.mp hempty
      simp
    · -- the last entry of the last row belongs to the whole texts
      have hfinished := Rows.run_spec as (Rows.finished_start bs)
      rw [List.append_nil] at hfinished
      exact hfinished.distances bs (List.prefix_refl bs)

/-- **The edit distance is the length of a shortest script** of insertions, deletions and
substitutions of single characters that turns the one text into the other. -/
theorem editDistance_minimal (a b : String) :
    (∃ script, runScript? script a.toList = some b.toList ∧
        script.length = editDistance a b) ∧
      ∀ script, runScript? script a.toList = some b.toList →
        editDistance a b ≤ script.length := by
  have hdistance : editDistance a b = distance a.toList.reverse b.toList.reverse :=
    listDistance_eq _ _
  -- the rows read both texts backwards, which scripts do not mind
  constructor
  · have hedits := edits_distance a.toList.reverse b.toList.reverse
    rw [← hdistance, edits_reverse_iff] at hedits
    exact exists_script_iff.mpr hedits
  · intro script hrun
    have hedits := exists_script_iff.mp ⟨script, hrun, rfl⟩
    rw [hdistance]
    exact hedits.reverse.distance_le

/-- A script of three edits, of which none can be saved. -/
theorem editDistance_minimal_three_edits :
    let script : List Edit := [⟨0, .substitute 's'⟩, ⟨4, .substitute 'i'⟩, ⟨6, .insert '\u00e9'⟩]
    runScript? script "kitten".toList = some "sittin\u00e9".toList ∧
      editDistance "kitten" "sittin\u00e9" ≤ script.length ∧
      ∃ script, runScript? script "kitten".toList = some "sittin\u00e9".toList ∧
        script.length = 3 := by
  intro script
  have hrun : runScript? script "kitten".toList = some "sittin\u00e9".toList := by decide
  have hthree : editDistance "kitten" "sittin\u00e9" = 3 := by decide +kernel
  obtain ⟨hexists, hleast⟩ := editDistance_minimal "kitten" "sittin\u00e9"
  rw [hthree] at hexists
  exact ⟨hrun, hleast script hrun, hexists⟩

end SkyCatalog
