import Mathlib.Data.List.DropRight
import Mathlib.Data.List.TakeWhile
import SkyCatalog.Text.Blank

/-!
# Texts without blanks around them

Trimming twice is trimming once (`trim_trim`); nothing is dropped from a text without blanks
(`trim_of_no_blank`), and nothing is left of a text of blanks (`trim_of_isBlankText`).
-/

namespace SkyCatalog.Text

theorem trimChars_eq (cs : List Char) :
    trimChars cs = (cs.dropWhile isBlank).rdropWhile isBlank := rfl

/-- Nothing is dropped from a text without blanks. -/
theorem trim_of_no_blank {s : String} (h : ∀ c ∈ s.toList, isBlank c = false) : trim s = s := by
  have hleft : s.toList.dropWhile isBlank = s.toList := by
    refine List.dropWhile_eq_self_iff.mpr fun hlen => ?_
    simp [h _ (List.getElem_mem hlen)]
  have hright : s.toList.rdropWhile isBlank = s.toList := by
    refine List.rdropWhile_eq_self_iff.mpr fun hne => ?_
    simp [h _ (List.getLast_mem hne)]
  rw [trim, trimChars_eq, hleft, hright, String.ofList_toList]

/-- Trimming from the right leaves the first character where it is. -/
theorem trimChars_trimChars (cs : List Char) : trimChars (trimChars cs) = trimChars cs := by
  have hleft : (trimChars cs).dropWhile isBlank = trimChars cs := by
    refine List.dropWhile_eq_self_iff.mpr fun hlen => ?_
    have hstart : trimChars cs <+: cs.dropWhile isBlank := List.rdropWhile_prefix isBlank _
    have hlen' := hlen.trans_le hstart.length_le
    rw [hstart.getElem hlen]
    exact List.dropWhile_get_zero_not isBlank cs hlen'
  rw [trimChars_eq (trimChars cs), hleft, trimChars_eq, List.rdropWhile_idempotent]

theorem trim_trim (s : String) : trim (trim s) = trim s := by
  rw [trim, trim, String.toList_ofList, trimChars_trimChars]

/-- Nothing is left of a text of blanks. -/
theorem trim_of_isBlankText {s : String} (h : isBlankText s = true) : trim s = "" := by
  have hall : ∀ c ∈ s.toList, isBlank c = true := List.all_eq_true.mp h
  rw [trim, trimChars_eq, List.dropWhile_eq_nil_iff.mpr hall]
  rfl

end SkyCatalog.Text
