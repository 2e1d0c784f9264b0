import Mathlib.Data.List.Basic
import Mathlib.Order.MinMax
import SkyCatalog.Proofs.Text.Offset
import SkyCatalog.Query.Diagnostic

/-!
# Spans inside a text

A span that fits a text cuts it into what stands before it, what it covers and what follows it
(`Span.Cuts`). Its column and its width then count the characters of the first two
(`Cuts.column`, `Cuts.width`), and the line that marks it is made up of as many blanks and carets
(`Cuts.marker`, `Cuts.render`). The spans that cover at least one character of a text are those whose ends are
two different cuts of it (`within_iff`); merging two of them gives another (`Within.merge`).
-/

namespace SkyCatalog.Query.Span

/-- The span cuts a text into what stands before it, what it covers and what follows it. -/
def Cuts (s : Span) (cs before text after : List Char) : Prop :=
  cs = before ++ (text ++ after) ∧
    s = ⟨Text.byteLength before, Text.byteLength before + Text.byteLength text⟩

section Cuts

variable {s : Span} {cs before text after : List Char}

theorem Cuts.start_le_stop (h : s.Cuts cs before text after) : s.start ≤ s.stop := by
  obtain ⟨-, rfl⟩ := h
  exact Nat.le_add_right _ _

theorem Cuts.stop_le (h : s.Cuts cs before text after) : s.stop ≤ Text.byteLength cs := by
  obtain ⟨rfl, rfl⟩ := h
  simp only [Text.byteLength_append]
  omega

theorem Cuts.start_lt_stop (h : s.Cuts cs before text after) (htext : text ≠ []) :
    s.start < s.stop := by
  obtain ⟨-, rfl⟩ := h
  exact Nat.lt_add_of_pos_right (Text.byteLength_pos htext)

theorem Cuts.slice (h : s.Cuts cs before text after) : s.slice cs = text := by
  obtain ⟨rfl, rfl⟩ := h
  rw [Span.slice, Text.slice?_append]
  rfl

theorem Cuts.column (h : s.Cuts cs before text after) : s.column cs = before.length + 1 := by
  obtain ⟨rfl, rfl⟩ := h
  rw [Span.column, Text.takeBytes?_append]
  rfl

theorem Cuts.width (h : s.Cuts cs before text after) : s.width cs = max 1 text.length := by
  rw [Span.width, h.slice]

/-- The line below the text: blanks up to the span and a caret for each of its characters. -/
theorem Cuts.marker {d : Diagnostic} (h : d.span.Cuts cs before text after) :
    d.marker cs = List.replicate before.length ' ' ++ List.replicate (max 1 text.length) '^' := by
  rw [Diagnostic.marker, h.column, h.width, Nat.add_sub_cancel]

/-- The report on a span that fits the text. -/
theorem Cuts.render {d : Diagnostic} {source : String}
    (h : d.span.Cuts source.toList before text after) :
    d.render source =
      "error: " ++ d.message ++ "\n" ++
      "  " ++ source ++ "\n" ++
      "  " ++ String.ofList (List.replicate before.length ' ' ++
        List.replicate (max 1 text.length) '^') ++ "\n" ++
      "  column " ++ toString (before.length + 1) ++ "\n" ++
      (match d.hint with
        | some hint => "  hint: " ++ hint ++ "\n"
        | none => "") := by
  rw [← h.marker, ← h.column]
  exact rfl

end Cuts

/-! ## Spans that are not empty -/

/-- An offset between two characters of a text, or at one of its ends. -/
def Cut (cs : List Char) (offset : Nat) : Prop :=
  ∃ before after, cs = before ++ after ∧ offset = Text.byteLength before

/-- The span covers at least one character of a text. -/
def Within (cs : List Char) (s : Span) : Prop :=
  ∃ before text after, s.Cuts cs before text after ∧ text ≠ []

theorem within_iff {cs : List Char} {s : Span} :
    s.Within cs ↔ Cut cs s.start ∧ Cut cs s.stop ∧ s.start < s.stop := by
  constructor
  · rintro ⟨before, text, after, hcuts, htext⟩
    have hlt := hcuts.start_lt_stop htext
    obtain ⟨rfl, rfl⟩ := hcuts
    refine ⟨⟨before, text ++ after, rfl, rfl⟩, ⟨before ++ text, after, ?_, ?_⟩, hlt⟩
    · exact (List.append_assoc _ _ _).symm
    · exact (Text.byteLength_append _ _).symm
  · rintro ⟨⟨before, rest, rfl, hstart⟩, ⟨longer, after, heq, hstop⟩, hlt⟩
    obtain ⟨start, stop⟩ := s
    simp only at hstart hstop hlt
    -- of two cuts the one at the greater offset comes second
    rcases List.append_eq_append_iff.mp heq with ⟨text, rfl, rfl⟩ | ⟨text, rfl, rfl⟩
    · rw [Text.byteLength_append] at hstop
      refine ⟨before, text, after, ⟨rfl, by rw [hstart, hstop]⟩, ?_⟩
      rintro rfl
      rw [Text.byteLength_nil] at hstop
      omega
    · rw [Text.byteLength_append] at hstart
      omega

theorem Within.merge {cs : List Char} {s t : Span} (hs : s.Within cs) (ht : t.Within cs) :
    (s.merge t).Within cs := by
  obtain ⟨hstart, hstop, hlt⟩ := within_iff.mp hs
  obtain ⟨hstart', hstop', hlt'⟩ := within_iff.mp ht
  refine within_iff.mpr ⟨?_, ?_, ?_⟩
  · rcases min_choice s.start t.start with hmin | hmin
    · exact (congrArg (Cut cs) hmin).mpr hstart
    · exact (congrArg (Cut cs) hmin).mpr hstart'
  · rcases max_choice s.stop t.stop with hmax | hmax
    · exact (congrArg (Cut cs) hmax).mpr hstop
    · exact (congrArg (Cut cs) hmax).mpr hstop'
  · exact lt_of_le_of_lt (min_le_left _ _) (lt_of_lt_of_le hlt (le_max_left _ _))

end SkyCatalog.Query.Span
