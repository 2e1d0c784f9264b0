import SkyCatalog.Text.Offset

/-!
# Spans of an expression

A span says where a lexeme or a subexpression stands in the text it was read
from. Offsets count bytes; columns and widths count characters. A span need not
fit a given text: reading it off then yields the empty text, and the marker of a
report stays visible because a width is never zero.
-/

namespace SkyCatalog.Query

/-- A range of byte offsets. An empty span marks a place rather than a range. -/
structure Span where
  start : Nat
  stop : Nat
deriving DecidableEq, Repr

namespace Span

/-- The empty span at the front of a text. -/
def origin : Span := ⟨0, 0⟩

/-- The smallest span that contains both. -/
def merge (a b : Span) : Span :=
  ⟨min a.start b.start, max a.stop b.stop⟩

/-- The characters covered, none if the span does not fit the text. -/
def slice (s : Span) (text : List Char) : List Char :=
  (Text.slice? s.start s.stop text).getD []

/-- The column of the start, counted from one. A start that does not fit the text
is placed after its last character. -/
def column (s : Span) (text : List Char) : Nat :=
  ((Text.takeBytes? s.start text).getD text).length + 1

/-- The number of characters covered, at least one. -/
def width (s : Span) (text : List Char) : Nat :=
  max 1 (s.slice text).length

theorem merge_assoc (a b c : Span) : (a.merge b).merge c = a.merge (b.merge c) := by
  simp [merge, Nat.min_assoc, Nat.max_assoc]

end Span

end SkyCatalog.Query
