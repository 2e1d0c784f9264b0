import SkyCatalog.Query.Span

/-!
# Reports on a faulty expression

A diagnostic is a message about a span, with an optional hint on how to mend the
expression. It is written in one line (`text`) or as a report that echoes the
expression and marks the span (`render`).
-/

namespace SkyCatalog.Query

/-- A message about a part of an expression. -/
structure Diagnostic where
  message : String
  span : Span
  hint : Option String
deriving DecidableEq, Repr

namespace Diagnostic

/-- The message and the offset at which the fault starts. -/
def text (d : Diagnostic) : String :=
  d.message ++ " (offset " ++ toString d.span.start ++ ")"

/-- The line that marks the span: blanks up to its column, then one caret for each
character. -/
def marker (d : Diagnostic) (expression : List Char) : List Char :=
  List.replicate (d.span.column expression - 1) ' ' ++
    List.replicate (d.span.width expression) '^'

/-- The report: message, expression, marker, column and hint, a line each. -/
def render (d : Diagnostic) (expression : String) : String :=
  let chars := expression.toList
  "error: " ++ d.message ++ "\n" ++
    "  " ++ expression ++ "\n" ++
    "  " ++ String.ofList (d.marker chars) ++ "\n" ++
    "  column " ++ toString (d.span.column chars) ++ "\n" ++
    (match d.hint with
      | some hint => "  hint: " ++ hint ++ "\n"
      | none => "")

end Diagnostic

end SkyCatalog.Query
