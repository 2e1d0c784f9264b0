import SkyCatalog.Query.Diagnostic
import SkyCatalog.Query.Token

/-!
# What can be wrong with an expression

`Fault` lists the causes, from unreadable input to terms that no operator joins.
The wording of each cause and the hint that goes with it are fixed here, in
`Fault.message` and `Fault.hint?`, and nowhere else.
-/

namespace SkyCatalog.Query

/-- The cause for which an expression is refused. -/
inductive Fault where
  /-- No lexeme starts with this character. -/
  | unexpectedInput (c : Char)
  /-- The character after an operator is not a blank. -/
  | operatorNotSpaced (op : Operator)
  /-- A closing parenthesis that no opening one precedes. -/
  | unmatchedClose
  /-- An opening parenthesis that is never closed. -/
  | unclosedOpen
  /-- An operator with fewer than two operands. -/
  | missingOperand (op : Operator)
  /-- A parenthesis in a postfix sequence. -/
  | strayParen (token : Token)
  /-- No term at all. -/
  | emptyExpression
  /-- Two terms that no operator joins. -/
  | missingOperator
deriving DecidableEq, Repr

namespace Fault

/-- The wording of a fault. -/
def message : Fault → String
  | .unexpectedInput c => "unexpected input '" ++ c.toString ++ "'"
  | .operatorNotSpaced op => "operator '" ++ op.text ++ "' must be followed by whitespace"
  | .unmatchedClose => "unmatched ')'"
  | .unclosedOpen => "unclosed '('"
  | .missingOperand op => "operator '" ++ op.text ++ "' is missing an operand"
  | .strayParen token => "unexpected '" ++ token.text ++ "' in postfix expression"
  | .emptyExpression => "empty expression"
  | .missingOperator => "expected AND or OR between terms"

/-- How to mend the expression, where there is an obvious way. -/
def hint? : Fault → Option String
  | .unexpectedInput c =>
      if c = '"' then
        some "quoted values must be closed and follow a function, e.g. name:\"NGC 224\""
      else some "expected name:, pos:, pgc:, AND, OR or parentheses"
  | .unmatchedClose => some "remove it or add a matching '(' before it"
  | .unclosedOpen => some "add a matching ')'"
  | .missingOperator => some "join search terms with AND or OR"
  | .operatorNotSpaced _ | .missingOperand _ | .strayParen _ | .emptyExpression => none

end Fault

/-- A fault and the part of the expression that is at fault. -/
structure ParseError where
  fault : Fault
  span : Span
deriving DecidableEq, Repr

/-- The report that goes with an error. -/
def ParseError.diagnostic (e : ParseError) : Diagnostic :=
  ⟨e.fault.message, e.span, e.fault.hint?⟩

end SkyCatalog.Query
