import SkyCatalog.Query.Span
import SkyCatalog.Text.Blank

/-!
# Tokens of a search expression

An expression joins conditions such as `name:M33` by `AND` and `OR`, with
parentheses. This module holds the tokens, their written form and the two
priorities that decide how an expression without parentheses is grouped.
-/

namespace SkyCatalog.Query

/-- What a condition looks at: a name, a place on the sky, a permanent identifier. -/
inductive Criterion where
  | name
  | pos
  | pgc
deriving DecidableEq, Repr

/-- The word that a criterion is written with. -/
def Criterion.word : Criterion → String
  | .name => "name"
  | .pos => "pos"
  | .pgc => "pgc"

/-- Every criterion, in the order in which they are looked for. -/
def Criterion.all : List Criterion := [.name, .pos, .pgc]

/-- One condition: a criterion and the text it is compared with. -/
structure Condition where
  criterion : Criterion
  value : String
deriving DecidableEq, Repr

/-- A character that makes a value need quotes when it is written. -/
def needsQuotes (c : Char) : Bool :=
  Text.isBlank c || c == '(' || c == ')' || c == '"'

/-- The written form of a condition. The value stands bare unless it is empty or
holds a character that needs quotes. -/
def Condition.text (c : Condition) : String :=
  let chars := c.value.toList
  if !chars.isEmpty && !chars.any needsQuotes then
    c.criterion.word ++ ":" ++ c.value
  else
    c.criterion.word ++ ":\"" ++ c.value ++ "\""

/-- The two ways of joining expressions. -/
inductive Operator where
  | and
  | or
deriving DecidableEq, Repr

/-- The written form of an operator. -/
def Operator.text : Operator → String
  | .and => "AND"
  | .or => "OR"

/-- The word that is looked for, in lower case. -/
def Operator.word : Operator → List Char
  | .and => ['a', 'n', 'd']
  | .or => ['o', 'r']

/-- Binding strength: `AND` binds tighter than `OR`. -/
def Operator.precedence : Operator → Nat
  | .and => 1
  | .or => 0

/-- The tokens of an expression. -/
inductive Token where
  | leftParen
  | rightParen
  | operator (op : Operator)
  | condition (c : Condition)
deriving DecidableEq, Repr

/-- The written form of a token. -/
def Token.text : Token → String
  | .leftParen => "("
  | .rightParen => ")"
  | .operator op => op.text
  | .condition c => c.text

/-- A token with its place in the expression. -/
structure Lexeme where
  token : Token
  span : Span
deriving DecidableEq, Repr

end SkyCatalog.Query
