import SkyCatalog.Query.Expr
import SkyCatalog.Query.Lexer
import SkyCatalog.Query.Postfix

/-!
# From postfix order to a tree

`build` reads a postfix sequence with a stack of finished operands, the latest
first. An operator takes the two latest operands; what is left at the end must be
exactly one. `parse` joins the three steps from the written expression to its tree.
-/

namespace SkyCatalog.Query

/-- A finished operand and the part of the expression it was read from. -/
structure Operand where
  expr : Expr
  span : Span
deriving DecidableEq, Repr

/-- Read a postfix sequence onto a stack of operands. -/
def assemble (stack : List Operand) : List Lexeme → Except ParseError (List Operand)
  | [] => .ok stack
  | l :: rest =>
      match l.token with
      | .condition c => assemble (⟨.leaf c, l.span⟩ :: stack) rest
      | .operator op =>
          match stack with
          | right :: left :: below =>
              let span := (left.span.merge right.span).merge l.span
              assemble (⟨.binary op left.expr right.expr, span⟩ :: below) rest
          | _ => .error ⟨.missingOperand op, l.span⟩
      | .leftParen | .rightParen => .error ⟨.strayParen l.token, l.span⟩

/-- The tree of a postfix sequence. Of several operands that nothing joins, the
second one is at fault. -/
def build (postfixOrder : List Lexeme) : Except ParseError Expr := do
  let stack ← assemble [] postfixOrder
  match stack.reverse with
  | [] => .error ⟨.emptyExpression, .origin⟩
  | [operand] => .ok operand.expr
  | _ :: stray :: _ => .error ⟨.missingOperator, stray.span⟩

/-- The lexemes of an expression in postfix order. -/
def parsePostfix (source : String) : Except ParseError (List Lexeme) := do
  toPostfix (← tokenize source)

/-- The tree of an expression. -/
def parse (source : String) : Except ParseError Expr := do
  build (← parsePostfix source)

end SkyCatalog.Query
