import SkyCatalog.Query.Token

/-!
# Search expressions

An expression is a condition or two expressions joined by an operator. This
module holds its written form, its leaves and its evaluation. Evaluation reports
the conditions it consulted: the right operand is consulted only when the left
one does not decide the result.
-/

namespace SkyCatalog.Query

/-- The result that the left operand decides, if it decides one. -/
def Operator.decided? (op : Operator) (left : Bool) : Option Bool :=
  match op, left with
  | .and, false => some false
  | .or, true => some true
  | _, _ => none

/-- A search expression. -/
inductive Expr where
  | leaf (c : Condition)
  | binary (op : Operator) (left right : Expr)
deriving DecidableEq, Repr

namespace Expr

/-- The written form: every operator in parentheses of its own. -/
def text : Expr → String
  | .leaf c => c.text
  | .binary op left right => "(" ++ left.text ++ " " ++ op.text ++ " " ++ right.text ++ ")"

/-- The conditions of an expression from left to right. -/
def conditions : Expr → List Condition
  | .leaf c => [c]
  | .binary _ left right => left.conditions ++ right.conditions

/-- The result of an expression and the conditions consulted, in order. -/
def consult (holds : Condition → Bool) : Expr → Bool × List Condition
  | .leaf c => (holds c, [c])
  | .binary op left right =>
      let first := consult holds left
      match op.decided? first.1 with
      | some result => (result, first.2)
      | none =>
          let second := consult holds right
          (second.1, first.2 ++ second.2)

/-- The result of an expression, `holds` deciding each condition. -/
def evaluate (holds : Condition → Bool) (e : Expr) : Bool :=
  (consult holds e).1

end Expr

end SkyCatalog.Query
