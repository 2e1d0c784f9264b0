import SkyCatalog.Query.Expr

/-!
# The grammar of search expressions

A sentence is a chain of terms with an operator between every two of them; a term is a
condition or a sentence in parentheses. Each sentence has its lexemes, written from left
to right, and its tree, which says what it means. For the tree the chain is split at
every `OR` into groups. The terms of a group are joined by `AND` from the left, and then
the groups are joined by `OR` from the left.
-/

namespace SkyCatalog.Query

mutual

/-- A condition, or a sentence in parentheses. -/
inductive Term where
  | condition (c : Condition) (span : Span)
  | parens (opening : Span) (inner : Sentence) (closing : Span)

/-- Terms with an operator between every two of them. -/
inductive Sentence where
  | term (t : Term)
  | join (t : Term) (op : Operator) (span : Span) (rest : Sentence)

end

mutual

/-- The lexemes of a term from left to right. -/
def Term.lexemes : Term → List Lexeme
  | .condition c span => [⟨.condition c, span⟩]
  | .parens opening inner closing =>
      ⟨.leftParen, opening⟩ :: (inner.lexemes ++ [⟨.rightParen, closing⟩])

/-- The lexemes of a sentence from left to right. -/
def Sentence.lexemes : Sentence → List Lexeme
  | .term t => t.lexemes
  | .join t op span rest => t.lexemes ++ ⟨.operator op, span⟩ :: rest.lexemes

end

/-- Expressions that stand side by side, at least one. -/
structure Chain where
  first : Expr
  rest : List Expr

/-- The expressions of a chain joined by an operator from the left. -/
def Chain.joined (op : Operator) (c : Chain) : Expr :=
  c.rest.foldl (.binary op) c.first

/-- Groups of expressions, at least one. -/
structure Groups where
  first : Chain
  rest : List Chain

/-- Each group joined by `AND`, and the groups joined by `OR`. -/
def Groups.tree (g : Groups) : Expr :=
  Chain.joined .or ⟨g.first.joined .and, g.rest.map (Chain.joined .and)⟩

mutual

/-- What a term means. -/
def Term.tree : Term → Expr
  | .condition c _ => .leaf c
  | .parens _ inner _ => inner.groups.tree

/-- The meanings of the terms of a sentence, split at every `OR`. -/
def Sentence.groups : Sentence → Groups
  | .term t => ⟨⟨t.tree, []⟩, []⟩
  | .join t .and _ rest =>
      let groups := rest.groups
      ⟨⟨t.tree, groups.first.first :: groups.first.rest⟩, groups.rest⟩
  | .join t .or _ rest =>
      let groups := rest.groups
      ⟨⟨t.tree, []⟩, groups.first :: groups.rest⟩

end

/-- What a sentence means. -/
def Sentence.tree (e : Sentence) : Expr :=
  e.groups.tree

end SkyCatalog.Query
