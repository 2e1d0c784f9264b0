import SkyCatalog.Query.Fault

/-!
# From infix to postfix order

`toPostfix` moves every operator behind its operands. Operators wait in a holding
list, the latest first, until an operator of lower precedence, a closing
parenthesis or the end of the expression releases them; an opening parenthesis in
the list is a barrier. Operators of equal precedence are released in the order
they were read, so they group to the left.
-/

namespace SkyCatalog.Query

/-- A held operator that must be released before `op` is held. -/
def Lexeme.yieldsTo (op : Operator) (held : Lexeme) : Bool :=
  match held.token with
  | .operator top => op.precedence ≤ top.precedence
  | _ => false

/-- An opening parenthesis in the holding list. -/
def Lexeme.isBarrier (held : Lexeme) : Bool :=
  held.token = .leftParen

/-- Release what is left at the end; a barrier that is still held was never closed. -/
def releaseAll (holding : List Lexeme) : Except ParseError (List Lexeme) :=
  match holding.find? Lexeme.isBarrier with
  | some open_ => .error ⟨.unclosedOpen, open_.span⟩
  | none => .ok holding

/-- Reorder the lexemes that follow, given those held so far. -/
def shunt (holding : List Lexeme) : List Lexeme → Except ParseError (List Lexeme)
  | [] => releaseAll holding
  | l :: rest =>
      match l.token with
      | .condition _ => do
          let out ← shunt holding rest
          return l :: out
      | .operator op => do
          let out ← shunt (l :: holding.dropWhile (Lexeme.yieldsTo op)) rest
          return holding.takeWhile (Lexeme.yieldsTo op) ++ out
      | .leftParen => shunt (l :: holding) rest
      | .rightParen =>
          match holding.dropWhile (!·.isBarrier) with
          | [] => .error ⟨.unmatchedClose, l.span⟩
          | _ :: outer => do
              let out ← shunt outer rest
              return holding.takeWhile (!·.isBarrier) ++ out

/-- Reorder lexemes into postfix order; parentheses are used up. -/
def toPostfix (lexemes : List Lexeme) : Except ParseError (List Lexeme) :=
  shunt [] lexemes

end SkyCatalog.Query
